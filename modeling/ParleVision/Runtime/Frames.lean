import ParleVision.Runtime.Monotone

namespace ParleVision.Runtime
open Lib

variable {E P C : Type} {net : Network E P C} {first : Nat} {stale : E → Nat → Nat}

theorem eq_range'_of_closed {l : List Nat} {first : Nat} (hordered : l.Pairwise (· < ·))
    (hfirst : ∀ x ∈ l, first ≤ x) (hclosed : ∀ x ∈ l, ∀ y, first ≤ y → y < x → y ∈ l) :
    l = List.range' first l.length := by
  induction l generalizing first with
  | nil => rfl
  | cons a l ih =>
    obtain ⟨hlt, htail⟩ := List.pairwise_cons.mp hordered
    have ha : a = first := by
      by_contra hne
      have hfa := hfirst a (List.mem_cons_self ..)
      have hmem := hclosed a (List.mem_cons_self ..) first (Nat.le_refl _) (by omega)
      obtain hmem | hmem := List.mem_cons.mp hmem
      · exact hne hmem.symm
      · have := hlt first hmem
        omega
    subst a
    have hrest : l = List.range' (first + 1) l.length := by
      refine ih htail hlt fun x hx y hy hyx => ?_
      have hmem := hclosed x (List.mem_cons_of_mem _ hx) y (by omega) hyx
      exact (List.mem_cons.mp hmem).resolve_left (by omega)
    rw [List.length_cons, List.range'_succ, ← hrest]

theorem eq_range'_of_isPrefix {l : List Nat} {first n : Nat} (h : l <+: List.range' first n) :
    l = List.range' first l.length := by
  obtain ⟨rest, hrest⟩ := h
  obtain ⟨k, -, hk, -⟩ := List.range'_eq_append_iff.mp hrest.symm
  rw [hk, List.length_range']

/-- What is left of consecutive numbers once a front part is gone. -/
theorem range'_rest {l r : List Nat} {first n : Nat} (h : List.range' first n = l ++ r) :
    r = List.range' (first + l.length) (n - l.length) := by
  obtain ⟨k, -, hl, hr⟩ := List.range'_eq_append_iff.mp h
  rw [hr, hl, List.length_range', Nat.mul_one]

theorem range'_isPrefix {first m n : Nat} (h : m ≤ n) :
    List.range' first m <+: List.range' first n :=
  ⟨List.range' (first + m) (n - m), by rw [List.range'_append_1, Nat.add_sub_cancel' h]⟩

/-- What is smaller than a member of the front part is in the front part. -/
theorem mem_prefix_of_lt {l l' : List Nat} {x y : Nat} (hordered : l.Pairwise (· < ·))
    (hfront : l' <+: l) (hx : x ∈ l') (hy : y ∈ l) (hlt : y < x) : y ∈ l' := by
  obtain ⟨rest, rfl⟩ := hfront
  obtain hy | hy := List.mem_append.mp hy
  · exact hy
  · have := (List.pairwise_append.mp hordered).2.2 x hx y hy
    omega

section
variable [DecidableEq E] [DecidableEq P] [DecidableEq C] {s s' : PipelineState E P C}

/-- What holds of each element is kept by a step when it depends on the flow of that element only,
and is kept by its dispatch, its run and its end. -/
theorem forall_step {I : Flow E C → E → Worker P C → Prop} {event : Event E P C}
    (ha : Accounted net s) (hs : s.step net event = some s')
    (hcongr : ∀ f f' e w, SameFor net f f' e → I f e w → I f' e w)
    (hidle : ∀ f e, I f e (.finished true) → I f e .idle)
    (hdispatch : ∀ f e serial, I f e .idle → I (f.dispatch e serial) e (.dispatched serial))
    (hrun : ∀ e action w', event = .work e action →
      Run net s.flow e (s.worker e) action s'.flow w' → I s.flow e (s.worker e) → I s'.flow e w')
    (h : ∀ e, I s.flow e (s.worker e)) (e : E) : I s'.flow e (s'.worker e) := by
  have hdispatches {e' : E} {serial : Nat} (hd : Dispatches s e' serial s')
      (hf : s'.flow = Flow.dispatch { s.flow with m_readyQueue := s'.m_readyQueue } e' serial) :
      I s'.flow e (s'.worker e) := by
    have hold : I { s.flow with m_readyQueue := s'.m_readyQueue } e (s.worker e) :=
      hcongr s.flow _ e _ ⟨rfl, rfl, rfl, fun _ _ => rfl, fun _ _ => rfl, fun _ _ => rfl⟩ (h e)
    rw [hd.worker, hf]
    by_cases he : e = e'
    · subst e'
      have hworker : s.worker e = .idle := Worker.not_busy fun hb => (ha.busy e).mp hb hd.state
      rw [hworker] at hold
      rw [Function.update_self]
      exact hdispatch _ e serial hold
    · rw [Function.update_of_ne he]
      exact hcongr _ _ e _ (dispatch_others he) hold
  cases event with
  | schedule order answer =>
    have ht : Turn net s s' := schedule_cases hs
    cases ht with
    | moves => exact h e
    | @reaps e' _ _ hw =>
      change I s.flow e (Function.update s.worker e' .idle e)
      by_cases he : e = e'
      · subst e'
        rw [Function.update_self]
        exact hidle _ e (hw ▸ h e)
      · rw [Function.update_of_ne he]
        exact h e
    | dispatches _ _ hd _ hf => exact hdispatches hd (by rw [hf]; rfl)
    | produces _ hd _ hf => exact hdispatches hd (by rw [hf]; rfl)
    | ticks =>
      exact hcongr s.flow _ e _ ⟨rfl, rfl, rfl, fun _ _ => rfl, fun _ _ => rfl, fun _ _ => rfl⟩
        (h e)
  | work e' action =>
    obtain ⟨w', hw⟩ := work_cases (ha.shaped e') hs
    rw [hw.worker]
    by_cases he : e = e'
    · subst e'
      rw [Function.update_self]
      exact hrun e action w' rfl hw.run (h e)
    · rw [Function.update_of_ne he]
      exact hcongr _ _ e _ (hw.run.others he) (h e)

end

/-- The frame after the last one that the producers were dispatched for, or are being. -/
def PipelineState.next (s : PipelineState E P C) : Nat :=
  match s.phase with
  | .producing _ => s.m_serial + 1
  | _ => s.m_serial

/-- The producers are dispatched for every frame, one after the other. -/
structure Framed (net : Network E P C) (first : Nat) (s : PipelineState E P C) : Prop where
  first_le : first ≤ s.m_serial
  ready : ∀ e, net.isProducer e = true → s.m_readyQueue e = []
  before : ∀ e, net.isProducer e = true → ¬ s.produced e →
    s.dispatched e = List.range' first (s.m_serial - first)
  after : ∀ e, net.isProducer e = true → s.produced e →
    s.dispatched e = List.range' first (s.m_serial + 1 - first)

theorem started_framed : Framed net first (.started first stale) := by
  constructor
  case first_le => exact Nat.le_refl _
  case ready => exact fun _ _ => rfl
  case before =>
    intro e _ _
    rw [show (PipelineState.started first stale : PipelineState E P C).m_serial = first from rfl,
      Nat.sub_self]
    rfl
  case after =>
    rintro e _ ⟨todo, htodo, -⟩
    cases htodo

variable {s s' : PipelineState E P C}

/-- Only these fields are in it. -/
theorem Framed.congr (h : Framed net first s) (hserial : s'.m_serial = s.m_serial)
    (hready : ∀ e, net.isProducer e = true → s'.m_readyQueue e = s.m_readyQueue e)
    (hdispatched : ∀ e, net.isProducer e = true → s'.dispatched e = s.dispatched e)
    (hproduced : ∀ e, net.isProducer e = true → (s'.produced e ↔ s.produced e)) :
    Framed net first s' := by
  constructor
  case first_le => rw [hserial]; exact h.first_le
  case ready => exact fun e he => (hready e he).trans (h.ready e he)
  case before =>
    intro e he hp
    rw [hserial, hdispatched e he]
    exact h.before e he fun hold => hp ((hproduced e he).mpr hold)
  case after =>
    intro e he hp
    rw [hserial, hdispatched e he]
    exact h.after e he ((hproduced e he).mp hp)

theorem next_of_not_producing (h : ∀ todo, s.phase ≠ .producing todo) : s.next = s.m_serial := by
  unfold PipelineState.next
  split
  case h_1 todo hphase => exact absurd hphase (h todo)
  case h_2 => rfl

theorem le_next : s.m_serial ≤ s.next := by
  unfold PipelineState.next
  split
  · exact Nat.le_succ _
  · exact Nat.le_refl _

theorem Framed.dispatched_isPrefix (h : Framed net first s) {e : E}
    (he : net.isProducer e = true) :
    s.flow.announced e <+: List.range' first (s.next - first) := by
  rw [Flow.announced, h.ready e he, List.append_nil]
  by_cases hp : s.produced e
  · rw [h.after e he hp]
    obtain ⟨todo, hphase, -⟩ := hp
    rw [PipelineState.next, hphase]
  · rw [h.before e he hp]
    exact range'_isPrefix (Nat.sub_le_sub_right le_next first)

theorem not_produced {e : E} (hphase : ∀ todo, s.phase ≠ .producing todo) : ¬ s.produced e := by
  rintro ⟨todo, htodo, -⟩
  exact hphase todo htodo

variable [DecidableEq E]

/-- The frames are counted on when the producers are to be dispatched. -/
theorem Turn.next (h : Turn net s s') :
    s'.next = s.next ∨ s.phase = .asking [] true ∧ s'.next = s.m_serial + 1 := by
  cases h with
  | @moves phase hfrom hto =>
    by_cases hp : ∃ todo, phase = .producing todo
    · obtain ⟨todo, rfl⟩ := hp
      exact .inr ⟨(hto todo rfl).1, rfl⟩
    · left
      rw [next_of_not_producing hfrom, next_of_not_producing fun todo he => hp ⟨todo, he⟩]
  | reaps hphase =>
    left
    rw [PipelineState.next, PipelineState.next, hphase]
    rfl
  | dispatches hphase _ _ hphase' hf =>
    left
    rw [PipelineState.next, PipelineState.next, hphase, hphase', hf]
    rfl
  | produces hphase _ hphase' hf =>
    left
    rw [PipelineState.next, PipelineState.next, hphase, hphase', hf]
    rfl
  | ticks hphase =>
    left
    rw [PipelineState.next, PipelineState.next, hphase]
    rfl

/-- The thread of the pipeline begins no run, and takes nothing. -/
theorem Turn.records (h : Turn net s s') : s'.runs = s.runs ∧ s'.taken = s.taken := by
  cases h with
  | moves => exact ⟨rfl, rfl⟩
  | reaps => exact ⟨rfl, rfl⟩
  | dispatches _ _ _ _ hf => rw [hf]; exact ⟨rfl, rfl⟩
  | produces _ _ _ hf => rw [hf]; exact ⟨rfl, rfl⟩
  | ticks => exact ⟨rfl, rfl⟩

theorem Framed.turn (h : Framed net first s)
    (hproducing : ∀ todo, s.phase = .producing todo →
      todo.Nodup ∧ ∀ e ∈ todo, net.isProducer e = true)
    (ht : Turn net s s') : Framed net first s' := by
  cases ht with
  | @moves phase hfrom hto =>
    refine h.congr rfl (fun _ _ => rfl) (fun _ _ => rfl) ?_
    intro e he
    refine iff_of_false ?_ (not_produced hfrom)
    rintro ⟨todo, htodo, hnot⟩
    rw [(hto todo htodo).2] at hnot
    exact hnot (List.mem_filter.mpr ⟨net.mem_children e, he⟩)
  | @reaps e _ hphase =>
    refine h.congr rfl (fun _ _ => rfl) (fun _ _ => rfl) ?_
    intro e' _
    refine iff_of_false (not_produced ?_) (not_produced ?_)
    · intro todo htodo
      cases htodo
    · simp [hphase]
  | @dispatches e _ _ queue _ hphase hq _ hphase' hf =>
    have hne {e' : E} (he' : net.isProducer e' = true) : e' ≠ e := by
      intro he
      rw [← he, h.ready e' he'] at hq
      cases hq
    apply h.congr
    · rw [hf]
      rfl
    · intro e' he'
      rw [hf]
      exact Function.update_of_ne (hne he') ..
    · intro e' he'
      rw [hf]
      exact Function.update_of_ne (hne he') ..
    · intro e' _
      refine iff_of_false (not_produced ?_) (not_produced ?_)
      · simp [hphase']
      · simp [hphase]
  | @produces e todo _ hphase _ hphase' hf =>
    obtain ⟨hnodup, hall⟩ := hproducing _ hphase
    have hserial : s'.m_serial = s.m_serial := by rw [hf]; rfl
    have hready : s'.m_readyQueue = s.m_readyQueue := by rw [hf]; rfl
    have hdispatched : s'.dispatched =
        Function.update s.dispatched e (s.dispatched e ++ [s.m_serial]) := by rw [hf]; rfl
    have hself : s'.produced e := ⟨todo, hphase', (List.nodup_cons.mp hnodup).1⟩
    have hself' : ¬ s.produced e := by
      rintro ⟨todo', htodo, hnot⟩
      rw [hphase] at htodo
      cases htodo
      exact hnot (List.mem_cons_self ..)
    have hother {e' : E} (hne : e' ≠ e) : s'.produced e' ↔ s.produced e' := by
      simp [PipelineState.produced, hphase, hphase', hne]
    constructor
    case first_le => rw [hserial]; exact h.first_le
    case ready => rw [hready]; exact h.ready
    case before =>
      intro e' he' hp
      have hne : e' ≠ e := fun he => hp (he ▸ hself)
      rw [hserial, hdispatched, Function.update_of_ne hne]
      exact h.before e' he' fun hold => hp ((hother hne).mpr hold)
    case after =>
      intro e' he' hp
      rw [hserial, hdispatched]
      by_cases hne : e' = e
      · have hlast : first + (s.m_serial - first) = s.m_serial := Nat.add_sub_cancel' h.first_le
        rw [hne, Function.update_self, h.before e (hne ▸ he') hself',
          Nat.sub_add_comm h.first_le, List.range'_1_concat, hlast]
      · rw [Function.update_of_ne hne]
        exact h.after e' he' ((hother hne).mp hp)
  | ticks hphase =>
    have hall (e : E) : s.produced e := ⟨[], hphase, List.not_mem_nil⟩
    constructor
    case first_le => exact Nat.le_succ_of_le h.first_le
    case ready => exact h.ready
    case before => exact fun e he _ => h.after e he (hall e)
    case after =>
      rintro e _ ⟨todo, htodo, -⟩
      cases htodo

variable [DecidableEq C]

/-- A run adds to what was begun and what was taken. -/
theorem Works.records {e : E} {action : Action P C} {w' : Worker P C}
    (h : Works net s e action s' w') :
    (∀ e, s.runs e <+: s'.runs e) ∧ ∀ c, s.taken c <+: s'.taken c := by
  have hgrow {α : Type} [DecidableEq α] (g : α → List Nat) (a b : α) (x : Nat) :
      g b <+: Function.update g a (g a ++ [x]) b := by
    by_cases hb : b = a
    · rw [hb, Function.update_self]
      exact List.prefix_append ..
    · rw [Function.update_of_ne hb]
  have hrun := h.run
  generalize s'.flow = f' at hrun
  cases hrun with
  | quiet => exact ⟨fun _ => List.prefix_rfl, fun _ => List.prefix_rfl⟩
  | @begins serial => exact ⟨fun e' => hgrow s.runs e e' serial, fun _ => List.prefix_rfl⟩
  | pushes => exact ⟨fun _ => List.prefix_rfl, fun _ => List.prefix_rfl⟩
  | announces _ hnew =>
    have hf := newData_announces hnew
    rw [hf.runs, hf.taken]
    exact ⟨fun _ => List.prefix_rfl, fun _ => List.prefix_rfl⟩
  | @takes c _ d _ _ hget =>
    obtain ⟨queue, -, rfl⟩ := get_some hget
    exact ⟨fun _ => List.prefix_rfl, fun c' => hgrow s.taken c c' d.serial⟩

theorem Works.next {e : E} {action : Action P C} {w' : Worker P C}
    (h : Works net s e action s' w') : s'.next = s.next := by
  rw [PipelineState.next, PipelineState.next, h.phase, h.m_serial]

theorem Framed.works {e : E} {action : Action P C} {w' : Worker P C} (h : Framed net first s)
    (hw : Works net s e action s' w') : Framed net first s' := by
  apply h.congr hw.m_serial
  · intro e' he'
    have hrun := hw.run
    generalize s'.flow = f' at hrun
    cases hrun with
    | quiet => rfl
    | begins => rfl
    | pushes => rfl
    | @announces c _ _ _ hnew =>
      have hne := net.ne_target he' c
      obtain ⟨-, -, hr⟩ | ⟨-, -, -, hr⟩ | ⟨-, -, ⟨-, -, hr⟩ | ⟨-, -, hr⟩⟩ :=
        (newData_announces hnew).scored
      · rw [hr, Function.update_of_ne hne]
      · rw [hr]
      · rw [hr, Function.update_of_ne hne]
      · rw [hr]
    | takes _ hget =>
      obtain ⟨queue, -, rfl⟩ := get_some hget
      rfl
  · intro e' _
    have hrun := hw.run
    generalize s'.flow = f' at hrun
    cases hrun with
    | quiet => rfl
    | begins => rfl
    | pushes => rfl
    | announces _ hnew => rw [(newData_announces hnew).dispatched]
    | takes _ hget =>
      obtain ⟨queue, -, rfl⟩ := get_some hget
      rfl
  · intro e' _
    rw [PipelineState.produced, PipelineState.produced, hw.phase]

theorem Framed.step [DecidableEq P] {event : Event E P C} (h : Framed net first s)
    (ha : Accounted net s) (hs : s.step net event = some s') : Framed net first s' := by
  cases event with
  | schedule order answer => exact h.turn ha.producing (schedule_cases hs)
  | work e action =>
    obtain ⟨w', hw⟩ := work_cases (ha.shaped e) hs
    exact h.works hw

omit [DecidableEq E] in
theorem Accounted.runs_isPrefix (ha : Accounted net s) (e : E) :
    s.runs e <+: s.flow.announced e := by
  rw [Flow.announced, ← (ha.element e).dispatched, List.append_assoc]
  exact List.prefix_append ..

omit [DecidableEq E] in
/-- What was announced on a synchronous connection is the front of what its source was announced
for. -/
theorem Accounted.notified_isPrefix (ha : Accounted net s) {c : C}
    (hsync : net.isSynchronous c = true) :
    s.put c <+: s.runs (net.source c) ∧ s.notified c <+: s.flow.announced (net.source c) := by
  have hacc := ha.element (net.source c)
  have hput : s.put c <+: s.runs (net.source c) := by
    obtain hall | hbut := hacc.sync c rfl hsync
    · rw [hall]
    · rw [hbut]
      exact List.dropLast_prefix _
  have hnotified : s.notified c <+: s.put c := by
    rw [hacc.notified c rfl]
    exact List.prefix_append ..
  exact ⟨hput, (hnotified.trans hput).trans (ha.runs_isPrefix _)⟩

omit [DecidableEq E] in
/-- Where all that can get items have a synchronous pin, an element is announced for the frames one
after the other. -/
theorem Serials.consecutive (h : Serials net first stale s) (ha : Accounted net s)
    (hf : Framed net first s) (hacyclic : net.Acyclic)
    (hpins : ∀ c, net.m_hasSynchronousPin (net.target c) = true) (e : E) :
    s.flow.announced e = List.range' first (s.flow.announced e).length := by
  apply eq_range'_of_closed (h.ordered e) (fun x hx => (h.range e x hx).1)
  induction e using hacyclic.induction with
  | hstep e ih =>
    intro x hx y hfirst hlt
    cases hp : net.isProducer e with
    | true =>
      rw [Flow.announced, hf.ready e hp, List.append_nil] at hx ⊢
      by_cases hproduced : s.produced e
      · rw [hf.after e hp hproduced, List.mem_range'_1] at hx ⊢
        omega
      · rw [hf.before e hp hproduced, List.mem_range'_1] at hx ⊢
        omega
    | false =>
      have hhas : net.m_hasSynchronousPin e = true := by
        by_contra hnot
        obtain ⟨c, rfl, -⟩ := h.asynchronous e (Bool.not_eq_true _ ▸ hnot) hp x hx
        exact hnot (hpins c)
      rw [h.complete e hhas] at hx ⊢
      intro c hc
      obtain ⟨htarget, hsync⟩ := (net.mem_syncInputs e c).mp hc
      have hfront := (ha.notified_isPrefix hsync).2
      have hy := ih c htarget x (hfront.subset (hx c hc)) y hfirst hlt
      exact mem_prefix_of_lt (h.ordered _) hfront (hx c hc) hy hlt

omit [DecidableEq E] in
/-- An element is about to be run for the frame after those it was run for. -/
theorem Accounted.entered_eq {e : E} {x : Nat} (ha : Accounted net s)
    (hconsecutive : s.flow.announced e = List.range' first (s.flow.announced e).length)
    (hw : s.worker e = .entered x) : x ∈ s.flow.announced e ∧ x = first + (s.runs e).length := by
  have hdispatched := (ha.element e).dispatched
  rw [hw] at hdispatched
  change s.runs e ++ [x] = s.dispatched e at hdispatched
  have hannounced : s.flow.announced e = s.runs e ++ (x :: s.m_readyQueue e) := by
    rw [Flow.announced, ← hdispatched, List.append_assoc]
    rfl
  constructor
  · rw [hannounced]
    exact List.mem_append_right _ (List.mem_cons_self ..)
  · rw [hannounced] at hconsecutive
    obtain ⟨k, -, hruns, hrest⟩ := List.range'_eq_append_iff.mp hconsecutive.symm
    obtain ⟨hfirst, -⟩ := List.range'_eq_cons_iff.mp hrest.symm
    rw [hruns, List.length_range', ← hfirst, Nat.mul_one]

end ParleVision.Runtime
