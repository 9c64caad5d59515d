import ParleVision.Runtime.Accounts

namespace ParleVision.Runtime
open Lib

variable {E P C : Type} {net : Network E P C}

theorem countP_succ_of_notMem {α : Type} [DecidableEq α] {l : List α} {p q : α → Bool} {a : α}
    (hnodup : l.Nodup) (ha : a ∈ l) (hp : p a = false) (hq : q a = true)
    (hother : ∀ b ∈ l, b ≠ a → q b = p b) : l.countP q = l.countP p + 1 := by
  induction l with
  | nil => cases ha
  | cons b l ih =>
    obtain ⟨hb, hnodup⟩ := List.nodup_cons.mp hnodup
    by_cases hba : b = a
    · subst b
      have hrest : l.countP q = l.countP p := by
        apply List.countP_congr
        intro b hbl
        rw [hother b (List.mem_cons_of_mem a hbl) fun he => hb (he ▸ hbl)]
      rw [List.countP_cons_of_pos hq, List.countP_cons_of_neg (by simp [hp]), hrest]
    · have hal : a ∈ l := (List.mem_cons.mp ha).resolve_left fun he => hba he.symm
      have hrest := ih hnodup hal fun b' hb' => hother b' (List.mem_cons_of_mem b hb')
      have hb' : q b = p b := hother b (List.mem_cons_self ..) hba
      rw [List.countP_cons, List.countP_cons, hrest, hb']
      omega

/-- One pin is missing to the full count exactly when the others are all in. -/
theorem countP_succ_eq_length_iff {α : Type} [DecidableEq α] {l : List α} {p : α → Bool} {a : α}
    (hnodup : l.Nodup) (ha : a ∈ l) (hp : p a = false) :
    l.countP p + 1 = l.length ↔ ∀ b ∈ l, b ≠ a → p b = true := by
  have hsucc := countP_succ_of_notMem (q := fun b => p b || decide (b = a)) hnodup ha hp
    (by simp) fun b _ hne => by simp [hne]
  rw [← hsucc, List.countP_eq_length]
  simp only [Bool.or_eq_true, decide_eq_true_eq]
  exact ⟨fun h b hb hne => (h b hb).resolve_right hne, fun h b hb =>
    (Classical.em (b = a)).symm.imp_left (h b hb)⟩

/-- The serials an element was announced for: those it was dispatched for, and those in its ready
queue. -/
def Flow.announced (f : Flow E C) (e : E) : List Nat := f.dispatched e ++ f.m_readyQueue e

/-- The producers that the dispatch going on has come past. -/
def PipelineState.produced (s : PipelineState E P C) (e : E) : Prop :=
  ∃ todo, s.phase = .producing todo ∧ e ∉ todo

/-- The synchronous pins that were notified of a serial with this value as unsigned int, for which
their element was not announced. -/
def Flow.pins (net : Network E P C) (f : Flow E C) (e : E) (value : Nat) : Nat :=
  (net.syncInputs e).countP fun c =>
    (f.notified c).any fun x => decide (x ∉ f.announced e ∧ unsigned x = value)

/-- The serials of each element increase, and the scoreboards hold what was notified. -/
structure Serials (net : Network E P C) (first : Nat) (stale : E → Nat → Nat)
    (s : PipelineState E P C) : Prop where
  producer : ∀ e, net.isProducer e = true → s.m_readyQueue e = []
  produced : ∀ e, net.isProducer e = true → ∀ x ∈ s.dispatched e,
    x < s.m_serial ∨ x = s.m_serial ∧ s.produced e
  ordered : ∀ e, (s.flow.announced e).Pairwise (· < ·)
  range : ∀ e, ∀ x ∈ s.flow.announced e, first ≤ x ∧ x ≤ s.m_serial
  first_le : first ≤ s.m_serial
  complete : ∀ e, net.m_hasSynchronousPin e = true →
    ∀ x, x ∈ s.flow.announced e ↔ ∀ c ∈ net.syncInputs e, x ∈ s.notified c
  asynchronous : ∀ e, net.m_hasSynchronousPin e = false → net.isProducer e = false →
    ∀ x ∈ s.flow.announced e, ∃ c, net.target c = e ∧ x ∈ s.notified c
  lookup : ∀ e value, s.m_lookup e value = stale e value + s.flow.pins net e value

theorem started_serials (first : Nat) (stale : E → Nat → Nat) :
    Serials net first stale (.started first stale) := by
  constructor
  case producer => exact fun _ _ => rfl
  case produced => exact fun _ _ x hx => absurd hx List.not_mem_nil
  case ordered => exact fun _ => List.Pairwise.nil
  case range => exact fun _ x hx => absurd hx List.not_mem_nil
  case first_le => exact Nat.le_refl _
  case complete =>
    intro e he x
    obtain ⟨c, hc⟩ := net.exists_syncInput he
    exact ⟨fun hx => absurd hx List.not_mem_nil, fun h => absurd (h c hc) List.not_mem_nil⟩
  case asynchronous => exact fun _ _ _ x hx => absurd hx List.not_mem_nil
  case lookup =>
    intro e value
    have hnone : Flow.pins net (PipelineState.started first stale : PipelineState E P C).flow e
        value = 0 := List.countP_eq_zero.mpr fun _ _ => Bool.false_ne_true
    rw [hnone]
    rfl

variable {first : Nat} {stale : E → Nat → Nat} {s s' : PipelineState E P C}

/-- Only these fields are in it. -/
theorem Serials.congr (h : Serials net first stale s) (hserial : s'.m_serial = s.m_serial)
    (hdispatched : s'.dispatched = s.dispatched) (hready : s'.m_readyQueue = s.m_readyQueue)
    (hnotified : s'.notified = s.notified) (hlookup : s'.m_lookup = s.m_lookup)
    (hproduced : ∀ e, net.isProducer e = true → s.produced e → s'.produced e) :
    Serials net first stale s' := by
  have hannounced (e : E) : s'.flow.announced e = s.flow.announced e := by
    rw [Flow.announced, hdispatched, hready]
    rfl
  constructor
  case producer => rw [hready]; exact h.producer
  case produced =>
    intro e he x hx
    rw [hdispatched] at hx
    rw [hserial]
    exact (h.produced e he x hx).imp_right fun hp => ⟨hp.1, hproduced e he hp.2⟩
  case ordered => exact fun e => hannounced e ▸ h.ordered e
  case range =>
    intro e
    rw [hannounced, hserial]
    exact h.range e
  case first_le => rw [hserial]; exact h.first_le
  case complete =>
    intro e
    rw [hannounced, hnotified]
    exact h.complete e
  case asynchronous =>
    intro e
    rw [hannounced, hnotified]
    exact h.asynchronous e
  case lookup =>
    intro e value
    have hpins : s'.flow.pins net e value = s.flow.pins net e value := by
      rw [Flow.pins, Flow.pins, hannounced, hnotified]
    rw [hlookup, hpins]
    exact h.lookup e value

variable [DecidableEq E]

/-- A dispatch moves an item from the ready queue. -/
theorem Flow.announced_dispatch {f : Flow E C} {e : E} {x : Nat} {queue : List Nat}
    (hq : f.m_readyQueue e = x :: queue) (e' : E) :
    (Flow.dispatch { f with m_readyQueue := Function.update f.m_readyQueue e queue } e x).announced
      e' = f.announced e' := by
  change Function.update f.dispatched e (f.dispatched e ++ [x]) e' ++
    Function.update f.m_readyQueue e queue e' = f.dispatched e' ++ f.m_readyQueue e'
  by_cases he : e' = e
  · rw [he, Function.update_self, Function.update_self, hq, List.append_assoc]
    rfl
  · rw [Function.update_of_ne he, Function.update_of_ne he]

/-- An element is dispatched for the head of its ready queue. -/
theorem Serials.dispatches {e : E} {x : Nat} {queue : List Nat} (h : Serials net first stale s)
    (hq : s.m_readyQueue e = x :: queue) (hp : ∀ e, ¬ s.produced e)
    (hf : s'.flow = Flow.dispatch
      { s.flow with m_readyQueue := Function.update s.m_readyQueue e queue } e x) :
    Serials net first stale s' := by
  have hready : s'.m_readyQueue = Function.update s.m_readyQueue e queue := by rw [hf]; rfl
  have hdispatched : s'.dispatched = Function.update s.dispatched e (s.dispatched e ++ [x]) := by
    rw [hf]; rfl
  have hserial : s'.m_serial = s.m_serial := by rw [hf]; rfl
  have hnotified : s'.notified = s.notified := by rw [hf]; rfl
  have hlookup : s'.m_lookup = s.m_lookup := by rw [hf]; rfl
  have hannounced (e' : E) : s'.flow.announced e' = s.flow.announced e' := by
    rw [hf, Flow.announced_dispatch hq]
  have hnot {e' : E} (he' : net.isProducer e' = true) : e' ≠ e := by
    intro he
    rw [← he, h.producer e' he'] at hq
    cases hq
  constructor
  case producer =>
    intro e' he'
    rw [hready, Function.update_of_ne (hnot he')]
    exact h.producer e' he'
  case produced =>
    intro e' he' y hy
    rw [hdispatched, Function.update_of_ne (hnot he')] at hy
    rw [hserial]
    exact (h.produced e' he' y hy).imp_right fun hy => absurd hy.2 (hp e')
  case ordered => exact fun e' => hannounced e' ▸ h.ordered e'
  case range =>
    intro e'
    rw [hannounced, hserial]
    exact h.range e'
  case first_le => rw [hserial]; exact h.first_le
  case complete =>
    intro e'
    rw [hannounced, hnotified]
    exact h.complete e'
  case asynchronous =>
    intro e'
    rw [hannounced, hnotified]
    exact h.asynchronous e'
  case lookup =>
    intro e' value
    have hpins : s'.flow.pins net e' value = s.flow.pins net e' value := by
      rw [Flow.pins, Flow.pins, hannounced, hnotified]
    rw [hlookup, hpins]
    exact h.lookup e' value

/-- A producer is dispatched for the serial that is next. -/
theorem Serials.produces {e : E} {todo : List E} (h : Serials net first stale s)
    (he : net.isProducer e = true) (hnodup : (e :: todo).Nodup)
    (hphase : s.phase = .producing (e :: todo)) (hphase' : s'.phase = .producing todo)
    (hf : s'.flow = s.flow.dispatch e s.m_serial) : Serials net first stale s' := by
  have hready : s'.m_readyQueue = s.m_readyQueue := by rw [hf]; rfl
  have hdispatched : s'.dispatched =
      Function.update s.dispatched e (s.dispatched e ++ [s.m_serial]) := by rw [hf]; rfl
  have hserial : s'.m_serial = s.m_serial := by rw [hf]; rfl
  have hnotified : s'.notified = s.notified := by rw [hf]; rfl
  have hlookup : s'.m_lookup = s.m_lookup := by rw [hf]; rfl
  have hself : s'.flow.announced e = s.flow.announced e ++ [s.m_serial] := by
    rw [Flow.announced, hdispatched, hready, Function.update_self, Flow.announced,
      h.producer e he, List.append_nil, List.append_nil]
  have hother {e' : E} (hne : e' ≠ e) : s'.flow.announced e' = s.flow.announced e' := by
    rw [Flow.announced, hdispatched, hready, Function.update_of_ne hne]
    rfl
  have hpins (e' : E) (value : Nat) : s'.flow.pins net e' value = s.flow.pins net e' value := by
    by_cases hne : e' = e
    · rw [hne, Flow.pins, Flow.pins, net.producer_syncInputs he]
      rfl
    · rw [Flow.pins, Flow.pins, hother hne, hnotified]
  constructor
  case producer => rw [hready]; exact h.producer
  case produced =>
    intro e' he' x hx
    rw [hdispatched] at hx
    rw [hserial]
    by_cases hne : e' = e
    · rw [hne, Function.update_self, List.mem_append, List.mem_singleton] at hx
      obtain hx | hx := hx
      · left
        obtain hlt | ⟨-, todo', htodo, hnot⟩ := h.produced e he x hx
        · exact hlt
        · rw [hphase] at htodo
          cases htodo
          exact absurd (List.mem_cons_self ..) hnot
      · exact .inr ⟨hx, todo, hphase', hne ▸ (List.nodup_cons.mp hnodup).1⟩
    · rw [Function.update_of_ne hne] at hx
      refine (h.produced e' he' x hx).imp_right fun ⟨hxe, todo', htodo, hnot⟩ => ?_
      rw [hphase] at htodo
      cases htodo
      exact ⟨hxe, todo, hphase', fun hmem => hnot (List.mem_cons_of_mem e hmem)⟩
  case ordered =>
    intro e'
    by_cases hne : e' = e
    · rw [hne, hself, List.pairwise_append]
      refine ⟨h.ordered e, List.pairwise_singleton .., ?_⟩
      intro x hx y hy
      rw [List.mem_singleton.mp hy]
      rw [Flow.announced, h.producer e he, List.append_nil] at hx
      obtain hlt | ⟨-, todo', htodo, hnot⟩ := h.produced e he x hx
      · exact hlt
      · rw [hphase] at htodo
        cases htodo
        exact absurd (List.mem_cons_self ..) hnot
    · rw [hother hne]
      exact h.ordered e'
  case range =>
    intro e' x hx
    rw [hserial]
    by_cases hne : e' = e
    · rw [hne, hself, List.mem_append, List.mem_singleton] at hx
      obtain hx | hx := hx
      · exact h.range e x hx
      · rw [hx]
        exact ⟨h.first_le, Nat.le_refl _⟩
    · rw [hother hne] at hx
      exact h.range e' x hx
  case first_le => rw [hserial]; exact h.first_le
  case complete =>
    intro e' he'
    have hne : e' ≠ e := by
      intro hee
      rw [hee, net.producer_m_hasSynchronousPin he] at he'
      cases he'
    rw [hother hne, hnotified]
    exact h.complete e' he'
  case asynchronous =>
    intro e' he' hp'
    have hne : e' ≠ e := by
      intro hee
      rw [hee, he] at hp'
      cases hp'
    rw [hother hne, hnotified]
    exact h.asynchronous e' he' hp'
  case lookup =>
    intro e' value
    rw [hlookup, hpins]
    exact h.lookup e' value

theorem Serials.turn (h : Serials net first stale s)
    (hproducing : ∀ todo, s.phase = .producing todo →
      todo.Nodup ∧ ∀ e ∈ todo, net.isProducer e = true)
    (ht : Turn net s s') : Serials net first stale s' := by
  cases ht with
  | moves hfrom _ =>
    refine h.congr rfl rfl rfl rfl rfl ?_
    rintro e _ ⟨todo, htodo, -⟩
    exact absurd htodo (hfrom todo)
  | reaps hphase _ =>
    refine h.congr rfl rfl rfl rfl rfl ?_
    rintro e _ ⟨todo, htodo, -⟩
    rw [hphase] at htodo
    cases htodo
  | dispatches hphase hq _ _ hf =>
    refine h.dispatches hq ?_ hf
    rintro e ⟨todo, htodo, -⟩
    rw [hphase] at htodo
    cases htodo
  | produces hphase _ hphase' hf =>
    obtain ⟨hnodup, hall⟩ := hproducing _ hphase
    exact h.produces (hall _ (List.mem_cons_self ..)) hnodup hphase hphase' hf
  | ticks =>
    constructor
    case producer => exact h.producer
    case produced =>
      intro e he x hx
      left
      obtain hlt | ⟨rfl, -⟩ := h.produced e he x hx
      · exact Nat.lt_succ_of_lt hlt
      · exact Nat.lt_succ_self _
    case ordered => exact h.ordered
    case range => exact fun e x hx => ⟨(h.range e x hx).1, Nat.le_succ_of_le (h.range e x hx).2⟩
    case first_le => exact Nat.le_succ_of_le h.first_le
    case complete => exact h.complete
    case asynchronous => exact h.asynchronous
    case lookup => exact h.lookup

variable [DecidableEq C]

omit [DecidableEq E] in
/-- The item that waits to be announced on a connection is the last of the run, and later than
those that were announced on it before. -/
theorem Serials.announcing {e : E} {c : C} (h : Serials net first stale s) (ha : Accounted net s)
    (hsource : net.source c = e) (hc : (s.worker e).announcing = some c) :
    s.processingSerial e ∈ s.flow.announced e ∧ ∀ x ∈ s.notified c, x < s.processingSerial e := by
  have hacc := ha.element e
  have hput : s.put c = s.notified c ++ [s.processingSerial e] := by
    rw [hacc.notified c hsource, if_pos hc]
  have hsub : (s.notified c ++ [s.processingSerial e]).Sublist (s.flow.announced e) := by
    rw [← hput, Flow.announced, ← hacc.dispatched, List.append_assoc]
    exact (hacc.put c hsource).trans (List.sublist_append_left ..)
  constructor
  · exact hsub.subset (List.mem_append_right _ (List.mem_singleton_self _))
  · intro x hx
    have hord := (h.ordered e).sublist hsub
    exact (List.pairwise_append.mp hord).2.2 x hx _ (List.mem_singleton_self _)

/-- `newData` writes an item down for the owner of one pin, and may announce that one. -/
theorem Serials.adds {c : C} {x : Nat} {l : List Nat} (h : Serials net first stale s)
    (hx : first ≤ x ∧ x ≤ s.m_serial)
    (hserial : s'.m_serial = s.m_serial) (hphase : s'.phase = s.phase)
    (hdispatched : s'.dispatched = s.dispatched)
    (hready : s'.m_readyQueue = Function.update s.m_readyQueue (net.target c)
      (s.m_readyQueue (net.target c) ++ l))
    (hnotified : s'.notified = Function.update s.notified c (s.notified c ++ [x]))
    (hother : ∀ e, e ≠ net.target c → s'.m_lookup e = s.m_lookup e)
    (hadded : l.Sublist [x])
    (hordered : x ∈ l → ∀ y ∈ s.flow.announced (net.target c), y < x)
    (hcomplete : net.m_hasSynchronousPin (net.target c) = true →
      ∀ y, y ∈ s'.flow.announced (net.target c) ↔
        ∀ c' ∈ net.syncInputs (net.target c), y ∈ s'.notified c')
    (hlookup : ∀ value, s'.m_lookup (net.target c) value =
      stale (net.target c) value + s'.flow.pins net (net.target c) value) :
    Serials net first stale s' := by
  have hself : s'.flow.announced (net.target c) =
      s.flow.announced (net.target c) ++ l := by
    rw [Flow.announced, hdispatched, hready, Function.update_self, ← List.append_assoc]
    rfl
  have hothers {e : E} (hne : e ≠ net.target c) : s'.flow.announced e = s.flow.announced e := by
    rw [Flow.announced, hdispatched, hready, Function.update_of_ne hne]
    rfl
  have hmem {y : Nat} (hy : y ∈ l) : y = x := List.mem_singleton.mp (hadded.subset hy)
  have hsyncs {e : E} (hne : e ≠ net.target c) {c' : C} (hc' : c' ∈ net.syncInputs e) :
      s'.notified c' = s.notified c' := by
    have htarget := ((net.mem_syncInputs e c').mp hc').1
    rw [hnotified]
    exact Function.update_of_ne (fun he => hne (by rw [← he, htarget])) ..
  constructor
  case producer =>
    intro e he
    rw [hready, Function.update_of_ne (net.ne_target he c)]
    exact h.producer e he
  case produced =>
    intro e he y hy
    rw [hdispatched] at hy
    rw [hserial, PipelineState.produced, hphase]
    exact h.produced e he y hy
  case ordered =>
    intro e
    by_cases hne : e = net.target c
    · rw [hne, hself, List.pairwise_append]
      refine ⟨h.ordered _, (List.pairwise_singleton _ x).sublist hadded, ?_⟩
      intro y hy z hz
      rw [hmem hz]
      exact hordered (hmem hz ▸ hz) y hy
    · rw [hothers hne]
      exact h.ordered e
  case range =>
    intro e y hy
    rw [hserial]
    by_cases hne : e = net.target c
    · rw [hne, hself, List.mem_append] at hy
      obtain hy | hy := hy
      · exact h.range _ y hy
      · rw [hmem hy]
        exact hx
    · rw [hothers hne] at hy
      exact h.range e y hy
  case first_le => rw [hserial]; exact h.first_le
  case complete =>
    intro e he y
    by_cases hne : e = net.target c
    · subst e
      exact hcomplete he y
    · rw [hothers hne, h.complete e he y]
      exact forall₂_congr fun c' hc' => by rw [hsyncs hne hc']
  case asynchronous =>
    intro e he hpe y hy
    have hgrow {c' : C} (hy' : y ∈ s.notified c') : y ∈ s'.notified c' := by
      rw [hnotified]
      by_cases hcc : c' = c
      · rw [hcc, Function.update_self]
        exact List.mem_append_left _ (hcc ▸ hy')
      · rw [Function.update_of_ne hcc]
        exact hy'
    by_cases hne : e = net.target c
    · subst e
      rw [hself, List.mem_append] at hy
      obtain hy | hy := hy
      · obtain ⟨c', hc', hy'⟩ := h.asynchronous _ he hpe y hy
        exact ⟨c', hc', hgrow hy'⟩
      · refine ⟨c, rfl, ?_⟩
        rw [hnotified, Function.update_self, hmem hy]
        exact List.mem_append_right _ (List.mem_singleton_self x)
    · rw [hothers hne] at hy
      obtain ⟨c', hc', hy'⟩ := h.asynchronous e he hpe y hy
      exact ⟨c', hc', hgrow hy'⟩
  case lookup =>
    intro e value
    by_cases hne : e = net.target c
    · subst e
      exact hlookup value
    · have hpins : s'.flow.pins net e value = s.flow.pins net e value := by
        rw [Flow.pins, Flow.pins, hothers hne]
        exact List.countP_congr fun c' hc' => by rw [hsyncs hne hc']
      rw [hother e hne, hpins]
      exact h.lookup e value

/-- The items that the pins of an element wait with are told from the one that is announced next by
the value of their serials. -/
structure Distinct (net : Network E P C) (stale : E → Nat → Nat) (f : Flow E C) (c : C) : Prop where
  fresh : stale (net.target c) (unsigned (f.processingSerial (net.source c))) = 0
  other : ∀ c' ∈ net.syncInputs (net.target c), ∀ x ∈ f.notified c',
    x ∉ f.announced (net.target c) →
    unsigned x = unsigned (f.processingSerial (net.source c)) →
    x = f.processingSerial (net.source c)

/-- The item that is announced next is later than those from the other pins. -/
def InOrder (net : Network E P C) (f : Flow E C) (c : C) : Prop :=
  ∀ c', net.target c' = net.target c → c' ≠ c → ∀ x ∈ f.notified c',
    x < f.processingSerial (net.source c)

/-- The other values of the scoreboard are left alone. -/
theorem Announces.pins_of_ne {f f' : Flow E C} {c : C} {value : Nat} (h : Announces net f c f')
    (hne : value ≠ unsigned (f.processingSerial (net.source c))) :
    f'.pins net (net.target c) value = f.pins net (net.target c) value := by
  set x := f.processingSerial (net.source c) with hx
  have hannounced {y : Nat} (hy : y ≠ x) :
      y ∈ f'.announced (net.target c) ↔ y ∈ f.announced (net.target c) := by
    have hready : y ∈ f'.m_readyQueue (net.target c) ↔ y ∈ f.m_readyQueue (net.target c) := by
      obtain ⟨-, -, hr⟩ | ⟨-, -, -, hr⟩ | ⟨-, -, ⟨-, -, hr⟩ | ⟨-, -, hr⟩⟩ := h.scored
      · simp [hr, ← hx, hy]
      · rw [hr]
      · simp [hr, ← hx, hy]
      · rw [hr]
    rw [Flow.announced, Flow.announced, h.dispatched, List.mem_append, List.mem_append, hready]
  rw [Flow.pins, Flow.pins]
  apply List.countP_congr
  intro c' _
  simp only [List.any_eq_true, decide_eq_true_eq]
  refine exists_congr fun y => ?_
  constructor
  · rintro ⟨hy, hnot, hvalue⟩
    have hyx : y ≠ x := fun he => hne (by rw [← hvalue, he])
    refine ⟨?_, fun hin => hnot ((hannounced hyx).mpr hin), hvalue⟩
    rw [h.notified] at hy
    by_cases hc : c' = c
    · subst c'
      rw [Function.update_self, List.mem_append, List.mem_singleton] at hy
      exact hy.resolve_right hyx
    · rw [Function.update_of_ne hc] at hy
      exact hy
  · rintro ⟨hy, hnot, hvalue⟩
    have hyx : y ≠ x := fun he => hne (by rw [← hvalue, he])
    refine ⟨?_, fun hin => hnot ((hannounced hyx).mp hin), hvalue⟩
    rw [h.notified]
    by_cases hc : c' = c
    · subst c'
      rw [Function.update_self]
      exact List.mem_append_left _ hy
    · rw [Function.update_of_ne hc]
      exact hy

omit [DecidableEq E] [DecidableEq C] in
/-- The count of the scoreboard for the item that is announced next. -/
theorem Distinct.lookup_eq {c : C} (hd : Distinct net stale s.flow c)
    (h : Serials net first stale s) (hsync : net.isSynchronous c = true)
    (hnew : s.processingSerial (net.source c) ∉ s.notified c) :
    s.m_lookup (net.target c) (unsigned (s.processingSerial (net.source c))) =
      (net.syncInputs (net.target c)).countP
        fun c' => decide (s.processingSerial (net.source c) ∈ s.notified c') := by
  have hhas : net.m_hasSynchronousPin (net.target c) = true :=
    (net.m_hasSynchronousPin_iff _).mpr ⟨c, rfl, hsync⟩
  have hmem := (net.mem_syncInputs _ c).mpr ⟨rfl, hsync⟩
  have hnot : s.processingSerial (net.source c) ∉ s.flow.announced (net.target c) := by
    intro hin
    exact hnew ((h.complete _ hhas _).mp hin c hmem)
  rw [h.lookup, hd.fresh, Nat.zero_add, Flow.pins]
  apply List.countP_congr
  intro c' hc'
  simp only [List.any_eq_true, decide_eq_true_eq]
  constructor
  · rintro ⟨y, hy, hyn, hvalue⟩
    rw [← hd.other c' hc' y hy hyn hvalue]
    exact hy
  · intro hx
    exact ⟨_, hx, hnot, rfl⟩

/-- An item for an element without synchronous pins is ready at once. -/
theorem Serials.announces_asynchronous {c : C} (h : Serials net first stale s)
    (hrange : first ≤ s.processingSerial (net.source c) ∧
      s.processingSerial (net.source c) ≤ s.m_serial)
    (hlast : ∀ y ∈ s.notified c, y < s.processingSerial (net.source c))
    (hf : Announces net s.flow c s'.flow) (hphase : s'.phase = s.phase)
    (hinorder : net.m_hasSynchronousPin (net.target c) = false → InOrder net s.flow c)
    (hhas : net.m_hasSynchronousPin (net.target c) = false) (hlookup : s'.m_lookup = s.m_lookup)
    (hready : s'.m_readyQueue = Function.update s.m_readyQueue (net.target c)
      (s.m_readyQueue (net.target c) ++ [s.processingSerial (net.source c)])) :
    Serials net first stale s' := by
  have hnone : net.syncInputs (net.target c) = [] := by
    rw [Network.syncInputs, List.filter_eq_nil_iff]
    exact List.any_eq_false.mp hhas
  refine h.adds hrange hf.m_serial hphase hf.dispatched hready hf.notified
    (fun e _ => by rw [hlookup]) (List.Sublist.refl _) ?_ ?_ ?_
  · intro _ y hy
    obtain ⟨c', hc', hy⟩ := h.asynchronous _ hhas (net.target_not_producer c) y hy
    by_cases hcc : c' = c
    · exact hlast y (hcc ▸ hy)
    · exact hinorder hhas c' hc' hcc y hy
  · intro hhas'
    rw [hhas] at hhas'
    cases hhas'
  · intro value
    have hpins : s'.flow.pins net (net.target c) value =
        s.flow.pins net (net.target c) value := by
      rw [Flow.pins, Flow.pins, hnone]
      rfl
    rw [hlookup, hpins]
    exact h.lookup _ value

/-- An item at an asynchronous pin beside synchronous ones is not counted. -/
theorem Serials.announces_uncounted {c : C} (h : Serials net first stale s)
    (hrange : first ≤ s.processingSerial (net.source c) ∧
      s.processingSerial (net.source c) ≤ s.m_serial)
    (hf : Announces net s.flow c s'.flow) (hphase : s'.phase = s.phase)
    (hhas : net.m_hasSynchronousPin (net.target c) = true) (hsync : net.isSynchronous c = false)
    (hlookup : s'.m_lookup = s.m_lookup) (hready : s'.m_readyQueue = s.m_readyQueue) :
    Serials net first stale s' := by
  have hsame {c' : C} (hc' : c' ∈ net.syncInputs (net.target c)) :
      s'.notified c' = s.notified c' := by
    rw [hf.notified]
    refine Function.update_of_ne (fun he => ?_) ..
    rw [he, net.mem_syncInputs, hsync] at hc'
    exact Bool.noConfusion hc'.2
  have hannounced : s'.flow.announced (net.target c) = s.flow.announced (net.target c) := by
    rw [Flow.announced, hf.dispatched, hready]
    rfl
  refine h.adds (l := []) hrange hf.m_serial hphase hf.dispatched ?_ hf.notified
    (fun e _ => by rw [hlookup]) (List.nil_sublist _) ?_ ?_ ?_
  · rw [hready, List.append_nil]
    exact (Function.update_eq_self ..).symm
  · exact fun hx => absurd hx List.not_mem_nil
  · intro _ y
    rw [hannounced, h.complete _ hhas y]
    exact forall₂_congr fun c' hc' => by rw [hsame hc']
  · intro value
    have hpins : s'.flow.pins net (net.target c) value =
        s.flow.pins net (net.target c) value := by
      rw [Flow.pins, Flow.pins, hannounced]
      exact List.countP_congr fun c' hc' => by rw [hsame hc']
    rw [hlookup, hpins]
    exact h.lookup _ value

theorem Announces.notified_of_ne {f f' : Flow E C} {c c' : C} (h : Announces net f c f')
    (hne : c' ≠ c) : f'.notified c' = f.notified c' := by
  rw [h.notified, Function.update_of_ne hne]

theorem Announces.mem_notified {f f' : Flow E C} {c : C} (h : Announces net f c f') :
    f.processingSerial (net.source c) ∈ f'.notified c := by
  rw [h.notified, Function.update_self]
  exact List.mem_append_right _ (List.mem_singleton_self _)

/-- Nothing becomes of the other serials. -/
theorem Announces.mem_notified_iff {f f' : Flow E C} {c : C} (h : Announces net f c f') {y : Nat}
    (hy : y ≠ f.processingSerial (net.source c)) (c' : C) :
    y ∈ f'.notified c' ↔ y ∈ f.notified c' := by
  by_cases hne : c' = c
  · rw [hne, h.notified, Function.update_self, List.mem_append, List.mem_singleton]
    exact or_iff_left hy
  · rw [h.notified_of_ne hne]

/-- The row of the serial that is announced gets the right count. -/
theorem Announces.lookups {c : C} {count : Nat} (hf : Announces net s.flow c s'.flow)
    (h : Serials net first stale s) (hd : Distinct net stale s.flow c)
    (hlookup : s'.m_lookup = Function.update s.m_lookup (net.target c)
      (Function.update (s.m_lookup (net.target c))
        (unsigned (s.processingSerial (net.source c))) count))
    (hpins : s'.flow.pins net (net.target c) (unsigned (s.processingSerial (net.source c))) = count)
    (value : Nat) : s'.m_lookup (net.target c) value =
      stale (net.target c) value + s'.flow.pins net (net.target c) value := by
  rw [hlookup, Function.update_self]
  by_cases hv : value = unsigned (s.processingSerial (net.source c))
  · rw [hv, Function.update_self, hpins, hd.fresh, Nat.zero_add]
  · rw [Function.update_of_ne hv, hf.pins_of_ne hv]
    exact h.lookup _ value

omit [DecidableEq E] in
/-- The row is complete when all other pins have their item. -/
theorem Distinct.complete_iff {c : C} (hd : Distinct net stale s.flow c)
    (h : Serials net first stale s) (hsync : net.isSynchronous c = true)
    (hnew : s.processingSerial (net.source c) ∉ s.notified c) :
    s.m_lookup (net.target c) (unsigned (s.processingSerial (net.source c))) + 1 =
        net.m_pincount (net.target c) ↔
      ∀ c' ∈ net.syncInputs (net.target c), c' ≠ c →
        s.processingSerial (net.source c) ∈ s.notified c' := by
  have hnodup : (net.syncInputs (net.target c)).Nodup := (net.inputs_nodup _).filter _
  have hfull := countP_succ_eq_length_iff
    (p := fun c' => decide (s.processingSerial (net.source c) ∈ s.notified c'))
    hnodup ((net.mem_syncInputs _ c).mpr ⟨rfl, hsync⟩) (decide_eq_false hnew)
  rw [hd.lookup_eq h hsync hnew, net.m_pincount_eq]
  simpa only [decide_eq_true_eq] using hfull

/-- The row of the serial is complete. -/
theorem Serials.announces_complete {c : C} (h : Serials net first stale s)
    (hrange : first ≤ s.processingSerial (net.source c) ∧
      s.processingSerial (net.source c) ≤ s.m_serial)
    (hlast : ∀ y ∈ s.notified c, y < s.processingSerial (net.source c))
    (hf : Announces net s.flow c s'.flow) (hphase : s'.phase = s.phase)
    (hsync : net.isSynchronous c = true) (hd : Distinct net stale s.flow c)
    (hcount : s.m_lookup (net.target c) (unsigned (s.processingSerial (net.source c))) + 1 =
      net.m_pincount (net.target c))
    (hlookup : s'.m_lookup = Function.update s.m_lookup (net.target c)
      (Function.update (s.m_lookup (net.target c))
        (unsigned (s.processingSerial (net.source c))) 0))
    (hready : s'.m_readyQueue = Function.update s.m_readyQueue (net.target c)
      (s.m_readyQueue (net.target c) ++ [s.processingSerial (net.source c)])) :
    Serials net first stale s' := by
  have hhas : net.m_hasSynchronousPin (net.target c) = true :=
    (net.m_hasSynchronousPin_iff _).mpr ⟨c, rfl, hsync⟩
  have hmem := (net.mem_syncInputs _ c).mpr ⟨rfl, hsync⟩
  have hall := (hd.complete_iff h hsync fun hin => Nat.lt_irrefl _ (hlast _ hin)).mp hcount
  have hannounced : s'.flow.announced (net.target c) =
      s.flow.announced (net.target c) ++ [s.processingSerial (net.source c)] := by
    rw [Flow.announced, hf.dispatched, hready, Function.update_self, ← List.append_assoc]
    rfl
  refine h.adds hrange hf.m_serial hphase hf.dispatched hready hf.notified
    (fun e he => by rw [hlookup, Function.update_of_ne he]) (List.Sublist.refl _)
    (fun _ y hy => hlast y ((h.complete _ hhas y).mp hy c hmem)) ?_ (hf.lookups h hd hlookup ?_)
  · intro _ y
    rw [hannounced, List.mem_append, List.mem_singleton]
    by_cases hy : y = s.processingSerial (net.source c)
    · subst y
      refine iff_of_true (.inr rfl) fun c' hc' => ?_
      by_cases hne : c' = c
      · exact hne ▸ hf.mem_notified
      · rw [hf.notified_of_ne hne]
        exact hall c' hc' hne
    · rw [or_iff_left hy, h.complete _ hhas y]
      exact forall₂_congr fun c' _ => (hf.mem_notified_iff hy c').symm
  · apply List.countP_eq_zero.mpr
    intro c' hc'
    simp only [List.any_eq_true, decide_eq_true_eq, not_exists, not_and]
    intro y hy hnot hvalue
    rw [hannounced, List.mem_append, List.mem_singleton, not_or] at hnot
    exact hnot.2 (hd.other c' hc' y ((hf.mem_notified_iff hnot.2 c').mp hy) hnot.1 hvalue)

/-- The row of the serial is not complete, and the item is counted. -/
theorem Serials.announces_counted {c : C} (h : Serials net first stale s)
    (hrange : first ≤ s.processingSerial (net.source c) ∧
      s.processingSerial (net.source c) ≤ s.m_serial)
    (hlast : ∀ y ∈ s.notified c, y < s.processingSerial (net.source c))
    (hf : Announces net s.flow c s'.flow) (hphase : s'.phase = s.phase)
    (hsync : net.isSynchronous c = true) (hd : Distinct net stale s.flow c)
    (hcount : s.m_lookup (net.target c) (unsigned (s.processingSerial (net.source c))) + 1 ≠
      net.m_pincount (net.target c))
    (hlookup : s'.m_lookup = Function.update s.m_lookup (net.target c)
      (Function.update (s.m_lookup (net.target c))
        (unsigned (s.processingSerial (net.source c)))
        (s.m_lookup (net.target c) (unsigned (s.processingSerial (net.source c))) + 1)))
    (hready : s'.m_readyQueue = s.m_readyQueue) : Serials net first stale s' := by
  have hhas : net.m_hasSynchronousPin (net.target c) = true :=
    (net.m_hasSynchronousPin_iff _).mpr ⟨c, rfl, hsync⟩
  have hmem := (net.mem_syncInputs _ c).mpr ⟨rfl, hsync⟩
  have hnodup : (net.syncInputs (net.target c)).Nodup := (net.inputs_nodup _).filter _
  have hnew : s.processingSerial (net.source c) ∉ s.notified c :=
    fun hin => Nat.lt_irrefl _ (hlast _ hin)
  have hnot : s.processingSerial (net.source c) ∉ s.flow.announced (net.target c) :=
    fun hin => hnew ((h.complete _ hhas _).mp hin c hmem)
  have hannounced : s'.flow.announced (net.target c) = s.flow.announced (net.target c) := by
    rw [Flow.announced, hf.dispatched, hready]
    rfl
  refine h.adds (l := []) hrange hf.m_serial hphase hf.dispatched ?_ hf.notified
    (fun e he => by rw [hlookup, Function.update_of_ne he]) (List.nil_sublist _)
    (fun hin => absurd hin List.not_mem_nil) ?_ (hf.lookups h hd hlookup ?_)
  · rw [hready, List.append_nil]
    exact (Function.update_eq_self ..).symm
  · intro _ y
    rw [hannounced]
    by_cases hy : y = s.processingSerial (net.source c)
    · subst y
      refine iff_of_false hnot fun hall =>
        hcount ((hd.complete_iff h hsync hnew).mpr fun c' hc' hne => ?_)
      rw [← hf.notified_of_ne hne]
      exact hall c' hc'
    · rw [h.complete _ hhas y]
      exact forall₂_congr fun c' _ => (hf.mem_notified_iff hy c').symm
  · have hcounts := countP_succ_of_notMem
      (q := fun c' => decide (s.processingSerial (net.source c) ∈ s'.notified c')) hnodup hmem
      (decide_eq_false hnew) (decide_eq_true hf.mem_notified)
      fun c' _ hne => by rw [hf.notified_of_ne hne]
    rw [hd.lookup_eq h hsync hnew, ← hcounts, Flow.pins, hannounced]
    apply List.countP_congr
    intro c' hc'
    simp only [List.any_eq_true, decide_eq_true_eq]
    constructor
    · rintro ⟨y, hy, hyn, hvalue⟩
      by_cases hyx : y = s.processingSerial (net.source c)
      · exact hyx ▸ hy
      · exact absurd (hd.other c' hc' y ((hf.mem_notified_iff hyx c').mp hy) hyn hvalue) hyx
    · intro hy
      exact ⟨s.processingSerial (net.source c), hy, hnot, rfl⟩

/-- An item is announced. -/
theorem Serials.announces {e : E} {c : C} (h : Serials net first stale s) (ha : Accounted net s)
    (hsource : net.source c = e) (hc : (s.worker e).announcing = some c)
    (hf : Announces net s.flow c s'.flow) (hphase : s'.phase = s.phase)
    (hdistinct : net.isSynchronous c = true → Distinct net stale s.flow c)
    (hinorder : net.m_hasSynchronousPin (net.target c) = false → InOrder net s.flow c) :
    Serials net first stale s' := by
  subst e
  obtain ⟨hin, hlast⟩ := h.announcing ha rfl hc
  have hrange := h.range _ _ hin
  obtain ⟨hhas, hlookup, hready⟩ | ⟨hhas, hsync, hlookup, hready⟩ | ⟨hsync, -, hcount⟩ := hf.scored
  case inl =>
    exact h.announces_asynchronous hrange hlast hf hphase hinorder hhas hlookup hready
  case inr.inl => exact h.announces_uncounted hrange hf hphase hhas hsync hlookup hready
  case inr.inr =>
    obtain ⟨hcount, hlookup, hready⟩ | ⟨hcount, hlookup, hready⟩ := hcount
    · exact h.announces_complete hrange hlast hf hphase hsync (hdistinct hsync) hcount hlookup hready
    · exact h.announces_counted hrange hlast hf hphase hsync (hdistinct hsync) hcount hlookup hready

/-- A step of a run keeps the serials in order, as long as what it announces is told from the
others and arrives in order. -/
theorem Serials.works {e : E} {action : Action P C} {w' : Worker P C}
    (h : Serials net first stale s) (ha : Accounted net s) (hw : Works net s e action s' w')
    (hdistinct : ∀ c, (s.worker e).announcing = some c → net.isSynchronous c = true →
      Distinct net stale s.flow c)
    (hinorder : ∀ c, (s.worker e).announcing = some c →
      net.m_hasSynchronousPin (net.target c) = false → InOrder net s.flow c) :
    Serials net first stale s' := by
  have hproduced (e' : E) (_ : net.isProducer e' = true) (hp : s.produced e') : s'.produced e' := by
    rw [PipelineState.produced, hw.phase]
    exact hp
  obtain ⟨-, hphase, -, -, -, -, -, -, hrun⟩ := hw
  generalize hf : s'.flow = f' at hrun
  cases hrun with
  | quiet =>
    apply h.congr _ _ _ _ _ hproduced
    all_goals rw [hf]
  | begins =>
    apply h.congr _ _ _ _ _ hproduced
    all_goals rw [hf]; rfl
  | pushes =>
    apply h.congr _ _ _ _ _ hproduced
    all_goals rw [hf]; rfl
  | takes _ hget =>
    obtain ⟨queue, -, rfl⟩ := get_some hget
    apply h.congr _ _ _ _ _ hproduced
    all_goals rw [hf]
  | announces hsource hnew _ _ _ _ hc =>
    subst f'
    exact h.announces ha hsource hc (newData_announces hnew) hphase (hdistinct _ hc) (hinorder _ hc)

end ParleVision.Runtime
