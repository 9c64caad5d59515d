import ParleVision.Runtime.Scores

namespace ParleVision.Runtime
open Lib
open ParleVision.Lifecycle (State)

variable {E P C : Type} {net : Network E P C} {first : Nat} {stale : E → Nat → Nat}

/-- The connection ends a path of so many connections from a producer. -/
inductive Network.Ends (net : Network E P C) : Nat → C → Prop where
  | producer {c : C} : net.isProducer (net.source c) = true → Ends net 1 c
  | step {k : Nat} {c c' : C} : Ends net k c → net.target c = net.source c' → Ends net (k + 1) c'

/-- Between the test of the queues and the dispatch of the producers. -/
def Phase.Deciding : Phase E C → Prop
  | .measuring .. | .asking .. | .producing .. => True
  | _ => False

/-- No run takes a step there. -/
def Atomic (s : PipelineState E P C) : Event E P C → Prop
  | .schedule .. => True
  | .work .. => ¬ s.phase.Deciding

variable [DecidableEq E] [DecidableEq C]

def Decided (net : Network E P C) (s : PipelineState E P C) : Prop :=
  match s.phase with
  | .measuring todo max => ∀ c, c ∈ todo ∨ (s.m_queue c).length ≤ max
  | .asking todo allReady => (∀ c, (s.m_queue c).length < 5) ∧
      (allReady = true → ∀ e, net.isProducer e = true → e ∈ todo ∨ s.m_state e = .PLE_STARTED)
  | _ => True

variable {s s' : PipelineState E P C}

/-- `schedule` keeps what it has seen. -/
theorem Decided.schedule {order : List E} {answer : Bool} (h : Decided net s)
    (ha : Accounted net s) (hs : s.schedule net order answer = some s') : Decided net s' := by
  have hstarted {e : E} (hb : s.beforeDispatched e = true) : s.m_state e = .PLE_STARTED := by
    have hmem := of_decide_eq_true hb
    obtain ⟨hu, hi⟩ := ha.running e
    simpa [hu, hi] using hmem
  unfold PipelineState.schedule at hs
  cases hp : s.phase with
  | measuring todo max =>
    rw [Decided, hp] at h
    cases todo with
    | nil =>
      simp only [hp] at hs
      cases hs
      by_cases hmax : max < 5
      · simp only [Decided, if_pos hmax]
        refine ⟨fun c => ?_, fun _ e he => .inl (List.mem_filter.mpr ⟨net.mem_children e, he⟩)⟩
        exact Nat.lt_of_le_of_lt ((h c).resolve_left List.not_mem_nil) hmax
      · simp only [Decided, if_neg hmax]
    | cons c todo =>
      simp only [hp] at hs
      cases hs
      intro c'
      obtain hc | hle := h c'
      · obtain rfl | hc := List.mem_cons.mp hc
        · exact .inr (Nat.le_max_left ..)
        · exact .inl hc
      · exact .inr (Nat.le_trans hle (Nat.le_max_right ..))
  | asking todo allReady =>
    rw [Decided, hp] at h
    obtain ⟨hqueues, hready⟩ := h
    cases todo with
    | nil =>
      simp only [hp] at hs
      cases hs
      cases allReady
      all_goals trivial
    | cons e todo =>
      simp only [hp] at hs
      cases hs
      refine ⟨hqueues, fun hall e' he' => ?_⟩
      obtain ⟨hall, hb, -⟩ := by simpa only [Bool.and_eq_true] using hall
      obtain hmem | hstate := hready hall e' he'
      · obtain rfl | hmem := List.mem_cons.mp hmem
        · exact .inr (hstarted hb)
        · exact .inl hmem
      · exact .inr hstate
  | dispatching todo =>
    cases todo with
    | nil =>
      simp only [hp] at hs
      cases hs
      exact fun c => .inl (net.mem_connections c)
    | cons e todo =>
      simp only [hp] at hs
      split at hs
      · cases hs
        trivial
      · split at hs
        · cases hs
          trivial
        · unfold PipelineState.dispatch at hs
          split at hs
          · cases hs
            trivial
          · cases hs
  | idle =>
    simp only [hp] at hs
    split at hs
    · cases hs
      trivial
    · cases hs
  | reaping todo =>
    cases todo with
    | nil =>
      simp only [hp] at hs
      split at hs
      · cases hs
        trivial
      · cases hs
    | cons e todo =>
      simp only [hp] at hs
      split at hs
      all_goals
        cases hs
        trivial
  | producing todo =>
    cases todo with
    | nil =>
      simp only [hp] at hs
      cases hs
      trivial
    | cons e todo =>
      simp only [hp] at hs
      unfold PipelineState.dispatch at hs
      split at hs
      · cases hs
        trivial
      · cases hs
  | stopping => simp [hp] at hs

/-- A step of a run that may be taken leaves `schedule` where it has seen nothing yet. -/
theorem Decided.works {e : E} {action : Action P C} {w' : Worker P C}
    (hatomic : ¬ s.phase.Deciding) (hw : Works net s e action s' w') : Decided net s' := by
  rw [Decided, hw.phase]
  split
  case h_1 todo max hp => exact absurd (by rw [hp]; trivial) hatomic
  case h_2 todo allReady hp => exact absurd (by rw [hp]; trivial) hatomic
  case h_3 => trivial

/-- The number of frames is at most what was taken at the end of a path, and five for each
connection on it. -/
def Bounded (net : Network E P C) (first : Nat) (s : PipelineState E P C) : Prop :=
  ∀ k c, net.Ends k c → s.next - first ≤ (s.taken c).length + 5 * k

omit [DecidableEq E] in
/-- When all queues were seen short and all producers ready, there is room for a frame. -/
theorem room (ha : Accounted net s) (hf : Framed net first s)
    (hsync : ∀ c, net.isSynchronous c = true) (hphase : ∀ todo, s.phase ≠ .producing todo)
    (hqueues : ∀ c, (s.m_queue c).length < 5)
    (hready : ∀ e, net.isProducer e = true → s.m_state e = .PLE_STARTED) {k : Nat} {c : C}
    (hpath : net.Ends k c) : s.m_serial + 1 - first ≤ (s.taken c).length + 5 * k := by
  have hsplit (c : C) : (s.put c).length ≤ (s.taken c).length + 4 := by
    have hlength := congrArg List.length (ha.queued c)
    rw [List.length_append, List.length_map] at hlength
    have hshort := hqueues c
    omega
  induction hpath with
  | @producer c hp =>
    -- an idle producer has put an item for each frame
    have hacc := ha.element (net.source c)
    have hidle : s.worker (net.source c) = .idle :=
      Worker.not_busy fun hb => (ha.busy _).mp hb (hready _ hp)
    rw [hidle] at hacc
    have hput := hacc.sync_put c rfl (hsync c) id id
    have hruns := hacc.dispatched
    change s.runs (net.source c) ++ [] = _ at hruns
    have hframes := hf.before _ hp (not_produced hphase)
    rw [← hruns, List.append_nil, ← hput] at hframes
    have hlength := congrArg List.length hframes
    rw [List.length_range'] at hlength
    have hroom := hsplit c
    have hfirst := hf.first_le
    omega
  | @step k c c' _ hc ih =>
    -- what was taken from the one was taken in a run, and put on the other but for the last
    have hruns := (ha.element (net.target c)).taken c rfl
    have hput : (s.runs (net.target c)).length ≤ (s.put c').length + 1 := by
      rw [hc]
      obtain hall | hbut := (ha.element (net.source c')).sync c' rfl (hsync c')
      · rw [hall]
        exact Nat.le_succ _
      · rw [hbut, List.length_dropLast]
        omega
    have hroom := hsplit c'
    omega

theorem Bounded.turn (h : Bounded net first s) (ha : Accounted net s) (hf : Framed net first s)
    (hd : Decided net s) (hsync : ∀ c, net.isSynchronous c = true) (ht : Turn net s s') :
    Bounded net first s' := by
  intro k c hpath
  rw [ht.records.2]
  obtain hsame | ⟨hphase, hmore⟩ := ht.next
  · rw [hsame]
    exact h k c hpath
  · rw [Decided, hphase] at hd
    rw [hmore]
    refine room ha hf hsync (by simp [hphase]) hd.1 (fun e he => ?_) hpath
    exact (hd.2 rfl e he).resolve_left List.not_mem_nil

theorem Bounded.works {e : E} {action : Action P C} {w' : Worker P C} (h : Bounded net first s)
    (hw : Works net s e action s' w') : Bounded net first s' := by
  intro k c hpath
  rw [hw.next]
  have hold := h k c hpath
  have hgrow := (hw.records.2 c).length_le
  omega

variable [DecidableEq P]

structure BackPressed (net : Network E P C) (first : Nat) (stale : E → Nat → Nat)
    (s : PipelineState E P C) : Prop where
  accounted : Accounted net s
  framed : Framed net first s
  scored : Scored net stale s.flow
  decided : Decided net s
  bounded : Bounded net first s

omit [DecidableEq E] [DecidableEq P] in
theorem started_backPressed : BackPressed net first stale (.started first stale) where
  accounted := started_accounted first stale
  framed := started_framed
  scored := started_scored
  decided := trivial
  bounded _ _ _ := by
    change first - first ≤ _
    omega

theorem BackPressed.step {event : Event E P C} (h : BackPressed net first stale s)
    (hsync : ∀ c, net.isSynchronous c = true) (hatomic : Atomic s event)
    (hs : s.step net event = some s') : BackPressed net first stale s' := by
  have ha := h.accounted
  refine ⟨ha.step hs, h.framed.step ha hs, h.scored.step ha hs, ?_, ?_⟩
  · cases event with
    | schedule order answer => exact h.decided.schedule ha hs
    | work e action =>
      obtain ⟨w', hw⟩ := work_cases (ha.shaped e) hs
      exact Decided.works hatomic hw
  · cases event with
    | schedule order answer =>
      exact h.bounded.turn ha h.framed h.decided hsync (schedule_cases hs)
    | work e action =>
      obtain ⟨w', hw⟩ := work_cases (ha.shaped e) hs
      exact h.bounded.works hw

/-- A queue holds at most five items for each connection on a path to it from a producer. -/
theorem queue_bound (hacyclic : net.Acyclic) (hsync : ∀ c, net.isSynchronous c = true)
    (h : Reaches (PipelineState.step net) Atomic (.started first stale) s) {k : Nat} {c : C}
    (hpath : net.Ends k c) : (s.m_queue c).length ≤ 5 * k := by
  have hinv : BackPressed net first stale s := by
    refine h.invariant started_backPressed ?_
    intro s event s' hi hatomic hs
    exact hi.step hsync hatomic hs
  have ha := hinv.accounted
  have hannounced : (s.flow.announced (net.source c)).length ≤ s.next - first := by
    have htimes := hinv.scored.times_le ha hinv.framed hacyclic hsync (net.source c)
    have hlength := length_le_of_times_le htimes
    rw [List.length_range'] at hlength
    exact hlength
  have hput : (s.put c).length ≤ (s.flow.announced (net.source c)).length :=
    (((ha.element _).put c rfl).trans (ha.runs_announced _)).length_le
  have hqueue := congrArg List.length (ha.queued c)
  rw [List.length_append, List.length_map] at hqueue
  have hbound := hinv.bounded k c hpath
  omega

instance (phase : Phase E C) : Decidable phase.Deciding :=
  match phase with
  | .measuring .. | .asking .. | .producing .. => .isTrue trivial
  | .idle | .reaping _ | .dispatching _ | .stopping => .isFalse id

instance (s : PipelineState E P C) (event : Event E P C) : Decidable (Atomic s event) :=
  match event with
  | .schedule .. => .isTrue trivial
  | .work .. => inferInstanceAs (Decidable (¬ s.phase.Deciding))

/-- A row after its producer was run, and before the processor is. -/
theorem queue_bound_chain : ∃ s : PipelineState (Fin 3) (Fin 2) (Fin 2),
    (s.m_queue 0).length = 1 ∧ (s.m_queue 0).length ≤ 5 * 1 := by
  have hend : (run (guarded (PipelineState.step (chain true)) Atomic) (.started 1 fun _ _ => 0)
      (chainFrame.take 23)).map (fun s => (s.m_queue 0).length) = some 1 := by decide +kernel
  obtain ⟨s, hs, hlength⟩ := Option.map_eq_some_iff.mp hend
  have hacyclic := (chain true).acyclic_of_rank Fin.val (by decide)
  exact ⟨s, hlength, queue_bound hacyclic (by decide) (.of_guarded_run hs)
    (.producer (by decide))⟩

end ParleVision.Runtime
