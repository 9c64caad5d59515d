import ParleVision.Lifecycle.Schedule
import ParleVision.Lifecycle.FailedStart

namespace ParleVision.Lifecycle
open Lib ParleVision.Graph

namespace Pipeline

/-- The call of `__init` with which `Pipeline::init` gives up. -/
def InitFails (hooks : ElemPtr → Hooks) (st : States) (p : ElemPtr) : Prop :=
  ∃ e ending, (st p).init (hooks p).init = some (e, ending) ∧ initError e ending ≠ .PlvNoError

/-- An element that was initialised is not undefined any more. -/
theorem init_defined {e e' : ElementState} {call : Call} {ending : Ending}
    (h : e.init call = some (e', ending)) (hok : initError e' ending = .PlvNoError) :
    e'.m_state ≠ .PLE_UNDEFINED := by
  unfold ElementState.init at h
  split at h
  case isTrue =>
    cases hend : call.ending with
    | returns b =>
      rw [hend] at h
      cases b
      all_goals
        cases h
        exact State.noConfusion
    | throwsPlv =>
      rw [hend] at h
      cases h
      cases hok
    | throwsOther =>
      rw [hend] at h
      cases h
      cases hok
  case isFalse => cases h

/-- The loop of `init` reaches its end exactly when no element fails. -/
theorem initLoop_fails_iff {hooks : ElemPtr → Hooks} {order : HashOrder ElemPtr}
    {ps initialized : List ElemPtr} {st st' : States} {result : Option (List ElemPtr)}
    (h : initLoop hooks order ps initialized st = some (st', result)) :
    result = none ↔ ∃ p ∈ ps, InitFails hooks st p := by
  induction ps generalizing initialized st with
  | nil =>
    cases h
    simp
  | cons p ps ih =>
    unfold initLoop at h
    cases hi : (st p).init (hooks p).init with
    | none => simp [hi] at h
    | some r =>
      obtain ⟨e, ending⟩ := r
      simp only [hi] at h
      have hp : InitFails hooks st p ↔ initError e ending ≠ .PlvNoError := by
        simp [InitFails, hi]
      by_cases hfail : initError e ending ≠ .PlvNoError
      · rw [if_pos hfail] at h
        have hres : result = none := by
          split at h
          · cases h
          · cases h
            rfl
        exact ⟨fun _ => ⟨p, by simp, hp.mpr hfail⟩, fun _ => hres⟩
      · rw [if_neg hfail] at h
        rw [ih h]
        -- an element that comes twice fails neither time
        have hother {q : ElemPtr} (hqp : q ≠ p) :
            InitFails hooks (Function.update st p e) q ↔ InitFails hooks st q := by
          rw [InitFails, Function.update_of_ne hqp]
          rfl
        have hagain : ¬ InitFails hooks (Function.update st p e) p := by
          rintro ⟨e', ending', he', -⟩
          rw [Function.update_self, ElementState.init,
            if_neg (init_defined hi (not_not.mp hfail))] at he'
          cases he'
        constructor
        · rintro ⟨q, hq, hfq⟩
          have hqp : q ≠ p := fun he => hagain (he ▸ hfq)
          exact ⟨q, by simp [hq], (hother hqp).mp hfq⟩
        · rintro ⟨q, hq, hfq⟩
          have hqp : q ≠ p := fun he => hfail (hp.mp (he ▸ hfq))
          have hqs : q ∈ ps := by simpa [hqp] using hq
          exact ⟨q, hqs, (hother hqp).mpr hfq⟩

/-- How a start comes to its exit. -/
theorem start_cases {hooks : ElemPtr → Hooks} {h : Hashing} {s t : Pipeline} {exit : StartExit}
    (hst : s.start hooks h = some (t, exit)) :
    (exit = .empty ∧ s.m_children.size = 0 ∧ t = s) ∨
    s.m_children.size ≠ 0 ∧
      ((exit = .initFailed ∧ s.init hooks h.elements = some (t, false)) ∨
       ∃ u, s.init hooks h.elements = some (u, true) ∧
        ((exit = .requiredPins ∧ ¬ (valuesOf u.m_children).all u.requiredPinsConnected ∧
            u.deinit hooks = some t) ∨
         (valuesOf u.m_children).all u.requiredPinsConnected ∧
          ∃ acyclic ordering,
            u.generateGraphOrdering h.pins h.elements [] = some (acyclic, ordering) ∧
            ((acyclic = false ∧ exit = .cycle ∧ t = { u with m_ordering := ordering }) ∨
             (acyclic = true ∧ startElements hooks h.elements { u with m_ordering := ordering } =
                some (t, exit))))) := by
  unfold start at hst
  split at hst
  case isTrue hsize =>
    cases hst
    exact .inl ⟨rfl, hsize, rfl⟩
  case isFalse hsize =>
    refine .inr ⟨hsize, ?_⟩
    cases hi : s.init hooks h.elements with
    | none => simp [hi] at hst
    | some r =>
      obtain ⟨u, b⟩ := r
      cases b with
      | false =>
        simp only [hi] at hst
        cases hst
        exact .inl ⟨rfl, rfl⟩
      | true =>
        refine .inr ⟨u, rfl, ?_⟩
        simp only [hi] at hst
        split at hst
        case isTrue hpins =>
          obtain ⟨t', hd, he⟩ := Option.map_eq_some_iff.mp hst
          cases he
          exact .inl ⟨rfl, hpins, hd⟩
        case isFalse hpins =>
          refine .inr ⟨not_not.mp hpins, ?_⟩
          cases hg : u.generateGraphOrdering h.pins h.elements [] with
          | none => simp [hg] at hst
          | some r =>
            obtain ⟨acyclic, ordering⟩ := r
            refine ⟨acyclic, ordering, rfl, ?_⟩
            simp only [hg] at hst
            cases acyclic with
            | false =>
              cases hst
              exact .inl ⟨rfl, rfl, rfl⟩
            | true => exact .inr ⟨rfl, hst⟩

theorem start_ending {e e' : ElementState} {call : Call} {ending : Ending}
    (h : e.start call = some (e', ending)) : call.ending = ending := by
  unfold ElementState.start at h
  split at h
  case isTrue =>
    cases hend : call.ending with
    | returns b =>
      rw [hend] at h
      cases b
      all_goals
        cases h
        rfl
    | throwsPlv =>
      rw [hend] at h
      cases h
      rfl
    | throwsOther =>
      rw [hend] at h
      cases h
      rfl
  case isFalse => cases h

theorem start_started {e e' : ElementState} {call : Call}
    (h : e.start call = some (e', .returns true)) : e'.m_state = .PLE_STARTED := by
  have hend := start_ending h
  unfold ElementState.start at h
  split at h
  · rw [hend] at h
    cases h
    rfl
  · cases h

/-- The loop over the elements finishes exactly when each of their calls returns true. -/
theorem startLoop_finished_iff {hooks : ElemPtr → Hooks} {ps started : List ElemPtr}
    {st st' : States} {started' : List ElemPtr} {ending : LoopEnd}
    (h : startLoop hooks ps started st = some (st', started', ending)) :
    ending = .finished ↔ ∀ p ∈ ps, (hooks p).start.ending = .returns true := by
  induction ps generalizing started st with
  | nil =>
    cases h
    simp
  | cons p ps ih =>
    unfold startLoop at h
    split at h
    · cases h
    case h_2 _ e he =>
      rw [ih h]
      simp [start_ending he]
    case h_3 _ e he =>
      cases h
      simp [start_ending he]
    case h_4 _ e he =>
      split at h
      · cases h
      · cases h
        simp [start_ending he]
    case h_5 _ e he =>
      split at h
      · cases h
      · cases h
        simp [start_ending he]

theorem startLoop_defined {hooks : ElemPtr → Hooks} {ps started : List ElemPtr}
    {st st' : States} {started' : List ElemPtr}
    (h : startLoop hooks ps started st = some (st', started', .finished)) (p : ElemPtr)
    (hp : p ∈ ps ∨ (st p).m_state ≠ .PLE_UNDEFINED) : (st' p).m_state ≠ .PLE_UNDEFINED := by
  induction ps generalizing started st with
  | nil =>
    cases h
    simpa using hp
  | cons q ps ih =>
    unfold startLoop at h
    split at h
    · cases h
    case h_2 _ e he =>
      apply ih h
      by_cases hpq : p = q
      · right
        rw [hpq, Function.update_self, start_started he]
        exact State.noConfusion
      · rw [Function.update_of_ne hpq]
        simpa [hpq] using hp
    · cases h
    · split at h <;> cases h
    · split at h <;> cases h

/-- The connections to `schedule()` after a start, of which there were `n`. -/
def connectionsAfter (n : Nat) : StartExit → Nat
  | .empty | .initFailed => n
  | .requiredPins => 0
  | .cycle | .startFailed | .escaped | .started => n + 1

/-- The exits at which what `init` connected stays connected, though nothing runs. -/
def leavesConnected : StartExit → Bool
  | .cycle | .startFailed | .escaped => true
  | .empty | .initFailed | .requiredPins | .started => false

theorem init_kept {hooks : ElemPtr → Hooks} {order : HashOrder ElemPtr} {s t : Pipeline} {b : Bool}
    (h : s.init hooks order = some (t, b)) :
    t.toPipeline = s.toPipeline ∧ t.m_running = s.m_running ∧ t.heartbeat = s.heartbeat ∧
      t.scheduleConnections = s.scheduleConnections + b.toNat := by
  unfold init at h
  split at h
  · cases h
  · cases h
    exact ⟨rfl, rfl, rfl, rfl⟩
  · cases h
    exact ⟨rfl, rfl, rfl, rfl⟩

theorem startElements_cases {hooks : ElemPtr → Hooks} {order : HashOrder ElemPtr} {s t : Pipeline}
    {exit : StartExit} (h : startElements hooks order s = some (t, exit)) :
    t.scheduleConnections = s.scheduleConnections ∧
    ((leavesConnected exit = true ∧ t.m_running = s.m_running ∧ t.heartbeat = s.heartbeat ∧
        ¬ ∀ p ∈ valuesOf s.m_children, (hooks p).start.ending = .returns true) ∨
     (exit = .started ∧ t.m_running = true ∧ t.heartbeat = true ∧ t.m_children = s.m_children ∧
        (∀ p ∈ valuesOf s.m_children, (hooks p).start.ending = .returns true) ∧
        ∀ p ∈ valuesOf s.m_children, (t.states p).m_state ≠ .PLE_UNDEFINED)) := by
  unfold startElements at h
  split at h
  · cases h
  case h_2 hloop =>
    cases h
    refine ⟨rfl, .inl ⟨rfl, rfl, rfl, ?_⟩⟩
    intro hall
    cases (startLoop_finished_iff hloop).mpr hall
  case h_3 hloop =>
    split at h
    · cases h
    · cases h
      refine ⟨rfl, .inl ⟨rfl, rfl, rfl, ?_⟩⟩
      intro hall
      cases (startLoop_finished_iff hloop).mpr hall
  case h_4 hloop =>
    cases h
    refine ⟨rfl, .inr ⟨rfl, rfl, rfl, rfl, (startLoop_finished_iff hloop).mp rfl, ?_⟩⟩
    intro p hp
    exact startLoop_defined hloop p (.inl hp)

/-- A start that comes to its end, or that fails where the connection is not made or is undone. -/
def StartsCleanly (hooks : ElemPtr → Hooks) (h : Hashing) (s : Pipeline) : Prop :=
  s.m_children.size = 0 ∨ (∃ p ∈ valuesOf s.m_children, InitFails hooks s.states p) ∨
  ¬ (valuesOf s.m_children).all s.requiredPinsConnected ∨
  ((∃ ordering, s.generateGraphOrdering h.pins h.elements [] = some (true, ordering)) ∧
    ∀ p ∈ valuesOf s.m_children, (hooks p).start.ending = .returns true)

theorem init_false_iff {hooks : ElemPtr → Hooks} {order : HashOrder ElemPtr} {s t : Pipeline}
    {b : Bool} (h : s.init hooks order = some (t, b)) :
    b = false ↔ ∃ p ∈ valuesOf s.m_children, InitFails hooks s.states p := by
  unfold init at h
  split at h
  · cases h
  case h_2 hloop =>
    cases h
    simpa using (initLoop_fails_iff hloop).mp rfl
  case h_3 hloop =>
    cases h
    simpa using (initLoop_fails_iff hloop).not.mp (Option.some_ne_none _)

/-- What a start does to the heartbeat. -/
theorem start_spec {hooks : ElemPtr → Hooks} {h : Hashing} {s t : Pipeline} {exit : StartExit}
    (hst : s.start hooks h = some (t, exit)) :
    t.scheduleConnections = connectionsAfter s.scheduleConnections exit ∧
    (leavesConnected exit = false ↔ s.StartsCleanly hooks h) ∧
    ((exit ≠ .started ∧ t.m_running = s.m_running ∧ t.heartbeat = s.heartbeat) ∨
     (exit = .started ∧ t.m_running = true ∧ t.heartbeat = true ∧ t.m_children.size ≠ 0 ∧
        ∀ p ∈ valuesOf t.m_children, (t.states p).m_state ≠ .PLE_UNDEFINED)) := by
  obtain ⟨rfl, hsize, rfl⟩ | ⟨hsize, ⟨rfl, hi⟩ | ⟨u, hi, hu⟩⟩ := start_cases hst
  · exact ⟨rfl, ⟨fun _ => .inl hsize, fun _ => rfl⟩, .inl ⟨StartExit.noConfusion, rfl, rfl⟩⟩
  · obtain ⟨-, hrunning, hheartbeat, hconn⟩ := init_kept hi
    exact ⟨hconn, ⟨fun _ => .inr (.inl ((init_false_iff hi).mp rfl)), fun _ => rfl⟩,
      .inl ⟨StartExit.noConfusion, hrunning, hheartbeat⟩⟩
  · obtain ⟨hgraph, hrunning, hheartbeat, hconn⟩ := init_kept hi
    have hinit : ¬ ∃ p ∈ valuesOf s.m_children, InitFails hooks s.states p :=
      (init_false_iff hi).not.mp Bool.noConfusion
    rw [hgraph] at hu
    have hclean : s.StartsCleanly hooks h ↔
        ¬ (valuesOf s.m_children).all s.requiredPinsConnected ∨
        ((∃ ordering, s.generateGraphOrdering h.pins h.elements [] = some (true, ordering)) ∧
          ∀ p ∈ valuesOf s.m_children, (hooks p).start.ending = .returns true) := by
      rw [StartsCleanly, or_iff_right hsize, or_iff_right hinit]
    rw [hclean]
    obtain ⟨rfl, hpins, hd⟩ | ⟨hpins, acyclic, ordering, hg, hend⟩ := hu
    · unfold deinit at hd
      split at hd
      · cases hd
      · cases hd
        exact ⟨rfl, ⟨fun _ => .inl hpins, fun _ => rfl⟩,
          .inl ⟨StartExit.noConfusion, hrunning, hheartbeat⟩⟩
    · rw [or_iff_right (not_not.mpr hpins), hg]
      obtain ⟨rfl, rfl, rfl⟩ | ⟨rfl, he⟩ := hend
      · exact ⟨hconn, ⟨fun hl => Bool.noConfusion hl, fun ⟨⟨_, ho⟩, _⟩ => by cases ho⟩,
          .inl ⟨StartExit.noConfusion, hrunning, hheartbeat⟩⟩
      · have hchildren : u.m_children = s.m_children :=
          congrArg Graph.Pipeline.m_children hgraph
        obtain ⟨hconn', ⟨hl, hrunning', hheartbeat', hall⟩ |
          ⟨rfl, hrunning', hheartbeat', hchildren', hall, hdef⟩⟩ := startElements_cases he
        · have hall' : ¬ ∀ p ∈ valuesOf s.m_children, (hooks p).start.ending = .returns true :=
            hchildren ▸ hall
          have hexit : exit ≠ .started := fun he => by
            rw [he] at hl
            cases hl
          have hafter : connectionsAfter s.scheduleConnections exit = s.scheduleConnections + 1 := by
            cases exit
            all_goals first | rfl | cases hl
          refine ⟨?_, ?_, .inl ⟨hexit, hrunning'.trans hrunning, hheartbeat'.trans hheartbeat⟩⟩
          · rw [hconn', hafter]
            exact hconn
          · rw [hl]
            exact ⟨fun hl => Bool.noConfusion hl, fun hc => absurd hc.2 hall'⟩
        · have hall' : ∀ p ∈ valuesOf s.m_children, (hooks p).start.ending = .returns true :=
            hchildren ▸ hall
          have hsize' : t.m_children.size ≠ 0 := by
            rw [hchildren']
            exact hchildren ▸ hsize
          refine ⟨hconn'.trans hconn, ⟨fun _ => ⟨⟨_, rfl⟩, hall'⟩, fun _ => rfl⟩,
            .inr ⟨rfl, hrunning', hheartbeat', hsize', ?_⟩⟩
          rw [hchildren']
          exact hdef

end Pipeline

namespace EventLoop

/-- Elements are scheduled, but nothing is started or stopped. -/
structure Keeps (s t : EventLoop) : Prop where
  running : t.m_running = s.m_running
  heartbeat : t.heartbeat = s.heartbeat
  connections : t.scheduleConnections = s.scheduleConnections
  children : t.m_children = s.m_children
  pending : t.pending = s.pending
  defined : ∀ p, (s.states p).m_state ≠ .PLE_UNDEFINED → (t.states p).m_state ≠ .PLE_UNDEFINED

namespace Keeps

theorem refl (s : EventLoop) : s.Keeps s := ⟨rfl, rfl, rfl, rfl, rfl, fun _ hp => hp⟩

theorem trans {s t u : EventLoop} (h : s.Keeps t) (h' : t.Keeps u) : s.Keeps u where
  running := h'.running.trans h.running
  heartbeat := h'.heartbeat.trans h.heartbeat
  connections := h'.connections.trans h.connections
  children := h'.children.trans h.children
  pending := h'.pending.trans h.pending
  defined p hp := h'.defined p (h.defined p hp)

end Keeps

theorem setState_keeps (s : EventLoop) (p : ElemPtr) (state : State)
    (hstate : state ≠ .PLE_UNDEFINED) : s.Keeps (s.setState p state) where
  running := rfl
  heartbeat := rfl
  connections := rfl
  children := rfl
  pending := rfl
  defined q hq := by
    change (Function.update s.states p _ q).m_state ≠ _
    by_cases hqp : q = p
    · rw [hqp, Function.update_self]
      exact hstate
    · rw [Function.update_of_ne hqp]
      exact hq

theorem removeStale_keeps (ks : List Int) (s : EventLoop) : s.Keeps (removeStale ks s).1 := by
  induction ks generalizing s with
  | nil => exact .refl s
  | cons k ks ih =>
    unfold removeStale
    split
    case h_1 item _ =>
      have hset := setState_keeps s item.element .PLE_STARTED State.noConfusion
      have hdone : s.Keeps { s.setState item.element .PLE_STARTED with
          m_runQueue := s.m_runQueue.erase k } :=
        ⟨rfl, rfl, rfl, rfl, rfl, hset.defined⟩
      exact hdone.trans (ih _)
    · exact .refl s
    · exact ih s
    · exact ih s

/-- The loop ends early exactly when there is a failed run among those it looks at. -/
theorem removeStale_false_iff (ks : List Int) (s : EventLoop) :
    (removeStale ks s).2 = false ↔
      ∃ k ∈ ks, ∃ r, s.m_runQueue[k]? = some r ∧ r.m_result = some false := by
  induction ks generalizing s with
  | nil => simp [removeStale]
  | cons k ks ih =>
    unfold removeStale
    split
    case h_1 item hk =>
      rw [ih]
      constructor
      · rintro ⟨k', hk', r, hr, hf⟩
        have hr' : (s.m_runQueue.erase k)[k']? = some r := hr
        exact ⟨k', by simp [hk'], r, (QMap.of_erase hr').2, hf⟩
      · rintro ⟨k', hk', r, hr, hf⟩
        have hne : k' ≠ k := by
          intro he
          rw [he, hk] at hr
          cases hr
          cases hf
        refine ⟨k', by simpa [hne] using hk', r, ?_, hf⟩
        change (s.m_runQueue.erase k)[k']? = some r
        rw [QMap.getElem?_erase, if_neg hne]
        exact hr
    case h_2 hk => exact ⟨fun _ => ⟨k, by simp, _, hk, rfl⟩, fun _ => rfl⟩
    case h_3 hk =>
      rw [ih]
      constructor
      · rintro ⟨k', hk', hr⟩
        exact ⟨k', by simp [hk'], hr⟩
      · rintro ⟨k', hk', r, hr, hf⟩
        have hne : k' ≠ k := by
          intro he
          rw [he, hk] at hr
          cases hr
          cases hf
        exact ⟨k', by simpa [hne] using hk', r, hr, hf⟩
    case h_4 hk =>
      rw [ih]
      constructor
      · rintro ⟨k', hk', hr⟩
        exact ⟨k', by simp [hk'], hr⟩
      · rintro ⟨k', hk', r, hr, hf⟩
        have hne : k' ≠ k := by
          intro he
          rw [he, hk] at hr
          cases hr
        exact ⟨k', by simpa [hne] using hk', r, hr, hf⟩

theorem dispatch_keeps {s t : EventLoop} {item : RunItem} (h : s.dispatch item = some t) :
    s.Keeps t := by
  unfold dispatch at h
  split at h
  · cases h
    have hset := setState_keeps s item.element .PLE_DISPATCHED State.noConfusion
    exact ⟨rfl, rfl, rfl, rfl, rfl, hset.defined⟩
  · cases h

theorem dispatchProcessors_keeps {ks : List Int} {s t : EventLoop}
    (h : dispatchProcessors ks s = some t) : s.Keeps t := by
  induction ks generalizing s with
  | nil =>
    cases h
    exact .refl _
  | cons k ks ih =>
    unfold dispatchProcessors at h
    split at h
    · split at h
      · exact ih h
      · split at h
        · cases h
        case h_2 u hu =>
          refine (dispatch_keeps hu).trans (Keeps.trans ?_ (ih h))
          exact ⟨rfl, rfl, rfl, rfl, rfl, fun _ hp => hp⟩
    · exact ih h
    · exact ih h

theorem dispatchProducers_keeps {ps : List ElemPtr} {s t : EventLoop}
    (h : dispatchProducers ps s = some t) : s.Keeps t := by
  induction ps generalizing s with
  | nil =>
    cases h
    exact .refl _
  | cons p ps ih =>
    unfold dispatchProducers at h
    split at h
    · cases h
    case h_2 u hu => exact (dispatch_keeps hu).trans (ih h)

theorem stop_spec {hooks : ElemPtr → Hooks} {s t : EventLoop} (h : s.stop hooks = some t) :
    s.m_running = true ∧ t.m_running = false ∧ t.heartbeat = false ∧
      t.scheduleConnections = s.scheduleConnections ∧ t.pending = s.pending := by
  have hfold : ∀ (items : List Dispatched) (u : EventLoop),
      (items.foldl (fun s item => s.setState item.element .PLE_STARTED) u).scheduleConnections =
        u.scheduleConnections ∧
      (items.foldl (fun s item => s.setState item.element .PLE_STARTED) u).pending = u.pending := by
    intro items
    induction items with
    | nil => exact fun u => ⟨rfl, rfl⟩
    | cons item items ih => exact fun u => ih _
  unfold stop at h
  split at h
  case isTrue hrunning =>
    dsimp only at h
    split at h
    · cases h
    · cases h
      exact ⟨hrunning, rfl, rfl, (hfold _ s).1, (hfold _ s).2⟩
  · cases h

/-- A run of this element has returned false, and `schedule` has not seen it yet. -/
def Failed (s : EventLoop) : Prop :=
  ∃ (k : Int) (r : Dispatched), s.m_runQueue[k]? = some r ∧ r.m_result = some false

/-- A call of schedule stops the pipeline when a run has failed; otherwise nothing is started or
stopped. -/
theorem schedule_cases {hooks : ElemPtr → Hooks} {w : Surroundings} {s t : EventLoop}
    (h : s.schedule hooks w = some t) :
    (s.Failed ∧ s.m_running = true ∧ t.m_running = false ∧ t.heartbeat = false ∧
      t.scheduleConnections = s.scheduleConnections ∧ t.pending = s.pending) ∨
    (¬ s.Failed ∧ s.Keeps t) := by
  unfold schedule at h
  split at h
  case isTrue =>
    have hfailed : (removeStale (w.order.order s.m_runQueue.keys) { s with m_testCount := 1 }).2 =
        false ↔ s.Failed := by
      rw [removeStale_false_iff]
      constructor
      · rintro ⟨k, -, r, hr, hf⟩
        exact ⟨k, r, hr, hf⟩
      · rintro ⟨k, r, hr, hf⟩
        refine ⟨k, ?_, r, hr, hf⟩
        rw [(w.order.perm _).mem_iff, Std.ExtTreeMap.mem_keys]
        exact Std.ExtTreeMap.mem_iff_isSome_getElem?.mpr (by rw [hr]; rfl)
    have hstale := removeStale_keeps (w.order.order s.m_runQueue.keys) { s with m_testCount := 1 }
    split at h
    case h_1 u hu =>
      rw [hu] at hfailed hstale
      obtain ⟨hrunning, hstopped, hheartbeat, hconn, hpending⟩ := stop_spec h
      exact .inl ⟨hfailed.mp rfl, hstale.running.symm.trans hrunning, hstopped, hheartbeat,
        hconn.trans hstale.connections, hpending.trans hstale.pending⟩
    case h_2 u hu =>
      rw [hu] at hfailed hstale
      refine .inr ⟨fun hf => Bool.noConfusion (hfailed.mpr hf), ?_⟩
      have hs : s.Keeps u := ⟨hstale.running, hstale.heartbeat, hstale.connections,
        hstale.children, hstale.pending, hstale.defined⟩
      split at h
      · cases h
      case h_2 v hv =>
        have hv := hs.trans (dispatchProcessors_keeps hv)
        split at h
        · split at h
          · cases h
          case h_2 x hx =>
            cases h
            have hx := hv.trans (dispatchProducers_keeps hx)
            exact ⟨hx.running, hx.heartbeat, hx.connections, hx.children, hx.pending, hx.defined⟩
        · cases h
          exact ⟨hv.running, hv.heartbeat, hv.connections, hv.children, hv.pending, hv.defined⟩
  case isFalse => cases h

/-- One connection from the heartbeat to `schedule()` while the pipeline runs, and else none. -/
def OneSchedule (s : EventLoop) : Prop := s.scheduleConnections = s.m_running.toNat

/-- Nothing stops the pipeline, and a start that fails does so before `init` makes the
connection, or where `deinit` is called. -/
def NotStopped (s : EventLoop) : Event → Prop
  | .start hooks h => s.pipeline.StartsCleanly hooks h
  | .stop _ => False
  | .schedule _ _ => ¬ s.Failed
  | _ => True

structure Ticking (s : EventLoop) : Prop where
  connections : s.OneSchedule
  heartbeat : s.heartbeat = s.m_running
  pending : s.pending ≤ s.m_running.toNat
  defined : s.m_running = true →
    s.m_children.size ≠ 0 ∧ ∀ p ∈ valuesOf s.m_children, (s.states p).m_state ≠ .PLE_UNDEFINED

theorem notStarted_ticking (graph : Graph.Pipeline) : (notStarted graph).Ticking where
  connections := rfl
  heartbeat := rfl
  pending := Nat.le_refl 0
  defined h := by cases h

/-- A start of a pipeline that runs does not get past the first assertion. -/
theorem Ticking.start_none {s : EventLoop} (h : s.Ticking) (hr : s.m_running = true)
    (hooks : ElemPtr → Hooks) (hashing : Hashing) : s.pipeline.start hooks hashing = none := by
  obtain ⟨hsize, hdef⟩ := h.defined hr
  obtain ⟨k, p, hp⟩ := Pipeline.exists_child hsize
  have hmem := mem_valuesOf.mpr ⟨k, hp⟩
  have hinit : s.pipeline.init hooks hashing.elements = none := by
    unfold Pipeline.init
    cases hv : valuesOf s.m_children with
    | nil =>
      rw [hv] at hmem
      cases hmem
    | cons q qs =>
      have hq : (s.states q).init (hooks q).init = none := if_neg (hdef q (by rw [hv]; simp))
      simp only [Pipeline.initLoop, hq]
  unfold Pipeline.start
  rw [if_neg hsize, hinit]

theorem done_or_error_defined (e : ElementState) :
    (if e.m_state = .PLE_ERROR then e else e.setState .PLE_DONE).m_state ≠ .PLE_UNDEFINED := by
  split
  case isTrue herror =>
    rw [herror]
    exact State.noConfusion
  case isFalse => exact State.noConfusion

theorem run_defined {e e' : ElementState} {kind : Kind} {call : Call} {b : Bool}
    (h : e.run kind call = some (e', b)) : e'.m_state ≠ .PLE_UNDEFINED := by
  unfold ElementState.run at h
  split at h
  · dsimp only at h
    split at h
    · cases h
      exact done_or_error_defined _
    · cases h
      exact State.noConfusion
    · cases h
      exact State.noConfusion
  · cases h

theorem Ticking.keeps {s t : EventLoop} (h : s.Ticking) (hk : s.Keeps t) : t.Ticking where
  connections := by
    rw [OneSchedule, hk.connections, hk.running]
    exact h.connections
  heartbeat := by rw [hk.heartbeat, hk.running, h.heartbeat]
  pending := by
    rw [hk.pending, hk.running]
    exact h.pending
  defined hr := by
    rw [hk.running] at hr
    obtain ⟨hsize, hdef⟩ := h.defined hr
    rw [hk.children]
    exact ⟨hsize, fun p hp => hk.defined p (hdef p hp)⟩

/-- Each step that does not stop the pipeline keeps the heartbeat as it should be. -/
theorem step_ticking {s s' : EventLoop} {e : Event} (h : s.Ticking) (ha : s.NotStopped e)
    (hs : s.step e = some s') : s'.Ticking := by
  cases e with
  | edit graph =>
    simp only [step] at hs
    split at hs
    case isTrue hidle =>
      cases hs
      exact ⟨h.connections, h.heartbeat, h.pending, fun hr => by
        have hr : s.m_running = true := hr
        rw [hidle.2] at hr
        cases hr⟩
    · cases hs
  | start hooks hashing =>
    simp only [step] at hs
    split at hs
    case isTrue hpending =>
      obtain ⟨⟨t, exit⟩, hst, rfl⟩ := Option.map_eq_some_iff.mp hs
      have hstopped : s.m_running = false := by
        cases hr : s.m_running with
        | false => rfl
        | true =>
          rw [h.start_none hr] at hst
          cases hst
      have hconn : s.scheduleConnections = 0 := by
        have hone := h.connections
        rwa [OneSchedule, hstopped] at hone
      obtain ⟨hafter, hclean, ⟨hexit, hrunning, hheartbeat⟩ |
        ⟨rfl, hrunning, hheartbeat, hsize, hdef⟩⟩ := Pipeline.start_spec hst
      · have hzero : t.scheduleConnections = 0 := by
          rw [hafter, hconn]
          have hl := hclean.mpr ha
          cases exit
          all_goals first | rfl | exact absurd rfl hexit | cases hl
        have hrunning' : t.m_running = false := hrunning.trans hstopped
        constructor
        case connections =>
          change t.scheduleConnections = t.m_running.toNat
          rw [hzero, hrunning']
          rfl
        case heartbeat =>
          change t.heartbeat = t.m_running
          rw [hheartbeat, hrunning, h.heartbeat]
        case pending =>
          change s.pending ≤ _
          rw [hpending]
          exact Nat.zero_le _
        case defined =>
          intro hr
          have hr : t.m_running = true := hr
          rw [hrunning'] at hr
          cases hr
      · constructor
        case connections =>
          change t.scheduleConnections = t.m_running.toNat
          rw [hafter, hconn, hrunning]
          rfl
        case heartbeat => exact hheartbeat.trans hrunning.symm
        case pending =>
          change s.pending ≤ _
          rw [hpending]
          exact Nat.zero_le _
        case defined => exact fun _ => ⟨hsize, hdef⟩
    · cases hs
  | stop hooks => exact ha.elim
  | timeout =>
    simp only [step] at hs
    split at hs
    · cases hs
      refine ⟨h.connections, h.heartbeat, ?_, h.defined⟩
      change s.scheduleConnections ≤ s.m_running.toNat
      exact Nat.le_of_eq h.connections
    · cases hs
  | schedule hooks w =>
    simp only [step] at hs
    split at hs
    · cases hs
    · obtain ⟨t, ht, rfl⟩ := Option.map_eq_some_iff.mp hs
      have hless : Ticking { s with pending := s.pending - 1 } :=
        ⟨h.connections, h.heartbeat, (Nat.sub_le _ _).trans h.pending, h.defined⟩
      obtain ⟨hf, -⟩ | ⟨-, hk⟩ := schedule_cases ht
      · exact absurd hf ha
      · have htick := hless.keeps hk
        exact ⟨htick.connections, htick.heartbeat, (Nat.min_le_left _ _).trans htick.pending,
          htick.defined⟩
  | run id call =>
    simp only [step] at hs
    split at hs
    case h_1 item _ =>
      split at hs
      · cases hs
      case h_2 e result hrun =>
        cases hs
        refine h.keeps ⟨rfl, rfl, rfl, rfl, rfl, ?_⟩
        intro p hp
        change (Function.update s.states item.element e p).m_state ≠ _
        by_cases hpi : p = item.element
        · rw [hpi, Function.update_self]
          exact run_defined hrun
        · rw [Function.update_of_ne hpi]
          exact hp
    · cases hs
    · cases hs
  | pipelineDataConsumerReady item =>
    simp only [step] at hs
    split at hs
    · cases hs
      exact ⟨h.connections, h.heartbeat, h.pending, h.defined⟩
    · cases hs

/-- The first step that stops the pipeline, or starts it so that it fails behind the connection,
leaves a connection that is not there for a pipeline that runs. -/
theorem step_leaves {s s' : EventLoop} {e : Event} (h : s.Ticking) (ha : ¬ s.NotStopped e)
    (hs : s.step e = some s') : ¬ s'.OneSchedule := by
  have hstop {t : EventLoop} (hrunning : s.m_running = true) (hstopped : t.m_running = false)
      (hconn : t.scheduleConnections = s.scheduleConnections) : ¬ t.OneSchedule := by
    have hone := h.connections
    rw [OneSchedule, hrunning] at hone
    rw [OneSchedule, hconn, hone, hstopped]
    exact Nat.one_ne_zero
  cases e with
  | start hooks hashing =>
    simp only [step] at hs
    split at hs
    · obtain ⟨⟨t, exit⟩, hst, rfl⟩ := Option.map_eq_some_iff.mp hs
      have hstopped : s.m_running = false := by
        cases hr : s.m_running with
        | false => rfl
        | true =>
          rw [h.start_none hr] at hst
          cases hst
      obtain ⟨hafter, hclean, hend⟩ := Pipeline.start_spec hst
      have hl : Pipeline.leavesConnected exit = true := by
        by_contra hl
        exact ha (hclean.mp (by simpa using hl))
      have hrunning : t.m_running = s.m_running := by
        obtain ⟨-, hrunning, -⟩ | ⟨rfl, -⟩ := hend
        · exact hrunning
        · cases hl
      intro hone
      have hone : t.scheduleConnections = t.m_running.toNat := hone
      rw [hafter, hrunning, hstopped] at hone
      cases exit
      all_goals cases hl
      all_goals cases hone
    · cases hs
  | stop hooks =>
    simp only [step] at hs
    split at hs
    · obtain ⟨hrunning, hstopped, -, hconn, -⟩ := stop_spec hs
      exact hstop hrunning hstopped hconn
    · cases hs
  | schedule hooks w =>
    simp only [step] at hs
    split at hs
    · cases hs
    · obtain ⟨t, ht, rfl⟩ := Option.map_eq_some_iff.mp hs
      obtain ⟨-, hrunning, hstopped, -, hconn, -⟩ | ⟨hf, -⟩ := schedule_cases ht
      · exact hstop hrunning hstopped hconn
      · exact absurd hf ha
  | _ => exact absurd trivial ha

/-- As long as no step stops the pipeline, and none leaves a failed start connected, there is
one connection to `schedule()` while the pipeline runs and none otherwise, and the pipeline runs
whenever a call is due. The first step of another kind breaks this. -/
theorem one_schedule {graph : Graph.Pipeline} {s : EventLoop}
    (h : Reaches step NotStopped (notStarted graph) s) :
    s.OneSchedule ∧ (s.pending ≠ 0 → s.m_running = true) ∧
      ∀ e s', s.step e = some s' → ¬ s.NotStopped e → ¬ s'.OneSchedule := by
  have ht : s.Ticking := h.invariant (notStarted_ticking graph)
    fun _ _ _ hi ha hs => step_ticking hi ha hs
  refine ⟨ht.connections, ?_, fun e s' hs ha => step_leaves ht ha hs⟩
  intro hpending
  by_contra hr
  have hr : s.m_running = false := by simpa using hr
  have hle := ht.pending
  rw [hr] at hle
  exact hpending (Nat.le_zero.mp hle)

def oneProducer : Graph.Pipeline := (Pipeline.fresh (fun _ => Graph.Pipeline.source 5) 1).toPipeline

/-- It is started, and the heartbeat calls `schedule()` once. -/
theorem one_schedule_oneProducer : ∃ s, Reaches step NotStopped (notStarted oneProducer) s ∧
    s.m_running = true ∧ s.pending = 1 ∧ s.scheduleConnections = 1 := by
  have hclean : (notStarted oneProducer).pipeline.StartsCleanly (fun _ => Pipeline.succeeding)
      Pipeline.ascending := .inr (.inr (.inr ⟨⟨_, rfl⟩, fun _ _ => rfl⟩))
  have hstart : Reaches step NotStopped (notStarted oneProducer) _ :=
    .step (.start (fun _ => Pipeline.succeeding) Pipeline.ascending) .start hclean rfl
  have htimeout : Reaches step NotStopped (notStarted oneProducer) _ :=
    .step .timeout hstart trivial rfl
  exact ⟨_, htimeout, rfl, rfl, (one_schedule htimeout).1⟩

/-- After a stop the connection is still there. After the next start there are two, and when the
first call stops the pipeline because the producer failed, the second one is still due. -/
theorem one_schedule_fails :
    (¬ ∀ graph s, Reaches step (fun _ _ => True) (notStarted graph) s → s.OneSchedule) ∧
    ¬ ∀ graph s, Reaches step (fun _ _ => True) (notStarted graph) s →
      s.pending ≠ 0 → s.m_running = true := by
  let start : Event := .start (fun _ => Pipeline.succeeding) Pipeline.ascending
  let stop : Event := .stop fun _ => Pipeline.succeeding
  let schedule : Event := .schedule (fun _ => Pipeline.succeeding)
    ⟨.ascending Int, true, fun _ => true⟩
  have hany (es : List Event) : ∀ s : EventLoop, ∀ e ∈ es, True := fun _ _ _ => trivial
  constructor
  · intro hall
    have hreach : Reaches step (fun _ _ => True) (notStarted oneProducer) _ :=
      Reaches.of_run (hany [start, stop]) rfl
    cases hall _ _ hreach
  · intro hall
    have hreach : Reaches step (fun _ _ => True) (notStarted oneProducer) _ :=
      Reaches.of_run (hany [start, stop, start, .timeout, schedule, schedule,
        .run 0 ⟨none, .returns false⟩, .timeout, schedule]) rfl
    cases hall _ _ hreach Nat.one_ne_zero

end EventLoop

end ParleVision.Lifecycle
