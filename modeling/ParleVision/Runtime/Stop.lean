import ParleVision.Runtime.Monotone

namespace ParleVision.Runtime
open Lib
open ParleVision.Lifecycle (State)

inductive Hook where
  | setError
  | returns (b : Bool)

/-- Where the thread of the pipeline is in `Pipeline::stop`, with what its loops have still to do. -/
inductive StopPhase (E C : Type) where
  /-- it was not called yet -/
  | running
  /-- in the wait loop -/
  | waiting (todo : List E)
  /-- an element was removed from the run queue, and its state is still to be set -/
  | restarting (e : E) (todo : List E)
  /-- before the next `__stop` -/
  | leaving (todo : List E)
  /-- in the `stop()` of an element -/
  | stopping (e : E) (todo : List E)
  /-- after it, with what it has returned -/
  | stopped (e : E) (b : Bool) (todo : List E)
  /-- in the `deinit()` of the element -/
  | deiniting (e : E) (b : Bool) (todo : List E)
  /-- `__deinit` has set PLE_UNDEFINED -/
  | undefined (e : E) (b : Bool) (todo : List E)
  | flushing (todo : List C)
  /-- before the assertion that the connection is empty -/
  | flushed (c : C) (todo : List C)
  | clearing
  /-- `stop` has returned -/
  | returned
deriving DecidableEq

/-- A pipeline that is being stopped, with the elements of which `stop()` and `deinit()` have both
returned true. -/
structure StopState (E P C : Type) extends pipeline : PipelineState E P C where
  stopPhase : StopPhase E C
  ended : List E

inductive StopEvent (E P C : Type) where
  | pipeline (event : Event E P C)
  /-- the thread of the pipeline, in `stop` -/
  | stop (order : List E) (hook : Hook)

section
variable {E P C : Type} [DecidableEq E] [DecidableEq P] [DecidableEq C] (net : Network E P C)

def Flow.flush (f : Flow E C) (c : C) : Flow E C :=
  { f with m_queue := Function.update f.m_queue c [] }

namespace StopState

def started (serial : Nat) (stale : E → Nat → Nat) : StopState E P C where
  pipeline := .started serial stale
  stopPhase := .running
  ended := []

variable (s : StopState E P C)

def withPipeline (pipeline : PipelineState E P C) : StopState E P C :=
  { s with pipeline := pipeline }

def setState (e : E) (state : State) : StopState E P C :=
  s.withPipeline (s.pipeline.setState e state)

def goto (stopPhase : StopPhase E C) : StopState E P C := { s with stopPhase := stopPhase }

/-- The next step of `stop`, given the order in which a hash hands out its keys and what the
function of an element does that was called; nothing when an assertion fails. -/
def next (order : List E) (hook : Hook) : Option (StopState E P C) :=
  match s.stopPhase with
  | .running =>
    -- from outside between two calls of `schedule`, or from `schedule` when a run has failed
    match s.phase with
    | .idle | .stopping => some (s.goto (.waiting []))
    | _ => none
  | .waiting (e :: todo) =>
    if s.m_state e = .PLE_DONE ∨ s.m_state e = .PLE_ERROR then
      some ((s.withPipeline { s.pipeline with m_runQueue := s.m_runQueue.erase e }).goto
        (.restarting e todo))
    else some (s.goto (.waiting todo))
  | .waiting [] =>
    if s.m_runQueue = [] then some (s.goto (.leaving net.children))
    else if order.Perm s.m_runQueue then some (s.goto (.waiting order)) else none
  | .restarting e todo => some ((s.setState e .PLE_STARTED).goto (.waiting todo))
  | .leaving (e :: todo) =>
    if s.m_state e = .PLE_UNDEFINED ∨ s.m_state e = .PLE_INITIALIZED then none
    else some (s.goto (.stopping e todo))
  | .leaving [] => some (s.goto (.flushing net.connections))
  | .stopping e todo =>
    match hook with
    | .setError => some (s.setState e .PLE_ERROR)
    | .returns true => some ((s.setState e .PLE_INITIALIZED).goto (.stopped e true todo))
    | .returns false => some ((s.setState e .PLE_ERROR).goto (.stopped e false todo))
  | .stopped e b todo =>
    if s.m_state e = .PLE_ERROR ∨ s.m_state e = .PLE_INITIALIZED then
      some (s.goto (.deiniting e b todo))
    else none
  | .deiniting e b todo =>
    match hook with
    | .setError => some (s.setState e .PLE_ERROR)
    | .returns true => some ((s.setState e .PLE_UNDEFINED).goto (.undefined e b todo))
    | .returns false => some ((s.setState e .PLE_ERROR).goto (.leaving todo))
  | .undefined e b todo =>
    let processingSerial := Function.update s.processingSerial e 0
    some { s with
      processingSerial := processingSerial
      ended := if b then e :: s.ended else s.ended
      stopPhase := .leaving todo }
  | .flushing (c :: todo) =>
    some ((s.withPipeline (s.pipeline.withFlow (s.flow.flush c))).goto (.flushed c todo))
  | .flushing [] => some (s.goto .clearing)
  | .flushed c todo => if s.m_queue c = [] then some (s.goto (.flushing todo)) else none
  | .clearing => some ({ s with m_readyQueue := fun _ => [] }.goto .returned)
  | .returned => none

def step : StopEvent E P C → Option (StopState E P C)
  | .pipeline (.schedule order answer) =>
    match s.stopPhase with
    | .running => (s.pipeline.schedule net order answer).map s.withPipeline
    | _ => none
  | .pipeline (.work e action) =>
    match s.pipeline.work net e action, s.stopPhase with
    | none, _ => none
    | some pipeline, .returned =>
      -- there is no ready queue to append to
      if ∀ e ∈ net.children, pipeline.m_readyQueue e = s.m_readyQueue e then
        some (s.withPipeline pipeline)
      else none
    | some pipeline, _ => some (s.withPipeline pipeline)
  | .stop order hook => s.next net order hook

end StopState

end

variable {E P C : Type} {net : Network E P C} {first : Nat} {stale : E → Nat → Nat}

section
variable [DecidableEq E] [DecidableEq C]

inductive StopTurn (net : Network E P C) (s : StopState E P C) : StopState E P C → Prop where
  | called : s.stopPhase = .running → StopTurn net s (s.goto (.waiting []))
  | waits {todo : List E} : s.stopPhase = .waiting [] → StopTurn net s (s.goto (.waiting todo))
  | waited : s.stopPhase = .waiting [] → s.m_runQueue = [] →
      StopTurn net s (s.goto (.leaving net.children))
  | removes {e : E} {todo : List E} : s.stopPhase = .waiting (e :: todo) →
      s.m_state e = .PLE_DONE ∨ s.m_state e = .PLE_ERROR →
      StopTurn net s ((s.withPipeline { s.pipeline with
        m_runQueue := s.m_runQueue.erase e }).goto (.restarting e todo))
  | skips {e : E} {todo : List E} : s.stopPhase = .waiting (e :: todo) →
      StopTurn net s (s.goto (.waiting todo))
  | restarts {e : E} {todo : List E} : s.stopPhase = .restarting e todo →
      StopTurn net s ((s.setState e .PLE_STARTED).goto (.waiting todo))
  | leaves {e : E} {todo : List E} : s.stopPhase = .leaving (e :: todo) →
      StopTurn net s (s.goto (.stopping e todo))
  | left : s.stopPhase = .leaving [] → StopTurn net s (s.goto (.flushing net.connections))
  | stopError {e : E} {todo : List E} : s.stopPhase = .stopping e todo →
      StopTurn net s (s.setState e .PLE_ERROR)
  | stops {e : E} {todo : List E} {b : Bool} {state : State} : s.stopPhase = .stopping e todo →
      state = .PLE_INITIALIZED ∨ state = .PLE_ERROR →
      StopTurn net s ((s.setState e state).goto (.stopped e b todo))
  | deinits {e : E} {b : Bool} {todo : List E} : s.stopPhase = .stopped e b todo →
      StopTurn net s (s.goto (.deiniting e b todo))
  | deinitError {e : E} {b : Bool} {todo : List E} : s.stopPhase = .deiniting e b todo →
      StopTurn net s (s.setState e .PLE_ERROR)
  | deinited {e : E} {b : Bool} {todo : List E} : s.stopPhase = .deiniting e b todo →
      StopTurn net s ((s.setState e .PLE_UNDEFINED).goto (.undefined e b todo))
  | deinitFails {e : E} {b : Bool} {todo : List E} : s.stopPhase = .deiniting e b todo →
      StopTurn net s ((s.setState e .PLE_ERROR).goto (.leaving todo))
  | resets {e : E} {b : Bool} {todo : List E} : s.stopPhase = .undefined e b todo →
      StopTurn net s { s with
        processingSerial := Function.update s.processingSerial e 0
        ended := if b then e :: s.ended else s.ended
        stopPhase := .leaving todo }
  | flushes {c : C} {todo : List C} : s.stopPhase = .flushing (c :: todo) →
      StopTurn net s ((s.withPipeline (s.pipeline.withFlow (s.flow.flush c))).goto (.flushed c todo))
  | flushed {c : C} {todo : List C} : s.stopPhase = .flushed c todo →
      StopTurn net s (s.goto (.flushing todo))
  | allFlushed : s.stopPhase = .flushing [] → StopTurn net s (s.goto .clearing)
  | clears : s.stopPhase = .clearing →
      StopTurn net s ({ s with m_readyQueue := fun _ => [] }.goto .returned)

theorem next_cases {s s' : StopState E P C} {order : List E} {hook : Hook}
    (h : s.next net order hook = some s') : StopTurn net s s' := by
  unfold StopState.next at h
  cases hp : s.stopPhase with
  | running =>
    simp only [hp] at h
    split at h
    · cases h
      exact .called hp
    · cases h
      exact .called hp
    · cases h
  | waiting todo =>
    cases todo with
    | nil =>
      simp only [hp] at h
      split at h
      case isTrue hempty =>
        cases h
        exact .waited hp hempty
      case isFalse =>
        split at h
        · cases h
          exact .waits hp
        · cases h
    | cons e todo =>
      simp only [hp] at h
      split at h
      case isTrue hstate =>
        cases h
        exact .removes hp hstate
      case isFalse =>
        cases h
        exact .skips hp
  | restarting e todo =>
    simp only [hp] at h
    cases h
    exact .restarts hp
  | leaving todo =>
    cases todo with
    | nil =>
      simp only [hp] at h
      cases h
      exact .left hp
    | cons e todo =>
      simp only [hp] at h
      split at h
      · cases h
      · cases h
        exact .leaves hp
  | stopping e todo =>
    simp only [hp] at h
    split at h
    · cases h
      exact .stopError hp
    · cases h
      exact .stops hp (.inl rfl)
    · cases h
      exact .stops hp (.inr rfl)
  | stopped e b todo =>
    simp only [hp] at h
    split at h
    · cases h
      exact .deinits hp
    · cases h
  | deiniting e b todo =>
    simp only [hp] at h
    split at h
    · cases h
      exact .deinitError hp
    · cases h
      exact .deinited hp
    · cases h
      exact .deinitFails hp
  | undefined e b todo =>
    simp only [hp] at h
    cases h
    exact .resets hp
  | flushing todo =>
    cases todo with
    | nil =>
      simp only [hp] at h
      cases h
      exact .allFlushed hp
    | cons c todo =>
      simp only [hp] at h
      cases h
      exact .flushes hp
  | flushed c todo =>
    simp only [hp] at h
    split at h
    · cases h
      exact .flushed hp
    · cases h
  | clearing =>
    simp only [hp] at h
    cases h
    exact .clears hp
  | returned => simp [hp] at h

end

/-- There is no run, or `run` has returned. -/
def Worker.Over : Worker P C → Prop
  | .idle | .finished _ => True
  | _ => False

theorem Worker.over_of_not_busy {w : Worker P C} (h : ¬ w.Busy) : w.Over := by
  rw [Worker.not_busy h]
  trivial

section
variable [DecidableEq E] [DecidableEq P] [DecidableEq C] {s s' : PipelineState E P C} {e : E}
  {action : Action P C}

theorem work_of_over (h : (s.worker e).Over) : s.work net e action = none := by
  unfold PipelineState.work
  cases hw : s.worker e with
  | idle => rfl
  | finished => rfl
  | _ =>
    rw [hw] at h
    exact h.elim

theorem process_m_state {calls : Calls P C} (h : s.process net e calls action = some s') :
    s'.m_state e = s.m_state e ∨ s'.m_state e = .PLE_ERROR := by
  cases action with
  | setError =>
    cases h
    exact .inr (Function.update_self ..)
  | get c | clear c =>
    simp only [PipelineState.process] at h
    left
    split at h
    · split at h
      · cases h
        rfl
      · split at h
        all_goals
          cases h
          rfl
    · cases h
  | put p =>
    simp only [PipelineState.process] at h
    left
    split at h
    · split at h
      all_goals
        cases h
        rfl
    · cases h
  | returns b | throws =>
    cases h
    exact .inl rfl

/-- A run sets PLE_DONE last. -/
theorem work_done (h : s.work net e action = some s') (hdone : s'.m_state e = .PLE_DONE) :
    s.m_state e = .PLE_DONE ∨ (s'.worker e).Over := by
  have hset {state : State} (hne : state ≠ .PLE_DONE) {w : Worker P C}
      (hs : s' = (s.setState e state).goto e w) : s.m_state e = .PLE_DONE ∨ (s'.worker e).Over := by
    subst hs
    change Function.update s.m_state e state e = _ at hdone
    rw [Function.update_self] at hdone
    exact absurd hdone hne
  unfold PipelineState.work at h
  cases hw : s.worker e with
  | idle | finished => simp [hw] at h
  | processing calls =>
    simp only [hw] at h
    obtain hsame | herror := process_m_state h
    · exact .inl (hsame ▸ hdone)
    · rw [herror] at hdone
      cases hdone
  | notError result =>
    simp only [hw] at h
    cases h
    right
    change (Function.update s.worker e _ e).Over
    rw [Function.update_self]
    trivial
  | dispatched =>
    simp only [hw] at h
    split at h
    · exact hset (by decide) (Option.some.inj h).symm
    · cases h
  | thrown =>
    simp only [hw] at h
    exact hset (by decide) (Option.some.inj h).symm
  | posting todo pushed result =>
    cases todo with
    | nil =>
      simp only [hw] at h
      split at h
      · exact hset (by decide) (Option.some.inj h).symm
      · cases h
        exact .inl hdone
    | cons c todo =>
      cases pushed with
      | false =>
        simp only [hw] at h
        cases h
        exact .inl hdone
      | true =>
        simp only [hw] at h
        split at h
        all_goals
          cases h
        exact .inl hdone
  | putting calls todo pushed =>
    left
    cases todo with
    | nil =>
      simp only [hw] at h
      cases h
      exact hdone
    | cons c todo =>
      cases pushed with
      | false =>
        simp only [hw] at h
        cases h
        exact hdone
      | true =>
        simp only [hw] at h
        split at h
        all_goals
          cases h
        exact hdone
  | entered serial =>
    simp only [hw] at h
    left
    split at h
    · split at h
      all_goals
        cases h
      exact hdone
    · split at h
      all_goals
        cases h
      exact hdone
  | peeking todo nullDetected =>
    left
    cases todo with
    | nil =>
      simp only [hw] at h
      cases h
      exact hdone
    | cons c todo =>
      simp only [hw] at h
      split at h
      · split at h
        all_goals
          cases h
          exact hdone
      · cases h
        exact hdone
  | flushing todo =>
    left
    cases todo with
    | nil =>
      simp only [hw] at h
      cases h
      exact hdone
    | cons c todo =>
      simp only [hw] at h
      split at h
      all_goals
        cases h
        exact hdone
  | ending | leaving =>
    simp only [hw] at h
    cases h
    exact .inl hdone

theorem not_over_of_work (h : s.work net e action = some s') : ¬ (s.worker e).Over := by
  intro hover
  rw [work_of_over hover] at h
  cases h

/-- What a run does leaves the run queue, the other runs and their states alone. -/
theorem work_others (hshaped : (s.worker e).Shaped net e) (h : s.work net e action = some s') :
    s'.phase = s.phase ∧ s'.m_runQueue = s.m_runQueue ∧
      (∀ e', e' ≠ e → s'.m_state e' = s.m_state e' ∧ s'.worker e' = s.worker e') ∧
      (s'.worker e).Shaped net e := by
  obtain ⟨w', hw⟩ := work_cases hshaped h
  refine ⟨hw.phase, hw.runQueue, fun e' hne => ⟨hw.others e' hne, ?_⟩, ?_⟩
  · rw [hw.worker, Function.update_of_ne hne]
  · rw [hw.worker, Function.update_self]
    exact hw.shaped

structure Running (net : Network E P C) (s : PipelineState E P C) : Prop where
  accounted : Accounted net s
  nodup : s.m_runQueue.Nodup
  queued : ∀ e, e ∈ s.m_runQueue ↔ (s.worker e).Busy
  done : ∀ e, s.m_state e = .PLE_DONE → (s.worker e).Over

omit [DecidableEq E] [DecidableEq P] in
theorem started_running : Running net (.started first stale : PipelineState E P C) where
  accounted := started_accounted first stale
  nodup := List.nodup_nil
  queued _ := iff_of_false List.not_mem_nil id
  done _ h := by cases h

omit [DecidableEq P] in
theorem Running.dispatches {serial : Nat} (h : Running net s) (hd : Dispatches s e serial s')
    (ha : Accounted net s') : Running net s' := by
  have hidle : ¬ (s.worker e).Busy := fun hb => (h.accounted.busy e).mp hb hd.state
  refine ⟨ha, ?_, fun e' => ?_, fun e' hdone => ?_⟩
  · rw [hd.runQueue, List.nodup_cons]
    exact ⟨fun he => hidle ((h.queued e).mp he), h.nodup⟩
  · rw [hd.runQueue, hd.worker, List.mem_cons]
    by_cases he : e' = e
    · subst e'
      rw [Function.update_self]
      exact iff_of_true (.inl rfl) trivial
    · rw [Function.update_of_ne he, or_iff_right he]
      exact h.queued e'
  · rw [hd.state'] at hdone
    rw [hd.worker]
    by_cases he : e' = e
    · subst e'
      rw [Function.update_self] at hdone
      cases hdone
    · rw [Function.update_of_ne he] at hdone ⊢
      exact h.done e' hdone

theorem Running.step {event : Event E P C} (h : Running net s)
    (hs : s.step net event = some s') : Running net s' := by
  have ha := h.accounted.step hs
  cases event with
  | schedule order answer =>
    have ht : Turn net s s' := schedule_cases hs
    cases ht with
    | moves => exact ⟨ha, h.nodup, h.queued, h.done⟩
    | dispatches _ _ hd => exact h.dispatches hd ha
    | produces _ hd => exact h.dispatches hd ha
    | ticks => exact ⟨ha, h.nodup, h.queued, h.done⟩
    | @reaps e todo _ hw =>
      refine ⟨ha, h.nodup.erase e, fun e' => ?_, fun e' hdone => ?_⟩
      · change e' ∈ s.m_runQueue.erase e ↔ (Function.update s.worker e .idle e').Busy
        rw [h.nodup.mem_erase_iff]
        by_cases he : e' = e
        · subst e'
          rw [Function.update_self]
          exact iff_of_false (fun hmem => hmem.1 rfl) id
        · rw [Function.update_of_ne he, and_iff_right he]
          exact h.queued e'
      · change Function.update s.m_state e .PLE_STARTED e' = _ at hdone
        change (Function.update s.worker e .idle e').Over
        by_cases he : e' = e
        · subst e'
          rw [Function.update_self]
          trivial
        · rw [Function.update_of_ne he] at hdone ⊢
          exact h.done e' hdone
  | work e action =>
    have hbusy : (s.worker e).Busy := by
      by_contra hb
      exact not_over_of_work hs (Worker.over_of_not_busy hb)
    obtain ⟨w', hw⟩ := work_cases (h.accounted.shaped e) hs
    refine ⟨ha, by rw [hw.runQueue]; exact h.nodup, fun e' => ?_, fun e' hdone => ?_⟩
    · rw [hw.runQueue, hw.worker, h.queued e']
      by_cases he : e' = e
      · subst e'
        rw [Function.update_self]
        exact iff_of_true hbusy hw.busy'
      · rw [Function.update_of_ne he]
    · by_cases he : e' = e
      · subst e'
        exact (work_done hs hdone).resolve_left fun hold => not_over_of_work hs (h.done e hold)
      · rw [hw.others e' he] at hdone
        rw [hw.worker, Function.update_of_ne he]
        exact h.done e' hdone

end

namespace StopPhase

def Waited : StopPhase E C → Prop
  | .running | .waiting _ | .restarting .. => False
  | _ => True

def remaining (net : Network E P C) : StopPhase E C → List E
  | .running | .waiting _ | .restarting .. => net.children
  | .leaving todo => todo
  | .stopping e todo | .stopped e _ todo | .deiniting e _ todo | .undefined e _ todo => e :: todo
  | .flushing _ | .flushed .. | .clearing | .returned => []

def unflushed (net : Network E P C) : StopPhase E C → List C
  | .flushing todo | .flushed _ todo => todo
  | .clearing | .returned => []
  | _ => net.connections

end StopPhase

/-- The wait loop takes PLE_ERROR for the end of a run only when the run is over. -/
def SeesFinished (s : StopState E P C) : StopEvent E P C → Prop
  | .stop .. =>
    match s.stopPhase with
    | .waiting (e :: _) => s.m_state e = .PLE_ERROR → (s.worker e).Over
    | _ => True
  | .pipeline _ => True

/-- Once an element has left the run queue its run is over, and it stays so. -/
structure Quiescing [DecidableEq C] (net : Network E P C) (s : StopState E P C) : Prop where
  running : s.stopPhase = .running → Running net s.pipeline
  shaped : ∀ e, (s.worker e).Shaped net e
  done : ∀ e, s.m_state e = .PLE_DONE → (s.worker e).Over
  finished : ∀ e, e ∈ s.m_runQueue ∨ (s.worker e).Over
  waited : s.stopPhase.Waited → s.m_runQueue = []
  remaining : (s.stopPhase.remaining net).Nodup
  ended : ∀ e ∈ s.ended, e ∉ s.stopPhase.remaining net ∧ s.m_state e = .PLE_UNDEFINED
  undefined : ∀ e b todo, s.stopPhase = .undefined e b todo → s.m_state e = .PLE_UNDEFINED
  flushed : ∀ c, c ∈ s.stopPhase.unflushed net ∨ s.m_queue c = []

section
variable [DecidableEq C] {s s' : StopState E P C}

/-- What holds of a pipeline that runs. -/
theorem Quiescing.of_running (hphase : s.stopPhase = .running) (hr : Running net s.pipeline)
    (hended : s.ended = []) : Quiescing net s where
  running _ := hr
  shaped := hr.accounted.shaped
  done := hr.done
  finished e := (Classical.em _).imp_right fun he =>
    Worker.over_of_not_busy fun hb => he ((hr.queued e).mpr hb)
  waited h := by
    rw [hphase] at h
    exact h.elim
  remaining := by
    rw [hphase]
    exact net.children_nodup
  ended e he := by
    rw [hended] at he
    cases he
  undefined e b todo h := by
    rw [hphase] at h
    cases h
  flushed c := by
    rw [hphase]
    exact .inl (net.mem_connections c)

theorem Quiescing.not_ended (h : Quiescing net s) (hnot : ¬ s.stopPhase.Waited) : s.ended = [] := by
  rw [List.eq_nil_iff_forall_not_mem]
  intro e he
  have hremaining := (h.ended e he).1
  cases hp : s.stopPhase with
  | running | waiting | restarting =>
    rw [hp] at hremaining
    exact hremaining (net.mem_children e)
  | _ =>
    rw [hp] at hnot
    exact hnot trivial

/-- `stop` goes on. -/
theorem Quiescing.goto (h : Quiescing net s) {stopPhase : StopPhase E C}
    (hrunning : stopPhase ≠ .running) (hwaited : stopPhase.Waited → s.m_runQueue = [])
    (hremaining : (stopPhase.remaining net).Sublist (s.stopPhase.remaining net))
    (hundefined : ∀ e b todo, stopPhase = .undefined e b todo → s.m_state e = .PLE_UNDEFINED)
    (hflushed : ∀ c ∈ s.stopPhase.unflushed net, c ∈ stopPhase.unflushed net ∨ s.m_queue c = []) :
    Quiescing net (s.goto stopPhase) where
  running hp := absurd hp hrunning
  shaped := h.shaped
  done := h.done
  finished := h.finished
  waited := hwaited
  remaining := hremaining.nodup h.remaining
  ended e he := ⟨fun hmem => (h.ended e he).1 (hremaining.subset hmem), (h.ended e he).2⟩
  undefined := hundefined
  flushed c := (h.flushed c).elim (hflushed c) .inr

variable [DecidableEq E]

/-- `stop` sets the state of an element that it is not done with. -/
theorem Quiescing.setState (h : Quiescing net s) {e : E} {state : State} (hstate : state ≠ .PLE_DONE)
    (hrunning : s.stopPhase ≠ .running) (he : e ∈ s.stopPhase.remaining net)
    (hundefined : ∀ e b todo, s.stopPhase ≠ .undefined e b todo) :
    Quiescing net (s.setState e state) where
  running hp := absurd hp hrunning
  shaped := h.shaped
  done e' hdone := by
    change Function.update s.m_state e state e' = _ at hdone
    by_cases hne : e' = e
    · subst e'
      rw [Function.update_self] at hdone
      exact absurd hdone hstate
    · rw [Function.update_of_ne hne] at hdone
      exact h.done e' hdone
  finished := h.finished
  waited := h.waited
  remaining := h.remaining
  ended e' he' := by
    obtain ⟨hremaining, hstate'⟩ := h.ended e' he'
    refine ⟨hremaining, ?_⟩
    change Function.update s.m_state e state e' = _
    have hne : e' ≠ e := by
      rintro rfl
      exact hremaining he
    rw [Function.update_of_ne hne]
    exact hstate'
  undefined e' b todo hp := absurd hp (hundefined e' b todo)
  flushed := h.flushed

/-- `stop` goes on where it is not done with an element or a connection yet. -/
theorem Quiescing.next {order : List E} {hook : Hook} (h : Quiescing net s)
    (hsees : SeesFinished s (.stop order hook)) (hs : s.next net order hook = some s') :
    Quiescing net s' := by
  cases next_cases hs with
  | called hp | waits hp | skips hp =>
    exact h.goto (by simp) False.elim (by rw [hp]; exact .refl _) (by simp)
      (by rw [hp]; exact fun _ => .inl)
  | waited hp hempty =>
    exact h.goto (by simp) (fun _ => hempty) (by rw [hp]; exact .refl _) (by simp)
      (by rw [hp]; exact fun _ => .inl)
  | @removes e todo hp hstate =>
    rw [SeesFinished, hp] at hsees
    have hover : (s.worker e).Over := hstate.elim (h.done e) hsees
    have hnone := h.not_ended (by rw [hp]; exact id)
    refine ⟨by simp [StopState.goto], h.shaped, h.done, fun e' => ?_, False.elim,
      net.children_nodup, fun e' he' => ?_, by simp [StopState.goto],
      fun c => .inl (net.mem_connections c)⟩
    · by_cases he : e' = e
      · exact .inr (he ▸ hover)
      · exact (h.finished e').imp_left (List.mem_erase_of_ne he).mpr
    · change e' ∈ s.ended at he'
      rw [hnone] at he'
      cases he'
  | @restarts e todo hp =>
    have hset : Quiescing net (s.setState e .PLE_STARTED) :=
      h.setState (by decide) (by simp [hp]) (by rw [hp]; exact net.mem_children e) (by simp [hp])
    have hp' : (s.setState e .PLE_STARTED).stopPhase = .restarting e todo := hp
    exact hset.goto (by simp) False.elim (by rw [hp']; exact .refl _) (by simp)
      (by rw [hp']; exact fun _ => .inl)
  | leaves hp | deinits hp | flushed hp =>
    exact h.goto (by simp) (fun _ => h.waited (by rw [hp]; trivial)) (by rw [hp]; exact .refl _)
      (by simp) (by rw [hp]; exact fun _ => .inl)
  | left hp =>
    exact h.goto (by simp) (fun _ => h.waited (by rw [hp]; trivial)) (List.nil_sublist _) (by simp)
      (by rw [hp]; exact fun _ => .inl)
  | stopError hp | deinitError hp =>
    exact h.setState (by decide) (by simp [hp]) (by rw [hp]; exact List.mem_cons_self ..)
      (by simp [hp])
  | @stops e todo b state hp hstate =>
    have hset : Quiescing net (s.setState e state) :=
      h.setState (by rcases hstate with rfl | rfl <;> decide) (by simp [hp])
        (by rw [hp]; exact List.mem_cons_self ..) (by simp [hp])
    have hp' : (s.setState e state).stopPhase = .stopping e todo := hp
    exact hset.goto (by simp) (fun _ => h.waited (by rw [hp]; trivial))
      (by rw [hp']; exact .refl _) (by simp) (by rw [hp']; exact fun _ => .inl)
  | @deinited e b todo hp =>
    have hset : Quiescing net (s.setState e .PLE_UNDEFINED) :=
      h.setState (by decide) (by simp [hp]) (by rw [hp]; exact List.mem_cons_self ..) (by simp [hp])
    have hp' : (s.setState e .PLE_UNDEFINED).stopPhase = .deiniting e b todo := hp
    refine hset.goto (by simp) (fun _ => h.waited (by rw [hp]; trivial))
      (by rw [hp']; exact .refl _) ?_ (by rw [hp']; exact fun _ => .inl)
    intro e' b' todo' heq
    cases heq
    exact Function.update_self ..
  | @deinitFails e b todo hp =>
    have hset : Quiescing net (s.setState e .PLE_ERROR) :=
      h.setState (by decide) (by simp [hp]) (by rw [hp]; exact List.mem_cons_self ..) (by simp [hp])
    have hp' : (s.setState e .PLE_ERROR).stopPhase = .deiniting e b todo := hp
    exact hset.goto (by simp) (fun _ => h.waited (by rw [hp]; trivial))
      (by rw [hp']; exact List.sublist_cons_self ..) (by simp) (by rw [hp']; exact fun _ => .inl)
  | @resets e b todo hp =>
    have hremaining := h.remaining
    rw [hp] at hremaining
    obtain ⟨hnot, hnodup⟩ := List.nodup_cons.mp hremaining
    refine ⟨fun heq => (by cases heq), h.shaped, h.done, h.finished,
      fun _ => h.waited (by rw [hp]; trivial), hnodup, fun e' he' => ?_,
      (fun _ _ _ heq => by cases heq), fun c => .inl (net.mem_connections c)⟩
    obtain ⟨rfl, -⟩ | hold : (e' = e ∧ b = true) ∨ e' ∈ s.ended := by
      change e' ∈ (if b then e :: s.ended else s.ended) at he'
      cases b with
      | true => exact (List.mem_cons.mp he').imp_left fun he => ⟨he, rfl⟩
      | false => exact .inr he'
    · exact ⟨hnot, h.undefined _ _ _ hp⟩
    · obtain ⟨hremaining', hstate⟩ := h.ended e' hold
      rw [hp] at hremaining'
      exact ⟨fun hmem => hremaining' (List.mem_cons_of_mem _ hmem), hstate⟩
  | @flushes c todo hp =>
    refine ⟨fun heq => (by cases heq), h.shaped, h.done, h.finished,
      fun _ => h.waited (by rw [hp]; trivial), List.nodup_nil,
      fun e he => ⟨List.not_mem_nil, (h.ended e he).2⟩, (fun _ _ _ heq => by cases heq),
      fun c' => ?_⟩
    change c' ∈ todo ∨ Function.update s.m_queue c [] c' = []
    by_cases hc : c' = c
    · subst c'
      exact .inr (Function.update_self ..)
    · rw [Function.update_of_ne hc]
      have hold := h.flushed c'
      rw [hp] at hold
      exact hold.imp_left fun hmem => (List.mem_cons.mp hmem).resolve_left hc
  | allFlushed hp =>
    exact h.goto (by simp) (fun _ => h.waited (by rw [hp]; trivial)) (List.nil_sublist _) (by simp)
      (by rw [hp]; exact fun c hc => absurd hc List.not_mem_nil)
  | clears hp =>
    have hflushed := h.flushed
    rw [hp] at hflushed
    exact ⟨fun heq => (by cases heq), h.shaped, h.done, h.finished,
      fun _ => h.waited (by rw [hp]; trivial), List.nodup_nil,
      fun e he => ⟨List.not_mem_nil, (h.ended e he).2⟩, (fun _ _ _ heq => by cases heq), hflushed⟩

variable [DecidableEq P]

/-- A run goes on only before the wait loop has ended. -/
theorem Quiescing.works {e : E} {action : Action P C} {pipeline : PipelineState E P C}
    (h : Quiescing net s) (hs : s.pipeline.work net e action = some pipeline) :
    Quiescing net (s.withPipeline pipeline) := by
  have hnot : ¬ (s.worker e).Over := not_over_of_work hs
  have hmem : e ∈ s.m_runQueue := (h.finished e).resolve_right hnot
  have hwaited : ¬ s.stopPhase.Waited := by
    intro hw
    rw [h.waited hw] at hmem
    cases hmem
  obtain ⟨hphase, hqueue, hothers, hshaped⟩ := work_others (h.shaped e) hs
  have hsame {e' : E} (hne : e' ≠ e) : pipeline.worker e' = s.worker e' := (hothers e' hne).2
  constructor
  case running =>
    intro hp
    have hstep : s.pipeline.step net (.work e action) = some pipeline := hs
    exact (h.running hp).step hstep
  case shaped =>
    intro e'
    by_cases he : e' = e
    · exact he ▸ hshaped
    · change (pipeline.worker e').Shaped net e'
      rw [hsame he]
      exact h.shaped e'
  case done =>
    intro e' hdone
    change (pipeline.worker e').Over
    by_cases he : e' = e
    · subst e'
      exact (work_done hs hdone).resolve_left fun hold => hnot (h.done e hold)
    · rw [hsame he]
      exact h.done e' ((hothers e' he).1.symm.trans hdone)
  case finished =>
    intro e'
    change e' ∈ pipeline.m_runQueue ∨ (pipeline.worker e').Over
    rw [hqueue]
    by_cases he : e' = e
    · exact .inl (he ▸ hmem)
    · rw [hsame he]
      exact h.finished e'
  case waited => exact fun hw => absurd hw hwaited
  case remaining => exact h.remaining
  case ended =>
    intro e' he'
    change e' ∈ s.ended at he'
    rw [h.not_ended hwaited] at he'
    cases he'
  case undefined =>
    intro e' b todo hp
    change s.stopPhase = _ at hp
    rw [hp] at hwaited
    exact absurd trivial hwaited
  case flushed =>
    intro c
    left
    change c ∈ s.stopPhase.unflushed net
    cases hp : s.stopPhase with
    | running | waiting | restarting => exact net.mem_connections c
    | _ =>
      rw [hp] at hwaited
      exact absurd trivial hwaited

theorem Quiescing.step {event : StopEvent E P C} (h : Quiescing net s)
    (hsees : SeesFinished s event) (hs : s.step net event = some s') : Quiescing net s' := by
  unfold StopState.step at hs
  cases event with
  | stop order hook => exact h.next hsees hs
  | pipeline event =>
    cases event with
    | schedule order answer =>
      simp only at hs
      split at hs
      case h_1 hp =>
        obtain ⟨pipeline, hpipeline, rfl⟩ := Option.map_eq_some_iff.mp hs
        have hstep : s.pipeline.step net (.schedule order answer) = some pipeline := hpipeline
        have hr := (h.running hp).step hstep
        exact .of_running hp hr (h.not_ended (by rw [hp]; exact id))
      · cases hs
    | work e action =>
      simp only at hs
      split at hs
      · cases hs
      case h_2 hw _ =>
        split at hs
        · cases hs
          exact h.works hw
        · cases hs
      case h_3 _ hw _ =>
        cases hs
        exact h.works hw

/-- Nothing happens any more once `stop` has returned. -/
theorem Quiescing.rest {event : StopEvent E P C} (h : Quiescing net s)
    (hreturned : s.stopPhase = .returned) : s.step net event = none := by
  have hover (e : E) : (s.worker e).Over := by
    refine (h.finished e).resolve_left ?_
    rw [h.waited (by rw [hreturned]; trivial)]
    exact List.not_mem_nil
  unfold StopState.step
  cases event with
  | stop order hook => simp [StopState.next, hreturned]
  | pipeline event =>
    cases event with
    | schedule order answer => simp [hreturned]
    | work e action => simp [work_of_over (hover e)]

/-- When `stop` returns no run is in progress, every queue is empty, nothing is put any more, and
the elements that were stopped and deinitialised are undefined. -/
theorem quiescence
    (h : Reaches (StopState.step net) SeesFinished (.started first stale) s)
    (hreturned : s.stopPhase = .returned) :
    (∀ e, (s.worker e).Over) ∧ (∀ c, s.m_queue c = []) ∧
      (∀ s', Reaches (StopState.step net) (fun _ _ => True) s s' → s'.put = s.put) ∧
      ∀ e ∈ s.ended, s.m_state e = .PLE_UNDEFINED := by
  have hinv : Quiescing net s := by
    refine h.invariant (.of_running rfl started_running rfl) ?_
    intro s event s' hi hsees hs
    exact hi.step hsees hs
  refine ⟨fun e => ?_, fun c => ?_, fun s' hr => ?_, fun e he => (hinv.ended e he).2⟩
  · refine (hinv.finished e).resolve_left ?_
    rw [hinv.waited (by rw [hreturned]; trivial)]
    exact List.not_mem_nil
  · have hflushed := hinv.flushed c
    rw [hreturned] at hflushed
    exact hflushed.resolve_left List.not_mem_nil
  · have hsame : s' = s := by
      refine hr.invariant (I := (· = s)) rfl ?_
      rintro s₁ event s₂ rfl - hs
      rw [hinv.rest hreturned] at hs
      cases hs
    rw [hsame]

end

instance (w : Worker P C) : Decidable w.Over :=
  match w with
  | .idle | .finished _ => .isTrue trivial
  | .dispatched .. | .entered .. | .peeking .. | .flushing .. | .processing .. | .putting ..
  | .posting .. | .ending .. | .notError .. | .thrown | .leaving => .isFalse id

instance (s : StopState E P C) (event : StopEvent E P C) : Decidable (SeesFinished s event) :=
  match event with
  | .stop .. =>
    match h : s.stopPhase with
    | .waiting (e :: _) => decidable_of_iff (s.m_state e = .PLE_ERROR → (s.worker e).Over)
        (by rw [SeesFinished, h])
    | .waiting [] | .running | .restarting .. | .leaving _ | .stopping .. | .stopped ..
    | .deiniting .. | .undefined .. | .flushing _ | .flushed .. | .clearing | .returned =>
      .isTrue (by rw [SeesFinished, h]; trivial)
  | .pipeline _ => .isTrue trivial

/-- The steps of `stop` with one element in the run queue, whose state says that it is done. -/
def chainStop : List (StopEvent (Fin 3) (Fin 2) (Fin 2)) :=
  List.flatten [List.replicate 5 (.stop [0] (.returns true)),
    List.replicate 22 (.stop [] (.returns true))]

/-- The producer was run, and has put an item. -/
theorem quiescence_chain : ∃ s : StopState (Fin 3) (Fin 2) (Fin 2), s.put 0 = [1] ∧
    s.m_queue 0 = [] ∧ s.ended = [2, 1, 0] ∧ ∀ e ∈ s.ended, s.m_state e = .PLE_UNDEFINED := by
  have hend : (run (guarded (StopState.step (chain true)) SeesFinished) (.started 1 fun _ _ => 0)
      (List.flatten [(chainFrame.take 23).map .pipeline, chainStop])).map
        (fun s => (s.put 0, s.ended, s.stopPhase)) = some ([1], [2, 1, 0], .returned) := by
    decide +kernel
  obtain ⟨s, hs, hview⟩ := Option.map_eq_some_iff.mp hend
  obtain ⟨hput, hended, hreturned⟩ := by simpa only [Prod.mk.injEq] using hview
  obtain ⟨-, hqueues, -, hundefined⟩ := quiescence (.of_guarded_run hs) hreturned
  exact ⟨s, hput, hqueues 0, hended, hundefined⟩

/-- The producer calls `setError` in `produce()`, and puts an item after that. -/
theorem quiescence_fails :
    ∃ s s', Reaches (StopState.step (chain true)) (fun _ _ => True) (.started 1 fun _ _ => 0) s ∧
      s.stopPhase = .returned ∧ ¬ (s.worker 0).Over ∧
      Reaches (StopState.step (chain true)) (fun _ _ => True) s s' ∧ s.put 0 = [] ∧
      s'.put 0 = [0] ∧ s'.m_queue 0 = [⟨0, false⟩] := by
  have hend : (run (StopState.step (chain true)) (.started 1 fun _ _ => 0)
      (List.flatten [(chainFrame.take 15).map .pipeline, [.pipeline (.work 0 .setError)],
        chainStop])).bind (fun s => (run (StopState.step (chain true)) s
          [.pipeline (.work 0 (.put 0)), .pipeline (.work 0 (.returns true))]).map fun s' =>
            (s.stopPhase, decide (s.worker 0).Over, s.put 0, s'.put 0, s'.m_queue 0)) =
      some (.returned, false, [], [0], [⟨0, false⟩]) := by decide +kernel
  obtain ⟨s, hs, hend'⟩ := Option.bind_eq_some_iff.mp hend
  obtain ⟨s', hs', hview⟩ := Option.map_eq_some_iff.mp hend'
  obtain ⟨hreturned, hover, hput, hput', hqueue⟩ := by
    simpa only [Prod.mk.injEq, decide_eq_false_iff_not] using hview
  exact ⟨s, s', .of_run (fun _ _ _ => trivial) hs, hreturned, hover,
    .of_run (fun _ _ _ => trivial) hs', hput, hput', hqueue⟩

end ParleVision.Runtime
