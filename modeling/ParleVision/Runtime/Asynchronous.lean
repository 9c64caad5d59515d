import ParleVision.Runtime.Stop

namespace ParleVision.Runtime
open Lib
open ParleVision.Lifecycle (State PlvErrorType Ending)

inductive StartPhase (E : Type) where
  /-- not in it -/
  | idle
  /-- before the next `__init`, with the elements that are initialised -/
  | initing (todo initialized : List E)
  /-- in the `init()` of an element -/
  | inInit (e : E) (todo initialized : List E)
  /-- before the pins and the graph are looked at -/
  | checking
  /-- before the next `__start`, with the elements that are started -/
  | starting (todo started : List E)
  /-- in the `start()` of an element -/
  | inStart (e : E) (todo started : List E)
  /-- after a failure, before the next `__deinit`, or `__stop` where the flag says so -/
  | undoing (todo : List (E × Bool))
  | inStop (e : E) (todo : List (E × Bool))
  | inDeinit (e : E) (todo : List (E × Bool))
deriving DecidableEq

/-- What the function of an element does next that `start` has called, or what `start` finds
out about the pins and the graph. -/
inductive StartCall where
  | setError
  /-- with what `getErrorType()` answers then -/
  | ends (ending : Ending) (errorType : PlvErrorType)
  | checked (requiredPins acyclic : Bool)

def StartCall.throws : StartCall → Bool
  | .ends .throwsPlv _ | .ends .throwsOther _ => true
  | .ends (.returns _) _ | .setError | .checked .. => false

/-- A pipeline that is started and stopped any number of times. -/
structure AsyncState (E P C : Type) extends toStop : StopState E P C where
  startPhase : StartPhase E
  /-- the elements whose `onError` is still to be delivered -/
  deliveries : List E

inductive AsyncEvent (E P C : Type) where
  /-- an element calls `setError` outside `process()`, and emits `onError` or not -/
  | setError (e : E) (emits : Bool)
  /-- the event loop calls `pipelineElementError` -/
  | deliver
  /-- a step of `schedule`, or of the run of an element -/
  | pipeline (event : Event E P C)
  /-- a step of `stop`, of which the first is a request of the user or the call in `schedule` -/
  | stop (order : List E) (hook : Hook)
  /-- a step of `start`, of which the first is a request of the user -/
  | start (order : List E) (call : StartCall)

section
variable {E P C : Type} [DecidableEq E] [DecidableEq P] [DecidableEq C] (net : Network E P C)

namespace AsyncState

def constructed : AsyncState E P C where
  pipeline := { PipelineState.started 1 (fun _ _ => 0) with m_state := fun _ => .PLE_UNDEFINED }
  stopPhase := .returned
  ended := []
  startPhase := .idle
  deliveries := []

variable (s : AsyncState E P C)

def withStop (toStop : StopState E P C) : AsyncState E P C := { s with toStop := toStop }

def gotoStart (startPhase : StartPhase E) : AsyncState E P C := { s with startPhase := startPhase }

def Scheduling : Prop :=
  s.startPhase = .idle ∧ (s.stopPhase = .running ∨ s.stopPhase = .returned)

instance : Decidable s.Scheduling := inferInstanceAs (Decidable (_ ∧ _))

def Idle : Prop :=
  s.startPhase = .idle ∧ (s.stopPhase = .running ∨ s.stopPhase = .returned) ∧
    match s.phase with
    | .idle => True
    | _ => False

instance : Decidable s.Idle :=
  match h : s.phase with
  | .idle =>
    decidable_of_iff (s.startPhase = .idle ∧ (s.stopPhase = .running ∨ s.stopPhase = .returned))
      (by simp [Idle, h])
  | .reaping _ | .dispatching _ | .measuring .. | .asking .. | .producing _ | .stopping =>
    .isFalse (by simp [Idle, h])

/-- The next step of `start`; nothing when an assertion fails. -/
def startNext (order : List E) (call : StartCall) : Option (AsyncState E P C) :=
  match s.startPhase, call with
  | .idle, _ =>
    -- the user may start what is not running
    if s.Idle ∧ s.stopPhase = .returned then
      some (s.gotoStart (if net.children = [] then .idle else .initing net.children []))
    else none
  | .initing (e :: todo) initialized, _ =>
    if s.m_state e = .PLE_UNDEFINED then some (s.gotoStart (.inInit e todo initialized)) else none
  | .initing [] _, _ =>
    let m_readyQueue : E → List Nat := fun _ => []
    some ({ s with m_readyQueue := m_readyQueue }.gotoStart .checking)
  | .inInit e todo initialized, .setError =>
    some ((s.withStop (s.toStop.setState e .PLE_ERROR)).gotoStart (.inInit e todo initialized))
  | .inInit e todo initialized, .ends (.returns true) _ =>
    some ((s.withStop (s.toStop.setState e .PLE_INITIALIZED)).gotoStart
      (.initing todo (e :: initialized)))
  | .inInit e todo initialized, .ends (.returns false) errorType =>
    let s := s.withStop (s.toStop.setState e .PLE_ERROR)
    if errorType = .PlvNoError then some (s.gotoStart (.initing todo (e :: initialized)))
    else if order.Perm initialized then
      some (s.gotoStart (.undoing ((e, false) :: order.map fun e => (e, false))))
    else none
  | .inInit e _ initialized, .ends .throwsPlv _ | .inInit e _ initialized, .ends .throwsOther _ =>
    if order.Perm initialized then
      some (s.gotoStart (.undoing ((e, false) :: order.map fun e => (e, false))))
    else none
  | .checking, .checked requiredPins acyclic =>
    some (s.gotoStart
      (if requiredPins then if acyclic then .starting net.children [] else .idle
      else .undoing (net.children.map fun e => (e, false))))
  | .starting (e :: todo) started, _ =>
    if s.m_state e = .PLE_INITIALIZED then some (s.gotoStart (.inStart e todo started)) else none
  | .starting [] _, _ => some { s.gotoStart .idle with stopPhase := .running, ended := [] }
  | .inStart e todo started, .setError =>
    some ((s.withStop (s.toStop.setState e .PLE_ERROR)).gotoStart (.inStart e todo started))
  | .inStart e todo started, .ends (.returns true) _ =>
    some ((s.withStop (s.toStop.setState e .PLE_STARTED)).gotoStart (.starting todo (e :: started)))
  | .inStart e _ started, .ends (.returns false) _ =>
    if order.Perm started then
      some ((s.withStop (s.toStop.setState e .PLE_ERROR)).gotoStart
        (.undoing ((e, false) :: order.map fun e => (e, true))))
    else none
  | .inStart e _ started, .ends .throwsPlv _ =>
    if order.Perm started then
      some (s.gotoStart (.undoing ((e, false) :: order.map fun e => (e, true))))
    else none
  | .inStart .., .ends .throwsOther _ => some (s.gotoStart .idle)
  | .undoing ((e, true) :: todo), _ =>
    if s.m_state e = .PLE_UNDEFINED ∨ s.m_state e = .PLE_INITIALIZED then none
    else some (s.gotoStart (.inStop e todo))
  | .undoing ((e, false) :: todo), _ =>
    if s.m_state e = .PLE_ERROR ∨ s.m_state e = .PLE_INITIALIZED then
      some (s.gotoStart (.inDeinit e todo))
    else none
  | .undoing [], _ => some (s.gotoStart .idle)
  | .inStop e todo, .setError =>
    some ((s.withStop (s.toStop.setState e .PLE_ERROR)).gotoStart (.inStop e todo))
  | .inStop e todo, .ends (.returns b) _ =>
    some ((s.withStop (s.toStop.setState e (if b then .PLE_INITIALIZED else .PLE_ERROR))).gotoStart
      (.undoing ((e, false) :: todo)))
  | .inDeinit e todo, .setError =>
    some ((s.withStop (s.toStop.setState e .PLE_ERROR)).gotoStart (.inDeinit e todo))
  | .inDeinit e todo, .ends (.returns b) _ =>
    some ((s.withStop (s.toStop.setState e (if b then .PLE_UNDEFINED else .PLE_ERROR))).gotoStart
      (.undoing todo))
  | .inInit .., .checked .. | .inStart .., .checked .. | .checking, _ | .inStop .., _
  | .inDeinit .., _ => none

/-- `stop` has returned to `schedule` or to the event loop, and `schedule` returns, too. -/
def afterStop (t : StopState E P C) : StopState E P C :=
  match t.stopPhase with
  | .returned => { t with phase := .idle }
  | _ => t

def step : AsyncEvent E P C → Option (AsyncState E P C)
  | .setError e emits =>
    some { s.withStop (s.toStop.setState e .PLE_ERROR) with
      deliveries := if emits then s.deliveries ++ [e] else s.deliveries }
  | .deliver =>
    match s.deliveries with
    | [] => none
    | _ :: deliveries =>
      if s.Idle ∧ s.stopPhase = .running then
        some { s.withStop (s.toStop.goto (.waiting [])) with deliveries := deliveries }
      else none
  | .pipeline (.schedule order answer) =>
    if s.Scheduling then
      (s.pipeline.schedule net order answer).map fun pipeline =>
        s.withStop (s.toStop.withPipeline pipeline)
    else none
  | .pipeline (.work e action) =>
    (s.toStop.step net (.pipeline (.work e action))).map s.withStop
  | .stop order hook =>
    if s.startPhase = .idle then
      (s.toStop.next net order hook).map fun t => s.withStop (afterStop t)
    else none
  | .start order call => s.startNext net order call

end AsyncState

/-- The assertion that `stop` is called while the pipeline is running, or one on the state of
an element in `schedule`, `dispatch`, `__stop` or `__deinit`, fails in the step that is taken. -/
inductive Fails (s : AsyncState E P C) : AsyncEvent E P C → Prop where
  | delivered {e : E} {deliveries : List E} (hd : s.deliveries = e :: deliveries) (hidle : s.Idle)
      (hnot : s.stopPhase ≠ .running) : Fails s .deliver
  | failedRun {order : List E} {hook : Hook} (hphase : s.phase = .stopping)
      (hnot : s.stopPhase = .returned) : Fails s (.stop order hook)
  | ready {e : E} {todo order : List E} {answer : Bool} (hs : s.Scheduling)
      (hphase : s.phase = .dispatching (e :: todo)) (hready : s.m_readyQueue e ≠ [])
      (hqueue : e ∉ s.m_runQueue) (hstate : s.m_state e ≠ .PLE_STARTED) :
      Fails s (.pipeline (.schedule order answer))
  | producing {e : E} {todo order : List E} {answer : Bool} (hs : s.Scheduling)
      (hphase : s.phase = .producing (e :: todo)) (hstate : s.m_state e ≠ .PLE_STARTED) :
      Fails s (.pipeline (.schedule order answer))
  | leaving {e : E} {todo order : List E} {hook : Hook} (hphase : s.stopPhase = .leaving (e :: todo))
      (hstate : s.m_state e = .PLE_UNDEFINED ∨ s.m_state e = .PLE_INITIALIZED) :
      Fails s (.stop order hook)
  | stopped {e : E} {b : Bool} {todo order : List E} {hook : Hook}
      (hphase : s.stopPhase = .stopped e b todo)
      (hstate : ¬ (s.m_state e = .PLE_ERROR ∨ s.m_state e = .PLE_INITIALIZED)) :
      Fails s (.stop order hook)
  | undoingStop {e : E} {todo : List (E × Bool)} {order : List E} {call : StartCall}
      (hphase : s.startPhase = .undoing ((e, true) :: todo))
      (hstate : s.m_state e = .PLE_UNDEFINED ∨ s.m_state e = .PLE_INITIALIZED) :
      Fails s (.start order call)
  | undoingDeinit {e : E} {todo : List (E × Bool)} {order : List E} {call : StartCall}
      (hphase : s.startPhase = .undoing ((e, false) :: todo))
      (hstate : ¬ (s.m_state e = .PLE_ERROR ∨ s.m_state e = .PLE_INITIALIZED)) :
      Fails s (.start order call)

/-- The next step of `schedule` is to have the element dispatched. -/
def AsyncState.Due (s : AsyncState E P C) (e : E) : Prop :=
  match s.phase with
  | .dispatching (e' :: _) => e = e' ∧ e ∉ s.m_runQueue ∧ s.m_readyQueue e ≠ []
  | .producing (e' :: _) => e = e'
  | _ => False

/-- An error is delivered, and `schedule` called, while the pipeline runs. It has no
element dispatched that an error has hit between two runs. The wait loop of `stop` takes
PLE_ERROR for the end of a run only when the run is over. An `init()` that throws has called
`setError` before. -/
def Safe (s : AsyncState E P C) : AsyncEvent E P C → Prop
  | .setError .. | .pipeline (.work ..) => True
  | .deliver => s.stopPhase = .running
  | .pipeline (.schedule ..) => s.stopPhase = .running ∧ ∀ e, s.Due e → s.m_state e ≠ .PLE_ERROR
  | .stop order hook => SeesFinished s.toStop (.stop order hook)
  | .start _ call =>
    match s.startPhase with
    | .inInit e _ _ => call.throws → s.m_state e = .PLE_ERROR
    | _ => True

/-- The step that an assertion stands in the way of is not taken. -/
theorem Fails.stuck {s : AsyncState E P C} {event : AsyncEvent E P C} (h : Fails s event) :
    s.step net event = none := by
  cases h with
  | delivered hd hidle hnot => simp [AsyncState.step, hd, hnot]
  | failedRun hphase hnot => simp [AsyncState.step, StopState.next, hnot]
  | @ready e todo order answer hs hphase hready hqueue hstate =>
    obtain ⟨serial, queue, hcons⟩ := List.exists_cons_of_ne_nil hready
    have hnone : s.pipeline.schedule net order answer = none := by
      simp only [PipelineState.schedule, hphase, hcons, if_neg hqueue]
      exact if_neg hstate
    simp [AsyncState.step, hnone]
  | @producing e todo order answer hs hphase hstate =>
    have hnone : s.pipeline.schedule net order answer = none := by
      simp only [PipelineState.schedule, hphase]
      exact if_neg hstate
    simp [AsyncState.step, hnone]
  | leaving hphase hstate => simp [AsyncState.step, StopState.next, hphase, hstate]
  | stopped hphase hstate => simp [AsyncState.step, StopState.next, hphase, hstate]
  | undoingStop hphase hstate => simp [AsyncState.step, AsyncState.startNext, hphase, hstate]
  | undoingDeinit hphase hstate => simp [AsyncState.step, AsyncState.startNext, hphase, hstate]

end

end ParleVision.Runtime
