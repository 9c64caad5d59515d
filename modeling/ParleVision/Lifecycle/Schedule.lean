import ParleVision.Lifecycle.Start
import ParleVision.Lib.Run

namespace ParleVision.Lifecycle
open Lib ParleVision.Graph

/-- A RunItem that was dispatched, with its future: what `run` has returned. -/
structure Dispatched extends RunItem where
  m_result : Option Bool
deriving DecidableEq, Repr

/-- A pipeline, and the event loop it lives in. -/
structure EventLoop extends pipeline : Pipeline where
  m_serial : UInt32
  m_runQueue : QMap Dispatched
  m_testCount : Nat
  /-- the connections to `schedule()` that a timeout being emitted has still to call -/
  pending : Nat

/-- `PipelineElement::run`, from the dispatch to the return. -/
def ElementState.run (e : ElementState) (kind : Kind) (call : Call) :
    Option (ElementState × Bool) :=
  if e.m_state = .PLE_DISPATCHED then
    let e := (e.setState .PLE_RUNNING).during call.setError
    match call.ending with
    | .returns b =>
      -- a producer that returns false is in error, a processor only if it says so
      let e := if kind = .producer ∧ b = false then e.setState .PLE_ERROR else e
      some (if e.m_state = .PLE_ERROR then e else e.setState .PLE_DONE, b)
    | .throwsPlv | .throwsOther => some (e.setError .PlvPipelineRuntimeError, false)
  else none

namespace EventLoop

def notStarted (graph : Graph.Pipeline) : EventLoop where
  pipeline := {
    toPipeline := graph
    states := fun _ => ⟨.PLE_UNDEFINED, .PlvNoError⟩
    m_readyQueue := ∅
    m_ordering := []
    m_running := false
    scheduleConnections := 0
    heartbeat := false }
  m_serial := 1
  m_runQueue := ∅
  m_testCount := 0
  pending := 0

def setState (s : EventLoop) (p : ElemPtr) (state : State) : EventLoop :=
  { s with states := Function.update s.states p ((s.states p).setState state) }

/-- `Pipeline::stop`, which waits for the runs in progress; nothing when an assertion fails. -/
def stop (hooks : ElemPtr → Hooks) (s : EventLoop) : Option EventLoop :=
  if s.m_running then
    let s := (valuesOf s.m_runQueue).foldl (fun s item => s.setState item.element .PLE_STARTED) s
    match Pipeline.stopEach hooks (valuesOf s.m_children) s.states with
    | none => none
    | some st =>
      some { s with
        states := st
        heartbeat := false
        m_runQueue := ∅
        m_readyQueue := ∅
        m_testCount := 0
        m_running := false }
  else none

/-- The loop of `schedule` over the run queue: it removes what has finished, and it ends early
at a run that failed. -/
def removeStale : List Int → EventLoop → EventLoop × Bool
  | [], s => (s, true)
  | k :: ks, s =>
    match s.m_runQueue[k]? with
    | some ⟨item, some true⟩ =>
      let s := s.setState item.element .PLE_STARTED
      removeStale ks { s with m_runQueue := s.m_runQueue.erase k }
    | some ⟨_, some false⟩ => (s, false)
    | some ⟨_, none⟩ | none => removeStale ks s

def dispatch (s : EventLoop) (item : RunItem) : Option EventLoop :=
  if (s.states item.element).m_state = .PLE_STARTED then
    let s := s.setState item.element .PLE_DISPATCHED
    some { s with m_runQueue := s.m_runQueue.insert (s.elems item.element).m_id ⟨item, none⟩ }
  else none

def dispatchProcessors : List Int → EventLoop → Option EventLoop
  | [], s => some s
  | k :: ks, s =>
    match s.m_readyQueue[k]? with
    | some (item :: queue) =>
      if (s.elems item.element).m_id ∈ s.m_runQueue then dispatchProcessors ks s
      else match s.dispatch item with
      | none => none
      | some s => dispatchProcessors ks { s with m_readyQueue := s.m_readyQueue.insert k queue }
    | some [] | none => dispatchProcessors ks s

def dispatchProducers : List ElemPtr → EventLoop → Option EventLoop
  | [], s => some s
  | p :: ps, s =>
    match s.dispatch ⟨p, s.m_serial⟩ with
    | none => none
    | some s => dispatchProducers ps s

def ready (readyToProduce : ElemPtr → Bool) (s : EventLoop) (p : ElemPtr) : Bool :=
  decide ((s.states p).m_state ∈ [State.PLE_UNDEFINED, .PLE_INITIALIZED, .PLE_STARTED]) &&
    readyToProduce p

/-- What `schedule` finds outside the pipeline: the order of its hashes, whether the queues of
all connections are short enough, and what the producers answer. -/
structure Surroundings where
  order : HashOrder Int
  runProducers : Bool
  readyToProduce : ElemPtr → Bool

def schedule (hooks : ElemPtr → Hooks) (w : Surroundings) (s : EventLoop) : Option EventLoop :=
  if s.m_testCount = 0 then
    match removeStale (w.order.order s.m_runQueue.keys) { s with m_testCount := 1 } with
    | (s, false) => s.stop hooks
    | (s, true) =>
      match dispatchProcessors (w.order.order s.m_readyQueue.keys) s with
      | none => none
      | some s =>
        if w.runProducers && (valuesOf s.m_producers).all (s.ready w.readyToProduce) then
          match dispatchProducers (valuesOf s.m_producers) s with
          | none => none
          | some s => some { s with m_serial := s.m_serial + 1, m_testCount := s.m_testCount - 1 }
        else some { s with m_testCount := s.m_testCount - 1 }
  else none

inductive Event where
  /-- the user changes the graph of a pipeline that is not running -/
  | edit (graph : Graph.Pipeline)
  | start (hooks : ElemPtr → Hooks) (h : Hashing)
  | stop (hooks : ElemPtr → Hooks)
  /-- the heartbeat emits its timeout -/
  | timeout
  /-- and the next of the connections to `schedule()` is called -/
  | schedule (hooks : ElemPtr → Hooks) (w : Surroundings)
  /-- a worker runs a dispatched item -/
  | run (id : Int) (call : Call)
  | pipelineDataConsumerReady (item : RunItem)

def step (s : EventLoop) : Event → Option EventLoop
  | .edit graph =>
    if s.pending = 0 ∧ s.m_running = false then
      some { s with pipeline := { s.pipeline with toPipeline := graph } }
    else none
  | .start hooks h =>
    if s.pending = 0 then (s.pipeline.start hooks h).map fun r => { s with pipeline := r.1 }
    else none
  | .stop hooks => if s.pending = 0 then s.stop hooks else none
  | .timeout =>
    if s.pending = 0 ∧ s.heartbeat then some { s with pending := s.scheduleConnections } else none
  | .schedule hooks w =>
    if s.pending = 0 then none
    else (schedule hooks w { s with pending := s.pending - 1 }).map fun s =>
      -- what was disconnected meanwhile is not called any more
      { s with pending := min s.pending s.scheduleConnections }
  | .run id call =>
    match s.m_runQueue[id]? with
    | some ⟨item, none⟩ =>
      match (s.states item.element).run (s.elems item.element).kind call with
      | none => none
      | some (e, result) =>
        some { s with
          states := Function.update s.states item.element e
          m_runQueue := s.m_runQueue.insert id ⟨item, some result⟩ }
    | some ⟨_, some _⟩ | none => none
  | .pipelineDataConsumerReady item =>
    match s.m_readyQueue[(s.elems item.element).m_id]? with
    | some queue =>
      some { s with m_readyQueue :=
        s.m_readyQueue.insert (s.elems item.element).m_id (queue ++ [item]) }
    | none => none

end EventLoop

end ParleVision.Lifecycle
