import ParleVision.Graph.Ordering
import ParleVision.Lifecycle.Element

namespace ParleVision.Lifecycle
open Lib ParleVision.Graph

structure RunItem where
  element : ElemPtr
  serial : UInt32
deriving DecidableEq, Repr

structure Pipeline extends Graph.Pipeline where
  states : ElemPtr → ElementState
  m_readyQueue : QMap (List RunItem)
  m_ordering : List ElemPtr
  m_running : Bool
  /-- the connections from the timeout of `m_heartbeat` to `schedule()` -/
  scheduleConnections : Nat
  /-- `m_heartbeat` is ticking -/
  heartbeat : Bool

inductive StartExit where
  | empty
  | initFailed
  | requiredPins
  | cycle
  | startFailed
  /-- an exception that is not a plv::Exception leaves the function -/
  | escaped
  | started
deriving DecidableEq, Repr

/-- The orders in which the QHash of pins and the QSets of elements are walked. -/
structure Hashing where
  pins : HashOrder Int
  elements : HashOrder ElemPtr

namespace Pipeline

abbrev States := ElemPtr → ElementState

section Calls
variable (hooks : ElemPtr → Hooks)

/-- `__deinit` of each element; a failing one is only reported. -/
def deinitEach : List ElemPtr → States → Option States
  | [], st => some st
  | p :: ps, st =>
    match (st p).deinit (hooks p).deinit with
    | none => none
    | some (e, _) => deinitEach ps (Function.update st p e)

def stopEach : List ElemPtr → States → Option States
  | [], st => some st
  | p :: ps, st =>
    match (st p).stop (hooks p).stop with
    | none => none
    | some (e, _) =>
      match e.deinit (hooks p).deinit with
      | none => none
      | some (e, _) => stopEach ps (Function.update st p e)

/-- The error type `Pipeline::init` decides on. -/
def initError (e : ElementState) : Ending → PlvErrorType
  | .returns true => .PlvNoError
  | .returns false => e.m_errorType
  | .throwsPlv | .throwsOther => .PlvPipelineRuntimeError

/-- The loop of `Pipeline::init`: the elements initialised, or nothing after a failure. -/
def initLoop (order : HashOrder ElemPtr) :
    List ElemPtr → List ElemPtr → States → Option (States × Option (List ElemPtr))
  | [], initialized, st => some (st, some initialized)
  | p :: ps, initialized, st =>
    match (st p).init (hooks p).init with
    | none => none
    | some (e, ending) =>
      let st := Function.update st p e
      if initError e ending ≠ .PlvNoError then
        match deinitEach hooks (p :: order.order initialized) st with
        | none => none
        | some st => some (st, none)
      else initLoop order ps (initialized ++ [p]) st

def init (order : HashOrder ElemPtr) (s : Pipeline) : Option (Pipeline × Bool) :=
  match initLoop hooks order (valuesOf s.m_children) [] s.states with
  | none => none
  | some (st, none) => some ({ s with states := st }, false)
  | some (st, some initialized) =>
    some ({ s with
      states := st
      m_readyQueue := (order.order initialized).foldl
        (fun queue p => queue.insert (s.elems p).m_id []) s.m_readyQueue
      scheduleConnections := s.scheduleConnections + 1 }, true)

/-- `Pipeline::deinit`; the loop meant for the ready queue tests the exhausted
iterator over the children, so it is never entered. -/
def deinit (s : Pipeline) : Option Pipeline :=
  match deinitEach hooks (valuesOf s.m_children) s.states with
  | none => none
  | some st => some { s with states := st, scheduleConnections := 0 }

inductive LoopEnd where
  | finished
  | error
  | escaped
deriving DecidableEq, Repr

def startLoop : List ElemPtr → List ElemPtr → States → Option (States × List ElemPtr × LoopEnd)
  | [], started, st => some (st, started, .finished)
  | p :: ps, started, st =>
    match (st p).start (hooks p).start with
    | none => none
    | some (e, .returns true) => startLoop ps (started ++ [p]) (Function.update st p e)
    | some (e, .throwsOther) => some (Function.update st p e, started, .escaped)
    | some (e, .returns false) | some (e, .throwsPlv) =>
      match e.deinit (hooks p).deinit with
      | none => none
      | some (e, _) => some (Function.update st p e, started, .error)

def startElements (order : HashOrder ElemPtr) (s : Pipeline) : Option (Pipeline × StartExit) :=
  match startLoop hooks (valuesOf s.m_children) [] s.states with
  | none => none
  | some (st, _, .escaped) => some ({ s with states := st }, .escaped)
  | some (st, started, .error) =>
    match stopEach hooks (order.order started) st with
    | none => none
    | some st => some ({ s with states := st }, .startFailed)
  | some (st, _, .finished) =>
    some ({ s with states := st, heartbeat := true, m_running := true }, .started)

/-- `Pipeline::start`; nothing when an assertion fails. -/
def start (h : Hashing) (s : Pipeline) : Option (Pipeline × StartExit) :=
  if s.m_children.size = 0 then some (s, .empty)
  else match s.init hooks h.elements with
  | none => none
  | some (s, false) => some (s, .initFailed)
  | some (s, true) =>
    if ¬ (valuesOf s.m_children).all s.requiredPinsConnected then
      (s.deinit hooks).map (·, .requiredPins)
    else match s.generateGraphOrdering h.pins h.elements [] with
    | none => none
    | some (false, ordering) => some ({ s with m_ordering := ordering }, .cycle)
    | some (true, ordering) => startElements hooks h.elements { s with m_ordering := ordering }

end Calls

end Pipeline

end ParleVision.Lifecycle
