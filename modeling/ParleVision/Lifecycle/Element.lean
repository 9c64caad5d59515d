import Mathlib.Logic.Function.Basic

namespace ParleVision.Lifecycle

inductive State where
  | PLE_UNDEFINED
  | PLE_INITIALIZED
  | PLE_STARTED
  | PLE_DISPATCHED
  | PLE_RUNNING
  | PLE_DONE
  | PLE_ERROR
deriving DecidableEq, Repr

inductive PlvErrorType where
  | PlvNoError
  | PlvNonFatalError
  | PlvPipelineInitError
  | PlvPipelineRuntimeError
  | PlvFatalError
deriving DecidableEq, Repr

/-- The part of a PipelineElement that the lifecycle functions read and write. -/
structure ElementState where
  m_state : State
  m_errorType : PlvErrorType
deriving DecidableEq, Repr

def ElementState.setState (e : ElementState) (state : State) : ElementState :=
  { e with m_state := state }

def ElementState.setError (e : ElementState) (type : PlvErrorType) : ElementState :=
  { e.setState .PLE_ERROR with m_errorType := type }

/-- How a call of a virtual function ends. -/
inductive Ending where
  | returns (b : Bool)
  | throwsPlv
  | throwsOther
deriving DecidableEq, Repr

/-- A call of a virtual function: the error it sets last, if any, and how it ends. -/
structure Call where
  setError : Option PlvErrorType
  ending : Ending
deriving DecidableEq, Repr

structure SafeCall where
  setError : Option PlvErrorType
  returns : Bool
deriving DecidableEq, Repr

/-- What the implementations of the virtual functions do when they are called. -/
structure Hooks where
  init : Call
  deinit : SafeCall
  start : Call
  stop : SafeCall
deriving DecidableEq, Repr

def ElementState.during (e : ElementState) (error : Option PlvErrorType) : ElementState :=
  match error with
  | some type => e.setError type
  | none => e

namespace ElementState

/-- `__init`; nothing when the assertion fails. -/
def init (e : ElementState) (call : Call) : Option (ElementState × Ending) :=
  if e.m_state = .PLE_UNDEFINED then
    let e := e.during call.setError
    match call.ending with
    | .returns true => some (e.setState .PLE_INITIALIZED, .returns true)
    | .returns false => some (e.setState .PLE_ERROR, .returns false)
    | thrown => some (e, thrown)
  else none

def deinit (e : ElementState) (call : SafeCall) : Option (ElementState × Bool) :=
  if e.m_state = .PLE_ERROR ∨ e.m_state = .PLE_INITIALIZED then
    let e := e.during call.setError
    if call.returns then some ({ e.setState .PLE_UNDEFINED with m_errorType := .PlvNoError }, true)
    else some (e.setState .PLE_ERROR, false)
  else none

def start (e : ElementState) (call : Call) : Option (ElementState × Ending) :=
  if e.m_state = .PLE_INITIALIZED then
    let e := e.during call.setError
    match call.ending with
    | .returns true => some (e.setState .PLE_STARTED, .returns true)
    | .returns false => some (e.setState .PLE_ERROR, .returns false)
    | thrown => some (e, thrown)
  else none

/-- `getState() >= PLE_STARTED` -/
def atLeastStarted (e : ElementState) : Bool :=
  e.m_state ≠ .PLE_UNDEFINED && e.m_state ≠ .PLE_INITIALIZED

def stop (e : ElementState) (call : SafeCall) : Option (ElementState × Bool) :=
  if e.atLeastStarted then
    let e := e.during call.setError
    if call.returns then some (e.setState .PLE_INITIALIZED, true)
    else some (e.setState .PLE_ERROR, false)
  else none

end ElementState

end ParleVision.Lifecycle
