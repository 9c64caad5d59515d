import ParleVision.Runtime.Network
import ParleVision.Lifecycle.Element

namespace ParleVision.Runtime
open ParleVision.Lifecycle (State)

/-- A Data item, without its payload. -/
structure Data where
  serial : Nat
  isNull : Bool
deriving DecidableEq, Repr

/-- A serial is counted on without bound here. Where the program compares or looks up an
unsigned int, this is its value. -/
def unsigned (serial : Nat) : Nat := serial % 2 ^ 32

/-- The pins of which a `process()` has called `put()`, and `get()` or `clear()`. -/
structure Calls (P C : Type) where
  put : List P
  got : List C

/-- Where the run of an element is in its thread. -/
inductive Worker (P C : Type) where
  | idle
  | dispatched (serial : Nat)
  /-- `run` has set PLE_RUNNING -/
  | entered (serial : Nat)
  /-- in `preInput` -/
  | peeking (todo : List C) (nullDetected : Bool)
  /-- in `flushFirstOnSynchronousPins` -/
  | flushing (todo : List C)
  /-- in `process()` or `produce()` -/
  | processing (calls : Calls P C)
  /-- in `putVariant`, with the item on the queue of the first connection but not announced yet -/
  | putting (calls : Calls P C) (todo : List C) (pushed : Bool)
  /-- in `postOutput`, the same for NULL items -/
  | posting (todo : List C) (pushed : Bool) (result : Bool)
  /-- `__process` has returned -/
  | ending (result : Bool)
  /-- `run` has found that the state is not PLE_ERROR -/
  | notError (result : Bool)
  /-- an exception was thrown -/
  | thrown
  /-- and `setError` has set PLE_ERROR -/
  | leaving
  /-- the future is finished -/
  | finished (result : Bool)

/-- Where the thread of the pipeline is in `schedule`, with what its loops have still to do. -/
inductive Phase (E C : Type) where
  | idle
  | reaping (todo : List E)
  | dispatching (todo : List E)
  | measuring (todo : List C) (max : Nat)
  | asking (todo : List E) (allReady : Bool)
  | producing (todo : List E)
  /-- a run has failed, and `stop` is called -/
  | stopping
deriving DecidableEq

/-- The items and serials on their way through the pipeline, and a record of what has passed. -/
structure Flow (E C : Type) where
  m_serial : Nat
  m_readyQueue : E → List Nat
  /-- `PipelineElement::m_serial` -/
  processingSerial : E → Nat
  /-- `m_scoreboard`, with 0 for what is not in its hash -/
  m_lookup : E → Nat → Nat
  m_queue : C → List Data
  /-- the serials an element was dispatched for -/
  dispatched : E → List Nat
  /-- and those for which `__process` has begun -/
  runs : E → List Nat
  /-- the serials put on a connection, and those taken from it -/
  put : C → List Nat
  taken : C → List Nat
  /-- the serials that `newData` was called with for a connection -/
  notified : C → List Nat

structure PipelineState (E P C : Type) extends flow : Flow E C where
  phase : Phase E C
  m_runQueue : List E
  m_state : E → State
  worker : E → Worker P C

inductive Action (P C : Type) where
  | get (c : C)
  | clear (c : C)
  | put (p : P)
  | setError
  | returns (b : Bool)
  | throws

section
variable {E P C : Type} [DecidableEq E] [DecidableEq P] [DecidableEq C] (net : Network E P C)

namespace Flow

def dispatch (f : Flow E C) (e : E) (serial : Nat) : Flow E C :=
  { f with dispatched := Function.update f.dispatched e (f.dispatched e ++ [serial]) }

def setProcessingSerial (f : Flow E C) (e : E) (serial : Nat) : Flow E C :=
  { f with
    processingSerial := Function.update f.processingSerial e serial
    runs := Function.update f.runs e (f.runs e ++ [serial]) }

def push (f : Flow E C) (c : C) (isNull : Bool) : Flow E C :=
  let serial := f.processingSerial (net.source c)
  { f with
    m_queue := Function.update f.m_queue c (f.m_queue c ++ [⟨serial, isNull⟩])
    put := Function.update f.put c (f.put c ++ [serial]) }

/-- `PinConnection::get`; nothing when it throws. -/
def get (f : Flow E C) (c : C) : Option (Flow E C × Data) :=
  match f.m_queue c with
  | [] => none
  | d :: queue =>
    let f' : Flow E C := { f with
      m_queue := Function.update f.m_queue c queue
      taken := Function.update f.taken c (f.taken c ++ [d.serial]) }
    some (f', d)

def pipelineDataConsumerReady (f : Flow E C) (e : E) (serial : Nat) : Flow E C :=
  { f with m_readyQueue := Function.update f.m_readyQueue e (f.m_readyQueue e ++ [serial]) }

/-- `m_lookup.insert( serial, count )`, and `m_lookup.remove( serial )` with 0. -/
def setLookup (f : Flow E C) (e : E) (serial count : Nat) : Flow E C :=
  let m_lookup := Function.update (f.m_lookup e) (unsigned serial) count
  { f with m_lookup := Function.update f.m_lookup e m_lookup }

/-- What the assertion in `newData` and in `PipelineProducer::__process` demands. -/
def Later (f : Flow E C) (e : E) (serial : Nat) : Prop :=
  unsigned serial > unsigned (f.processingSerial e) ∨ unsigned serial = 0

instance (f : Flow E C) (e : E) (serial : Nat) : Decidable (f.Later e serial) :=
  inferInstanceAs (Decidable (_ ∨ _))

/-- `DataConsumer::newData`, after an item was put on a connection; nothing when the assertion
fails. -/
def newData (f : Flow E C) (c : C) : Option (Flow E C) :=
  let e := net.target c
  let serial := f.processingSerial (net.source c)
  let notified := Function.update f.notified c (f.notified c ++ [serial])
  let f : Flow E C := { f with notified := notified }
  if net.m_hasSynchronousPin e then
    if net.isSynchronous c then
      if f.Later e serial then
        -- `ScoreBoard::add`
        let count := f.m_lookup e (unsigned serial) + 1
        if count = net.m_pincount e then
          some ((f.setLookup e serial 0).pipelineDataConsumerReady e serial)
        else some (f.setLookup e serial count)
      else none
    else some f
  else some (f.pipelineDataConsumerReady e serial)

end Flow

namespace PipelineState

/-- A pipeline whose `start` has just returned. The serial goes on from an earlier session, and
so do entries of the scoreboards. -/
def started (serial : Nat) (stale : E → Nat → Nat) : PipelineState E P C where
  m_serial := serial
  m_readyQueue := fun _ => []
  processingSerial := fun _ => 0
  m_lookup := stale
  m_queue := fun _ => []
  dispatched := fun _ => []
  runs := fun _ => []
  put := fun _ => []
  taken := fun _ => []
  notified := fun _ => []
  phase := .idle
  m_runQueue := []
  m_state := fun _ => .PLE_STARTED
  worker := fun _ => .idle

variable (s : PipelineState E P C)

def setState (e : E) (state : State) : PipelineState E P C :=
  { s with m_state := Function.update s.m_state e state }

def goto (e : E) (w : Worker P C) : PipelineState E P C :=
  { s with worker := Function.update s.worker e w }

def withFlow (f : Flow E C) : PipelineState E P C := { s with flow := f }

/-- `RunItem::dispatch`, and the insertion in the run queue; nothing when the assertion fails. -/
def dispatch (e : E) (serial : Nat) : Option (PipelineState E P C) :=
  if s.m_state e = .PLE_STARTED then
    some ((({ s with m_runQueue := e :: s.m_runQueue }.withFlow
      (s.flow.dispatch e serial)).setState e .PLE_DISPATCHED).goto e (.dispatched serial))
  else none

/-- `getState() < PLE_DISPATCHED` -/
def beforeDispatched (e : E) : Bool :=
  s.m_state e ∈ [State.PLE_UNDEFINED, .PLE_INITIALIZED, .PLE_STARTED]

/-- The next step of `Pipeline::schedule`, given the order in which a hash hands out its keys and
what a producer answers when it is asked whether it is ready; nothing when an assertion fails. -/
def schedule (order : List E) (answer : Bool) : Option (PipelineState E P C) :=
  match s.phase with
  | .idle => if order.Perm s.m_runQueue then some { s with phase := .reaping order } else none
  | .reaping (e :: todo) =>
    match s.worker e with
    | .finished true =>
      some (({ s with phase := .reaping todo, m_runQueue := s.m_runQueue.erase e }.setState e
        .PLE_STARTED).goto e .idle)
    | .finished false => some { s with phase := .stopping }
    | _ => some { s with phase := .reaping todo }
  | .reaping [] =>
    if order.Perm net.children then some { s with phase := .dispatching order } else none
  | .dispatching (e :: todo) =>
    match s.m_readyQueue e with
    | [] => some { s with phase := .dispatching todo }
    | serial :: queue =>
      if e ∈ s.m_runQueue then some { s with phase := .dispatching todo }
      else ({ s with phase := .dispatching todo }.withFlow
        { s.flow with m_readyQueue := Function.update s.m_readyQueue e queue }).dispatch e serial
  | .dispatching [] => some { s with phase := .measuring net.connections 0 }
  | .measuring (c :: todo) max =>
    some { s with phase := .measuring todo (Nat.max (s.m_queue c).length max) }
  | .measuring [] max =>
    some { s with phase := if max < 5 then .asking net.producers true else .idle }
  | .asking (e :: todo) allReady =>
    some { s with phase := .asking todo (allReady && (s.beforeDispatched e && answer)) }
  | .asking [] allReady =>
    some { s with phase := if allReady then .producing net.producers else .idle }
  | .producing (e :: todo) => { s with phase := .producing todo }.dispatch e s.m_serial
  | .producing [] =>
    some ({ s with phase := .idle }.withFlow { s.flow with m_serial := s.m_serial + 1 })
  | .stopping => none

def process (e : E) (calls : Calls P C) : Action P C → Option (PipelineState E P C)
  | .get c =>
    if net.target c = e then
      if c ∈ calls.got then some (s.goto e .thrown)
      else match s.flow.get c with
      | none => some (s.goto e .thrown)
      | some (f, d) =>
        some ((s.withFlow f).goto e
          (if d.isNull then .thrown else .processing { calls with got := c :: calls.got }))
    else none
  | .clear c =>
    if net.target c = e then
      if c ∈ calls.got then some (s.goto e .thrown)
      else match s.flow.get c with
      | none => some (s.goto e .thrown)
      | some (f, _) =>
        some ((s.withFlow f).goto e (.processing { calls with got := c :: calls.got }))
    else none
  | .put p =>
    if net.owner p = e then
      if p ∈ calls.put then some (s.goto e .thrown)
      else some (s.goto e (.putting { calls with put := p :: calls.put } (net.outputs p) false))
    else none
  | .setError => some (s.setState e .PLE_ERROR)
  | .returns b => some (s.goto e (.posting (net.posts e calls.put) false b))
  | .throws => some (s.goto e .thrown)

/-- One step of `PipelineElement::run`; nothing when an assertion fails, or when there is no step
to take. -/
def work (e : E) (action : Action P C) : Option (PipelineState E P C) :=
  match s.worker e with
  | .dispatched serial =>
    if s.m_state e = .PLE_DISPATCHED then some ((s.setState e .PLE_RUNNING).goto e (.entered serial))
    else none
  | .entered serial =>
    if net.isProducer e then
      if s.flow.Later e serial then
        some ((s.withFlow (s.flow.setProcessingSerial e serial)).goto e (.processing ⟨[], []⟩))
      else none
    else if s.m_state e = .PLE_RUNNING then
      some ((s.withFlow (s.flow.setProcessingSerial e serial)).goto e
        (.peeking (net.inputs e) false))
    else none
  | .peeking (c :: todo) nullDetected =>
    if net.isSynchronous c && net.isDataGuaranteed c then
      match s.m_queue c with
      | [] => some (s.goto e .thrown)
      | d :: _ => some (s.goto e (.peeking todo (d.isNull || nullDetected)))
    else some (s.goto e (.peeking todo nullDetected))
  | .peeking [] nullDetected =>
    some (s.goto e (if nullDetected then .flushing (net.syncInputs e) else .processing ⟨[], []⟩))
  | .flushing (c :: todo) =>
    match s.flow.get c with
    | none => some (s.goto e .thrown)
    | some (f, _) => some ((s.withFlow f).goto e (.flushing todo))
  | .flushing [] => some (s.goto e (.posting (net.posts e []) false true))
  | .processing calls => s.process net e calls action
  | .putting calls (c :: todo) false =>
    some ((s.withFlow (s.flow.push net c false)).goto e (.putting calls (c :: todo) true))
  | .putting calls (c :: todo) true =>
    match s.flow.newData net c with
    | none => none
    | some f => some ((s.withFlow f).goto e (.putting calls todo false))
  | .putting calls [] _ => some (s.goto e (.processing calls))
  | .posting (c :: todo) false result =>
    some ((s.withFlow (s.flow.push net c true)).goto e (.posting (c :: todo) true result))
  | .posting (c :: todo) true result =>
    match s.flow.newData net c with
    | none => none
    | some f => some ((s.withFlow f).goto e (.posting todo false result))
  | .posting [] _ result =>
    -- a producer that returns false is in error
    let s := if net.isProducer e ∧ result = false then s.setState e .PLE_ERROR else s
    some (s.goto e (.ending result))
  | .ending result =>
    some (s.goto e (if s.m_state e = .PLE_ERROR then .finished result else .notError result))
  | .notError result => some ((s.setState e .PLE_DONE).goto e (.finished result))
  | .thrown => some ((s.setState e .PLE_ERROR).goto e .leaving)
  | .leaving => some (s.goto e (.finished false))
  | .idle | .finished _ => none

end PipelineState

inductive Event (E P C : Type) where
  /-- the thread of the pipeline -/
  | schedule (order : List E) (answer : Bool)
  /-- the thread that runs an element -/
  | work (e : E) (action : Action P C)

def PipelineState.step (s : PipelineState E P C) : Event E P C → Option (PipelineState E P C)
  | .schedule order answer => s.schedule net order answer
  | .work e action => s.work net e action

end

end ParleVision.Runtime
