import ParleVision.Lib.QMap

namespace ParleVision.Graph
open Lib

abbrev ElemPtr := Nat
abbrev ConnPtr := Nat

/-- A pin, named by the element that owns it and its id there. -/
structure PinRef where
  owner : ElemPtr
  id : Int
deriving DecidableEq, Repr

structure OutputPin where
  m_id : Int
  /-- `getTypeId()` -/
  m_typeId : Int
  /-- a CvMatDataOutputPin -/
  isCvMat : Bool
  m_connections : List ConnPtr
deriving DecidableEq, Repr

structure InputPin where
  m_id : Int
  /-- `getTypeId()` -/
  m_typeId : Int
  /-- a CvMatDataInputPin -/
  isCvMat : Bool
  /-- a DynamicInputPin -/
  isDynamicallyTyped : Bool
  isRequired : Bool
  m_connection : Option ConnPtr
deriving DecidableEq, Repr

def InputPin.isConnected (pin : InputPin) : Bool := pin.m_connection.isSome

def OutputPin.acceptsConnectionWith (pin : OutputPin) (inp : InputPin) : Bool :=
  !pin.isCvMat || inp.m_typeId == pin.m_typeId

def InputPin.acceptsConnectionWith (pin : InputPin) (out : OutputPin) : Bool :=
  !pin.isCvMat || out.m_typeId == pin.m_typeId

/-- `DynamicInputPin::setTypeId`; nothing when it returns false. -/
def InputPin.setTypeId (isRegistered : Int → Bool) (pin : InputPin) (type : Int) :
    Option InputPin :=
  if pin.isConnected ∨ ¬ isRegistered type then none
  else some { pin with m_typeId := type }

/-- The type check of `PinConnection::connect` and `canConnectPins`. -/
def InputPin.agreeOnType (isRegistered : Int → Bool) (pin : InputPin) (out : OutputPin) :
    Option InputPin :=
  if pin.isDynamicallyTyped then pin.setTypeId isRegistered out.m_typeId
  else if out.m_typeId ≠ pin.m_typeId then none
  else some pin

/-- The pin `createDynamicInputPin( "generic pin", this, CONNECTION_OPTIONAL )` makes. -/
def genericPin : InputPin where
  m_id := -1
  m_typeId := 0
  isCvMat := false
  isDynamicallyTyped := true
  isRequired := false
  m_connection := none

inductive Kind where
  | producer
  | processor
deriving DecidableEq, Repr

structure Element where
  /-- `metaObject()->className()` -/
  className : String
  kind : Kind
  /-- overrides the pin callbacks as TCPServerProcessor does -/
  isTCPServer : Bool
  m_id : Int
  m_inputPins : QMap InputPin
  m_outputPins : QMap OutputPin

def Element.getNextInputPinId (e : Element) : Int := countUp e.m_inputPins e.m_inputPins.size 0

def Element.addInputPin (e : Element) (pin : InputPin) : Element × Int :=
  if pin.m_id = -1 then
    let id := e.getNextInputPinId
    ({ e with m_inputPins := e.m_inputPins.insert id { pin with m_id := id } }, id)
  else if pin.m_id ∈ e.m_inputPins then (e, -1)
  else ({ e with m_inputPins := e.m_inputPins.insert pin.m_id pin }, pin.m_id)

/-- `DataConsumer::removeInputPin`; an id that is not in the table makes it erase the end. -/
def Element.removeInputPin (e : Element) (id : Int) : Option Element :=
  if id ∈ e.m_inputPins then some { e with m_inputPins := e.m_inputPins.erase id } else none

structure PinConnection where
  m_id : Int
  m_producer : Option PinRef
  m_consumer : Option PinRef
deriving DecidableEq, Repr

structure HashOrder (α : Type) where
  order : List α → List α
  perm : ∀ keys, (order keys).Perm keys

def HashOrder.ascending (α : Type) : HashOrder α := ⟨id, fun _ => .refl _⟩

structure Pipeline where
  /-- the element objects, in the pipeline or not -/
  elems : ElemPtr → Element
  /-- the connection objects, of which those below `nextConn` were constructed -/
  conns : ConnPtr → PinConnection
  nextConn : ConnPtr
  m_children : QMap ElemPtr
  m_producers : QMap ElemPtr
  m_processors : QMap ElemPtr
  m_connections : QMap ConnPtr
  m_changed : Bool

namespace Pipeline

/-- A constructed pipeline; the constructor does not initialise `m_changed`. -/
def new (elems : ElemPtr → Element) (m_changed : Bool) : Pipeline where
  elems := elems
  conns := fun _ => ⟨0, none, none⟩
  nextConn := 0
  m_children := ∅
  m_producers := ∅
  m_processors := ∅
  m_connections := ∅
  m_changed := m_changed

def inputPin (s : Pipeline) (r : PinRef) : Option InputPin := (s.elems r.owner).m_inputPins[r.id]?

def outputPin (s : Pipeline) (r : PinRef) : Option OutputPin :=
  (s.elems r.owner).m_outputPins[r.id]?

def setElem (s : Pipeline) (p : ElemPtr) (e : Element) : Pipeline :=
  { s with elems := Function.update s.elems p e }

def setInputPin (s : Pipeline) (r : PinRef) (pin : InputPin) : Pipeline :=
  s.setElem r.owner
    { s.elems r.owner with m_inputPins := (s.elems r.owner).m_inputPins.insert r.id pin }

def setOutputPin (s : Pipeline) (r : PinRef) (pin : OutputPin) : Pipeline :=
  s.setElem r.owner
    { s.elems r.owner with m_outputPins := (s.elems r.owner).m_outputPins.insert r.id pin }

def getNewPipelineElementId (s : Pipeline) : Int := scanKeys s.m_children.keys 0

def getNewPinConnectionId (s : Pipeline) : Int := scanKeys s.m_connections.keys 0

/-- The virtual callback of the owner; only TCPServerProcessor does something here. -/
def onInputConnectionSet (s : Pipeline) (r : PinRef) : Pipeline :=
  if (s.elems r.owner).isTCPServer then
    s.setElem r.owner ((s.elems r.owner).addInputPin genericPin).1
  else s

def onInputConnectionRemoved (s : Pipeline) (r : PinRef) (pin : InputPin) : Option Pipeline :=
  if (s.elems r.owner).isTCPServer then
    ((s.elems r.owner).removeInputPin pin.m_id).map (s.setElem r.owner)
  else some s

def addConnection (s : Pipeline) (r : PinRef) (pin : OutputPin) (c : ConnPtr) : Pipeline :=
  s.setOutputPin r { pin with m_connections := pin.m_connections ++ [c] }

/-- `IInputPin::setConnection`; nothing when its assertion fails. -/
def setConnection (s : Pipeline) (r : PinRef) (pin : InputPin) (c : ConnPtr) : Option Pipeline :=
  if pin.isConnected then none
  else some ((s.setInputPin r { pin with m_connection := some c }).onInputConnectionSet r)

/-- `IOutputPin::removeConnection`; nothing when the connection is not in the list. -/
def removeOutputConnection (s : Pipeline) (r : PinRef) (c : ConnPtr) : Option Pipeline :=
  match s.outputPin r with
  | some pin =>
    if c ∈ pin.m_connections then
      some (s.setOutputPin r { pin with m_connections := pin.m_connections.erase c })
    else none
  | none => none

/-- `IInputPin::removeConnection`; nothing when its assertion fails. -/
def removeInputConnection (s : Pipeline) (r : PinRef) : Option Pipeline :=
  match s.inputPin r with
  | some pin =>
    if pin.isConnected then
      let pin := { pin with m_connection := none }
      (s.setInputPin r pin).onInputConnectionRemoved r pin
    else none
  | none => none

inductive ConnectException where
  | illegalConnection
  | duplicateConnection
  | incompatibleType
deriving DecidableEq, Repr

section Connect
variable (isRegistered : Int → Bool)

/-- `PinConnection::connect` of a connection object made for these two pins. -/
def connect (s : Pipeline) (c : ConnPtr) (out inp : PinRef) :
    Option (Pipeline × Except ConnectException Unit) :=
  match s.outputPin out, s.inputPin inp with
  | some o, some i =>
    if inp.owner = out.owner then some (s, .error .illegalConnection)
    else if i.isConnected then some (s, .error .duplicateConnection)
    else match i.agreeOnType isRegistered o with
    | none => some (s, .error .incompatibleType)
    | some i =>
      let s := s.setInputPin inp i
      if ¬ o.acceptsConnectionWith i then some (s, .error .incompatibleType)
      else if ¬ i.acceptsConnectionWith o then some (s, .error .incompatibleType)
      else ((s.addConnection out o c).setConnection inp i c).map (·, .ok ())
  | _, _ => none

/-- `PinConnection::canConnectPins`, which gives a dynamic pin its type. -/
def canConnectPins (s : Pipeline) (out inp : PinRef) : Option (Pipeline × Bool) :=
  match s.outputPin out, s.inputPin inp with
  | some o, some i =>
    if out.owner = inp.owner then some (s, false)
    else if i.isConnected then some (s, false)
    else match i.agreeOnType isRegistered o with
    | none => some (s, false)
    | some i =>
      let s := s.setInputPin inp i
      if ¬ o.acceptsConnectionWith i then some (s, false)
      else if ¬ i.acceptsConnectionWith o then some (s, false)
      else some (s, true)
  | _, _ => none

/-- The object `new PinConnection(id, outputPin, inputPin)` before its `connect()`. -/
def newConnection (s : Pipeline) (id : Int) (out inp : PinRef) : Pipeline :=
  { s with
    conns := Function.update s.conns s.nextConn ⟨id, some out, some inp⟩
    nextConn := s.nextConn + 1 }

/-- `Pipeline::connectPins`: the constructor of the connection connects the pins or throws. -/
def connectPins (s : Pipeline) (out inp : PinRef) :
    Option (Pipeline × Except ConnectException Int) :=
  let id := s.getNewPinConnectionId
  match (s.newConnection id out inp).connect isRegistered s.nextConn out inp with
  | some (t, .ok ()) =>
    some ({ t with m_connections := t.m_connections.insert id s.nextConn }, .ok id)
  | some (s, .error e) => some (s, .error e)
  | none => none

end Connect

def disconnect (s : Pipeline) (c : ConnPtr) : Option Pipeline :=
  match (s.conns c).m_producer, (s.conns c).m_consumer with
  | some out, some inp => do
    let s ← s.removeOutputConnection out c
    let s ← s.removeInputConnection inp
    some { s with conns := Function.update s.conns c ⟨(s.conns c).m_id, none, none⟩ }
  | _, _ => none

/-- An unknown id is ignored (and stops a debug build of Qt). -/
def threadUnsafeDisconnect (s : Pipeline) (id : Int) : Option Pipeline :=
  match s.m_connections[id]? with
  | none => some s
  | some c => do
    let s ← s.disconnect c
    some { s with m_connections := s.m_connections.erase id }

def pinConnectionDisconnect (s : Pipeline) (id : Int) : Option Pipeline :=
  s.threadUnsafeDisconnect id

/-- The loop over a copy of the input pins in `removeConnectionsForElement`. A
pin that left the table meanwhile has lost its connection too. -/
def disconnectInputs (p : ElemPtr) : List Int → Pipeline → Option Pipeline
  | [], s => some s
  | i :: is, s =>
    match (s.inputPin ⟨p, i⟩).bind InputPin.m_connection with
    | none => disconnectInputs p is s
    | some c => do
      let s ← s.threadUnsafeDisconnect (s.conns c).m_id
      disconnectInputs p is s

def disconnectEach : List ConnPtr → Pipeline → Option Pipeline
  | [], s => some s
  | c :: cs, s => do
    let s ← s.threadUnsafeDisconnect (s.conns c).m_id
    disconnectEach cs s

def disconnectOutputs (p : ElemPtr) : List Int → Pipeline → Option Pipeline
  | [], s => some s
  | i :: is, s => do
    let s ← disconnectEach (((s.outputPin ⟨p, i⟩).map OutputPin.m_connections).getD []) s
    disconnectOutputs p is s

section Walk
variable (h : HashOrder Int)

/-- Only a DataConsumer has input pins. -/
def disconnectInputPins (s : Pipeline) (p : ElemPtr) : Option Pipeline :=
  match (s.elems p).kind with
  | .processor => disconnectInputs p (h.order (s.elems p).m_inputPins.keys) s
  | .producer => some s

def removeConnectionsForElement (s : Pipeline) (p : ElemPtr) : Option Pipeline := do
  let s ← s.disconnectInputPins h p
  disconnectOutputs p (h.order (s.elems p).m_outputPins.keys) s

def canAddElement (s : Pipeline) (p : ElemPtr) : Bool :=
  (s.elems p).m_id == -1 || decide ((s.elems p).m_id ∉ s.m_children)

/-- `Pipeline::addElement`; when `canAddElement` is false it only warns. -/
def addElement (s : Pipeline) (p : ElemPtr) : Pipeline :=
  let id := if (s.elems p).m_id = -1 then s.getNewPipelineElementId else (s.elems p).m_id
  { s with
    elems := Function.update s.elems p { s.elems p with m_id := id }
    m_children := s.m_children.insert id p
    m_producers :=
      if (s.elems p).kind = .producer then s.m_producers.insert id p else s.m_producers
    m_processors :=
      if (s.elems p).kind = .processor then s.m_processors.insert id p else s.m_processors
    m_changed := true }

def removeElement (s : Pipeline) (id : Int) : Option Pipeline :=
  match s.m_children[id]? with
  | none => some s
  | some p => do
    let s ← s.removeConnectionsForElement h p
    some { s with
      m_children := s.m_children.erase id
      m_producers := if id ∈ s.m_producers then s.m_producers.erase id else s.m_producers
      m_processors :=
        if id ∉ s.m_producers ∧ id ∈ s.m_processors then s.m_processors.erase id
        else s.m_processors
      m_changed := true }

def disconnectValues : List ConnPtr → Pipeline → Option Pipeline
  | [], s => some s
  | c :: cs, s => do
    let s ← s.disconnect c
    disconnectValues cs s

def removeAllConnections (s : Pipeline) : Option Pipeline := do
  let s ← disconnectValues (valuesOf s.m_connections) s
  some { s with m_connections := ∅ }

def removeConnectionsForEach : List ElemPtr → Pipeline → Option Pipeline
  | [], s => some s
  | p :: ps, s => do
    let s ← s.removeConnectionsForElement h p
    removeConnectionsForEach ps s

def removeAllElements (s : Pipeline) : Option Pipeline := do
  let s ← removeConnectionsForEach h (valuesOf s.m_children) s
  some { s with m_children := ∅, m_producers := ∅, m_processors := ∅ }

def clear (s : Pipeline) : Option Pipeline := do
  let s ← s.removeAllConnections
  let s ← s.removeAllElements h
  some { s with m_changed := true }

end Walk

end Pipeline

end ParleVision.Graph
