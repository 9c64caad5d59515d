import ParleVision.Graph.Consistency

namespace ParleVision.Loader
open Lib ParleVision.Graph

/-- An `element` node; an id that is missing or not a number is none. -/
structure XmlElement where
  id : Option Int
  name : String
  /-- node names and texts below `properties` -/
  properties : List (String × String)
deriving DecidableEq, Repr

structure XmlConnection where
  sourceProcId : Option Int
  sourcePinId : Option Int
  sinkProcId : Option Int
  sinkPinId : Option Int
deriving DecidableEq, Repr

structure Document where
  elements : List XmlElement
  connections : List XmlConnection
deriving DecidableEq, Repr

def toInt (text : Option Int) : Int := text.getD 0

/-- The registered element types and the types `QMetaType` knows; `P` is what the
properties of an element hold. -/
structure Registry (P : Type) where
  isRegistered : Int → Bool
  /-- `elementId` and `construct` of PipelineElementFactory, by class name -/
  construct : String → Option (Element × P)
  /-- the texts `serialize` writes; nothing when a getter throws -/
  texts : String → P → Option (List (String × String))
  /-- `convertData` and `setProperty`, which never throw on what the loader hands them -/
  setProperty : String → P → String → String → P

/-- What the constructors of the repository guarantee. -/
structure Registry.Sound (R : Registry P) : Prop where
  className : ∀ name e props, R.construct name = some (e, props) → e.className = name
  m_id : ∀ name e props, R.construct name = some (e, props) → e.m_id = -1
  constructed : ∀ name e props, R.construct name = some (e, props) → e.Constructed
  /-- a TCPServerProcessor has one generic pin -/
  tcpServer : ∀ name e props, R.construct name = some (e, props) → e.isTCPServer = true →
    e.kind = .processor ∧
    ∀ i : Int, e.m_inputPins[i]? = if i = 0 then some { genericPin with m_id := 0 } else none

/-- A pipeline with the properties of its elements and the file it belongs to. -/
structure Pipeline (P : Type) extends Graph.Pipeline where
  props : ElemPtr → P
  /-- the element objects below were constructed -/
  nextElem : ElemPtr
  m_filename : String

namespace Pipeline

def serializeElement (R : Registry P) (s : Pipeline P) (p : ElemPtr) : Option XmlElement :=
  (R.texts (s.elems p).className (s.props p)).map fun properties =>
    ⟨some (s.elems p).m_id, (s.elems p).className, properties⟩

end Pipeline

/-- The four numbers written for a connection; nothing for a null pointer. -/
def serializeConnection (s : Graph.Pipeline) (c : ConnPtr) : Option XmlConnection := do
  let inp ← (s.conns c).m_consumer
  let out ← (s.conns c).m_producer
  let i ← s.inputPin inp
  let o ← s.outputPin out
  some ⟨some (s.elems out.owner).m_id, some o.m_id, some (s.elems inp.owner).m_id, some i.m_id⟩

namespace Pipeline

/-- `PipelineLoader::serialize`; nothing when it throws. -/
def serialize (R : Registry P) (s : Pipeline P) : Option Document := do
  let elements ← (valuesOf s.m_children).mapM (s.serializeElement R)
  let connections ← (valuesOf s.m_connections).mapM (serializeConnection s.toPipeline)
  some ⟨elements, connections⟩

inductive LoadError where
  | doesNotExist
  | cannotOpen
  | unknownType (name : String)
  | usedId (name : String) (id : Int)
  | invalidSourceId
  | invalidSinkId
  | sinkNotConsumer
  | noOutputPin (id : Int)
  | noInputPin (id : Int)
  | cannotConnectPins
  | connectPins (e : Graph.Pipeline.ConnectException)
deriving DecidableEq, Repr

/-- `construct` and `setId`: a new object, not yet in the pipeline. -/
def construct (s : Pipeline P) (e : Element) (props : P) (id : Int) : Pipeline P :=
  { s with
    elems := Function.update s.elems s.nextElem { e with m_id := id }
    props := Function.update s.props s.nextElem props
    nextElem := s.nextElem + 1 }

/-- One turn of the loop of `parseElements`. -/
def parseElement (R : Registry P) (s : Pipeline P) (x : XmlElement) :
    Pipeline P × Except LoadError Unit :=
  match R.construct x.name with
  | none => (s, .error (.unknownType x.name))
  | some (e, props) =>
    let p := s.nextElem
    let s := s.construct e props (toInt x.id)
    if s.canAddElement p then
      ({ s with
        toPipeline := s.addElement p
        props := Function.update s.props p
          (x.properties.foldl (fun props y => R.setProperty x.name props y.1 y.2) props) }, .ok ())
    else (s, .error (.usedId x.name (toInt x.id)))

def parseElements (R : Registry P) : List XmlElement → Pipeline P → Pipeline P × Except LoadError Unit
  | [], s => (s, .ok ())
  | x :: xs, s =>
    match s.parseElement R x with
    | (s, .ok ()) => parseElements R xs s
    | (s, .error e) => (s, .error e)

/-- One turn of the loop of `parseConnections`; nothing when an assertion fails. -/
def parseConnection (R : Registry P) (s : Pipeline P) (x : XmlConnection) :
    Option (Pipeline P × Except LoadError Unit) :=
  match s.m_children[toInt x.sourceProcId]?, s.m_children[toInt x.sinkProcId]? with
  | none, _ => some (s, .error .invalidSourceId)
  | some _, none => some (s, .error .invalidSinkId)
  | some source, some sink =>
    if (s.elems sink).kind ≠ .processor then some (s, .error .sinkNotConsumer)
    else
      let out : PinRef := ⟨source, toInt x.sourcePinId⟩
      let inp : PinRef := ⟨sink, toInt x.sinkPinId⟩
      if s.outputPin out = none then some (s, .error (.noOutputPin (toInt x.sourcePinId)))
      else if s.inputPin inp = none then some (s, .error (.noInputPin (toInt x.sinkPinId)))
      else match s.canConnectPins R.isRegistered out inp with
      | none => none
      | some (g, false) => some ({ s with toPipeline := g }, .error .cannotConnectPins)
      | some (g, true) =>
        match g.connectPins R.isRegistered out inp with
        | none => none
        | some (g, .ok _) => some ({ s with toPipeline := g }, .ok ())
        | some (g, .error e) => some ({ s with toPipeline := g }, .error (.connectPins e))

def parseConnections (R : Registry P) :
    List XmlConnection → Pipeline P → Option (Pipeline P × Except LoadError Unit)
  | [], s => some (s, .ok ())
  | x :: xs, s =>
    match s.parseConnection R x with
    | none => none
    | some (s, .ok ()) => parseConnections R xs s
    | some (s, .error e) => some (s, .error e)

def deserialize (R : Registry P) (doc : Document) (s : Pipeline P) :
    Option (Pipeline P × Except LoadError Unit) :=
  match parseElements R doc.elements s with
  | (s, .error e) => some (s, .error e)
  | (s, .ok ()) => parseConnections R doc.connections s

end Pipeline

end ParleVision.Loader
