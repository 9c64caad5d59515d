import ParleVision.Graph.Store

namespace ParleVision.Graph
open Lib

/-- The two containers `visit` threads: the ordering and the nodes on the call stack. -/
structure Visit (N : Type) where
  ordering : List N
  visited : List N

section Visit
variable {N : Type} [DecidableEq N]

/-- `visitAllIncomingConnections`: stops at the first node whose visit fails. -/
def visitAllIncomingConnections (visit : N → Visit N → Option (Bool × Visit N)) :
    List N → Visit N → Option (Bool × Visit N)
  | [], v => some (true, v)
  | n :: ns, v =>
    match visit n v with
    | some (true, v) => visitAllIncomingConnections visit ns v
    | r => r

/-- `DataProducer::visit` and `DataConsumer::visit`; `incoming` has nothing for a
producer. The number bounds the depth of the recursion. -/
def visit (incoming : N → Option (List N)) : Nat → N → Visit N → Option (Bool × Visit N)
  | 0, _, _ => none
  | depth + 1, n, v =>
    if n ∈ v.ordering then some (true, v)
    else if n ∈ v.visited then some (false, { v with ordering := v.ordering ++ [n] })
    else match incoming n with
    | none => some (true, { v with ordering := v.ordering ++ [n] })
    | some ns =>
      match visitAllIncomingConnections (visit incoming depth) ns
        { v with visited := n :: v.visited } with
      | some (true, v) => some (true, ⟨v.ordering ++ [n], v.visited.erase n⟩)
      | r => r

end Visit

namespace Pipeline

/-- `isEndNode`, which DataConsumer overrides. -/
def isEndNode (s : Pipeline) (p : ElemPtr) : Bool :=
  match (s.elems p).kind with
  | .processor => true
  | .producer => (valuesOf (s.elems p).m_outputPins).all fun pin => pin.m_connections.isEmpty

def requiredPinsConnected (s : Pipeline) (p : ElemPtr) : Bool :=
  match (s.elems p).kind with
  | .processor =>
    (valuesOf (s.elems p).m_inputPins).all fun pin => !pin.isRequired || pin.isConnected
  | .producer => true

/-- `inputPin->getConnection()->fromPin()->getOwner()` -/
def sourceOf (s : Pipeline) (p : ElemPtr) (id : Int) : Option ElemPtr := do
  let pin ← s.inputPin ⟨p, id⟩
  let c ← pin.m_connection
  let out ← (s.conns c).m_producer
  some out.owner

/-- The nodes `visitAllIncomingConnections` visits, in the order of the QHash of pins. -/
def incoming (s : Pipeline) (pins : HashOrder Int) (p : ElemPtr) : Option (List ElemPtr) :=
  match (s.elems p).kind with
  | .processor => some ((pins.order (s.elems p).m_inputPins.keys).filterMap (s.sourceOf p))
  | .producer => none

/-- `Pipeline::generateGraphOrdering`, which the end nodes reach in the order of a QSet. -/
def generateGraphOrdering (s : Pipeline) (pins : HashOrder Int) (nodes : HashOrder ElemPtr)
    (ordering : List ElemPtr) : Option (Bool × List ElemPtr) :=
  let endNodes := (valuesOf s.m_children).filter s.isEndNode
  if endNodes = [] then some (false, ordering)
  else
    (visitAllIncomingConnections (visit (s.incoming pins) (s.m_children.size + 1))
      (nodes.order endNodes) ⟨ordering, []⟩).map fun r => (r.1, r.2.ordering)

end Pipeline

end ParleVision.Graph
