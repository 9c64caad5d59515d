import ParleVision.Graph.FreePin
import ParleVision.Lib.Run

namespace ParleVision.Gui
open Lib ParleVision.Graph

abbrev PinWidgetPtr := Nat

/-- The widget of an output pin is made with that of its element and never deleted; it is named by
its pin. That of an input pin is an object of its own. -/
structure InputPinWidget where
  m_inputPin : PinRef
  /-- the object was deleted -/
  deleted : Bool
deriving DecidableEq, Repr

structure PipelineElementWidget where
  /-- the lines, named by their connections -/
  lines : List ConnPtr
  inputPinWidgets : QMap PinWidgetPtr
  /-- the ids of the output pins that have a widget -/
  outputPinWidgets : List Int

/-- `getWidgetFor` an output pin, which is null when there is none. -/
def PipelineElementWidget.outputPinWidget (w : PipelineElementWidget) (out : PinRef) :
    Option PinRef :=
  if out.id ∈ w.outputPinWidgets then some out else none

structure ConnectionLine where
  fromPin : Option PinRef
  toPin : Option PinWidgetPtr
deriving DecidableEq, Repr

/-- What can be selected in a scene. -/
inductive GraphicsItem where
  | element (p : ElemPtr)
  | line (c : ConnPtr)
deriving DecidableEq, Repr

structure PipelineScene where
  m_pipeline : Pipeline
  /-- `isRunning()` of the pipeline -/
  isRunning : Bool
  items : Finset GraphicsItem
  elementWidgets : ElemPtr → Option PipelineElementWidget
  connectionLines : ConnPtr → Option ConnectionLine
  /-- the input pin widgets, of which those below `nextPinWidget` were constructed -/
  pinWidgets : PinWidgetPtr → InputPinWidget
  nextPinWidget : PinWidgetPtr
  /-- the line that the user draws, named by the output pin from which -/
  line : Option PinRef

namespace PipelineScene

def new (pipeline : Pipeline) : PipelineScene where
  m_pipeline := pipeline
  isRunning := false
  items := ∅
  elementWidgets _ := none
  connectionLines _ := none
  pinWidgets _ := ⟨⟨0, 0⟩, false⟩
  nextPinWidget := 0
  line := none

def modifyWidget (s : PipelineScene) (p : ElemPtr)
    (f : PipelineElementWidget → PipelineElementWidget) : PipelineScene :=
  { s with elementWidgets := Function.update s.elementWidgets p ((s.elementWidgets p).map f) }

def addInputPin (p : ElemPtr) (s : PipelineScene) (id : Int) : PipelineScene :=
  { s.modifyWidget p fun w =>
      { w with inputPinWidgets := w.inputPinWidgets.insert id s.nextPinWidget } with
    pinWidgets := Function.update s.pinWidgets s.nextPinWidget ⟨⟨p, id⟩, false⟩
    nextPinWidget := s.nextPinWidget + 1 }

/-- What a line reads of the widgets at its ends to draw itself: they must not be deleted. -/
def canRead (s : PipelineScene) (line : ConnectionLine) : Bool :=
  line.toPin.all fun q => !(s.pinWidgets q).deleted

def inputPinAdded (s : PipelineScene) (p : ElemPtr) (id : Int) : PipelineScene :=
  if (s.elementWidgets p).isSome then addInputPin p s id else s

/-- The slot of the element's widget, when there is one; nothing when its assertion fails. -/
def inputPinRemoved (s : PipelineScene) (p : ElemPtr) (id : Int) : Option PipelineScene :=
  match s.elementWidgets p with
  | none => some s
  | some w =>
    match w.inputPinWidgets[id]? with
    | none => none
    | some q => some { s.modifyWidget p fun w =>
        { w with inputPinWidgets := w.inputPinWidgets.erase id } with
        pinWidgets := Function.update s.pinWidgets q { s.pinWidgets q with deleted := true } }

section Added
variable (h : HashOrder Int)

/-- `add` of an element; nothing when its assertion fails. -/
def addElement (s : PipelineScene) (p : ElemPtr) : Option PipelineScene :=
  if (s.elementWidgets p).isSome then none
  else
    let e := s.m_pipeline.elems p
    let w : PipelineElementWidget := ⟨[], ∅, h.order e.m_outputPins.keys⟩
    let s := { s with elementWidgets := Function.update s.elementWidgets p (some w) }
    let s :=
      match e.kind with
      | .processor => (h.order e.m_inputPins.keys).foldl (addInputPin p) s
      | .producer => s
    some { s with items := insert (GraphicsItem.element p) s.items }

end Added

def addLine (s : PipelineScene) (p : ElemPtr) (c : ConnPtr) : PipelineScene :=
  s.modifyWidget p fun w => { w with lines := w.lines ++ [c] }

def removeLine (s : PipelineScene) (p : ElemPtr) (c : ConnPtr) : PipelineScene :=
  s.modifyWidget p fun w => { w with lines := w.lines.filter (· ≠ c) }

/-- `add` of a connection; nothing when a pointer is null or the assertion fails. -/
def addConnection (s : PipelineScene) (c : ConnPtr) : Option PipelineScene :=
  match (s.m_pipeline.conns c).m_producer, (s.m_pipeline.conns c).m_consumer with
  | some out, some inp =>
    match s.elementWidgets out.owner, s.elementWidgets inp.owner with
    | some source, some target =>
      let item : ConnectionLine :=
        ⟨source.outputPinWidget out, target.inputPinWidgets[inp.id]?⟩
      -- the constructor of the line updates its position
      if ¬ s.canRead item ∨ (s.connectionLines c).isSome then none
      else
        let s := { s with
          items := insert (GraphicsItem.line c) s.items
          connectionLines := Function.update s.connectionLines c (some item) }
        some ((s.addLine out.owner c).addLine inp.owner c)
    | _, _ => none
  | _, _ => none

def handleRemoveElement (s : PipelineScene) (p : ElemPtr) : PipelineScene :=
  if (s.elementWidgets p).isSome then { s with items := s.items.erase (.element p) } else s

/-- `handleRemove` of a connection; the line stays in the lists of the widgets. -/
def handleRemoveConnection (s : PipelineScene) (c : ConnPtr) : PipelineScene :=
  if (s.connectionLines c).isSome then { s with items := s.items.erase (.line c) } else s

/-- `PinConnection::disconnect`, where a TCPServerProcessor emits `inputPinRemoved`. -/
def disconnect (s : PipelineScene) (c : ConnPtr) : Option PipelineScene :=
  match (s.m_pipeline.conns c).m_consumer with
  | none => none
  | some inp => do
    let t ← s.m_pipeline.disconnect c
    let s' := { s with m_pipeline := t }
    if (s.m_pipeline.elems inp.owner).isTCPServer then s'.inputPinRemoved inp.owner inp.id
    else some s'

def threadUnsafeDisconnect (s : PipelineScene) (id : Int) : Option PipelineScene :=
  match s.m_pipeline.m_connections[id]? with
  | none => some s
  | some c => do
    let s ← s.disconnect c
    let t := { s.m_pipeline with m_connections := s.m_pipeline.m_connections.erase id }
    some ({ s with m_pipeline := t }.handleRemoveConnection c)

def disconnectInputs (p : ElemPtr) : List Int → PipelineScene → Option PipelineScene
  | [], s => some s
  | i :: is, s =>
    match (s.m_pipeline.inputPin ⟨p, i⟩).bind InputPin.m_connection with
    | none => disconnectInputs p is s
    | some c => do
      let s ← s.threadUnsafeDisconnect (s.m_pipeline.conns c).m_id
      disconnectInputs p is s

def disconnectEach : List ConnPtr → PipelineScene → Option PipelineScene
  | [], s => some s
  | c :: cs, s => do
    let s ← s.threadUnsafeDisconnect (s.m_pipeline.conns c).m_id
    disconnectEach cs s

def disconnectOutputs (p : ElemPtr) : List Int → PipelineScene → Option PipelineScene
  | [], s => some s
  | i :: is, s => do
    let s ← disconnectEach
      (((s.m_pipeline.outputPin ⟨p, i⟩).map OutputPin.m_connections).getD []) s
    disconnectOutputs p is s

section Calls
variable (isRegistered : Int → Bool) (h : HashOrder Int)

def disconnectInputPins (s : PipelineScene) (p : ElemPtr) : Option PipelineScene :=
  match (s.m_pipeline.elems p).kind with
  | .processor => disconnectInputs p (h.order (s.m_pipeline.elems p).m_inputPins.keys) s
  | .producer => some s

def removeConnectionsForElement (s : PipelineScene) (p : ElemPtr) : Option PipelineScene := do
  let s ← s.disconnectInputPins h p
  disconnectOutputs p (h.order (s.m_pipeline.elems p).m_outputPins.keys) s

def pipelineRemoveElement (s : PipelineScene) (id : Int) : Option PipelineScene :=
  match s.m_pipeline.m_children[id]? with
  | none => some s
  | some p => do
    let s ← s.removeConnectionsForElement h p
    let t := s.m_pipeline
    let t := { t with
      m_children := t.m_children.erase id
      m_producers := if id ∈ t.m_producers then t.m_producers.erase id else t.m_producers
      m_processors :=
        if id ∉ t.m_producers ∧ id ∈ t.m_processors then t.m_processors.erase id
        else t.m_processors
      m_changed := true }
    some ({ s with m_pipeline := t }.handleRemoveElement p)

/-- `Pipeline::connectPins`: a TCPServerProcessor emits `inputPinAdded` for the pin it adds, and
the pipeline emits `connectionAdded`. -/
def connectPins (s : PipelineScene) (out inp : PinRef) : Option PipelineScene :=
  match s.m_pipeline.connectPins isRegistered out inp with
  | none => none
  | some (t, .error _) => some { s with m_pipeline := t }
  | some (t, .ok _) =>
    let id := (s.m_pipeline.elems inp.owner).getNextInputPinId
    let c := s.m_pipeline.nextConn
    let s' := { s with m_pipeline := t }
    if (s.m_pipeline.elems inp.owner).isTCPServer then
      (s'.inputPinAdded inp.owner id).addConnection c
    else s'.addConnection c

def setPipeline (pipeline : Pipeline) : Option PipelineScene := do
  let s ← (valuesOf pipeline.m_children).foldlM (addElement h) (new pipeline)
  (valuesOf pipeline.m_connections).foldlM addConnection s

def removeConnection (s : PipelineScene) (c : ConnPtr) : Option PipelineScene :=
  if (s.connectionLines c).isNone then none
  else
    match (s.m_pipeline.conns c).m_producer, (s.m_pipeline.conns c).m_consumer with
    | some out, some inp =>
      match s.elementWidgets out.owner, s.elementWidgets inp.owner with
      | some _, some _ => do
        let s := { s with connectionLines := Function.update s.connectionLines c none }
        let s := (s.removeLine out.owner c).removeLine inp.owner c
        let s ← s.threadUnsafeDisconnect (s.m_pipeline.conns c).m_id
        some { s with items := s.items.erase (.line c) }
      | _, _ => none
    | _, _ => none

def removeElement (s : PipelineScene) (p : ElemPtr) : Option PipelineScene :=
  s.pipelineRemoveElement h (s.m_pipeline.elems p).m_id

def remove (s : PipelineScene) : GraphicsItem → Option PipelineScene
  | .element p => s.removeElement h p
  | .line c => s.removeConnection c

/-- `selectedItems()` has the selection in the order of a QSet. -/
def deleteSelected (s : PipelineScene) (selectedItems : List GraphicsItem) :
    Option PipelineScene :=
  if s.isRunning then some s else selectedItems.foldlM (remove h) s

/-- `dropEvent`, with the element that the factory constructed. -/
def dropEvent (s : PipelineScene) (p : ElemPtr) : Option PipelineScene :=
  if s.isRunning then some s
  else addElement h { s with m_pipeline := s.m_pipeline.addElement p } p

/-- A message tells the user why the pins are not connected. -/
def handleConnectionCreation (s : PipelineScene) (out inp : PinRef) : Option PipelineScene :=
  if s.isRunning then some s
  else
    match s.m_pipeline.canConnectPins isRegistered out inp with
    | none => none
    | some (t, false) => some { s with m_pipeline := t }
    | some (t, true) => connectPins isRegistered { s with m_pipeline := t } out inp

/-- The user lets go of the line over some pin widgets. A message is all that comes of those of
output pins, which are left out here. -/
def mouseReleaseEvent (s : PipelineScene) (targets : List PinRef) : Option PipelineScene :=
  match s.line with
  | none => some s
  | some out =>
    (targets.foldlM (fun s inp => handleConnectionCreation isRegistered s out inp) s).map fun s =>
      { s with line := none }

end Calls

/-- `event`, when the user has clicked on the widget of an output pin -/
def pinClicked (s : PipelineScene) (out : PinRef) : PipelineScene := { s with line := some out }

/-- `itemChange` of a widget that is moved; nothing when a line or a pin widget is gone. -/
def itemChange (s : PipelineScene) (p : ElemPtr) : Option PipelineScene :=
  match s.elementWidgets p with
  | none => none
  | some w =>
    if w.lines.all fun c => (s.connectionLines c).any s.canRead then some s else none

/-- `paint` of a line also needs a widget at both of its ends. -/
def canPaint (s : PipelineScene) : GraphicsItem → Bool
  | .element _ => true
  | .line c => (s.connectionLines c).any fun line =>
      line.fromPin.isSome && line.toPin.isSome && s.canRead line

def paint (s : PipelineScene) : Option PipelineScene :=
  if ∀ item ∈ s.items, s.canPaint item then some s else none

end PipelineScene

inductive SceneEvent where
  | drop (p : ElemPtr)
  | press (out : PinRef)
  | release (targets : List PinRef)
  | deleteSelected (selectedItems : List GraphicsItem)
  | move (p : ElemPtr)
  | paint
  /-- the pipeline was started or has stopped -/
  | setRunning (isRunning : Bool)

namespace PipelineScene

/-- One event; nothing when the program crashes. -/
def step (isRegistered : Int → Bool) (h : HashOrder Int) (s : PipelineScene) :
    SceneEvent → Option PipelineScene
  | .drop p => s.dropEvent h p
  | .press out => some (s.pinClicked out)
  | .release targets => s.mouseReleaseEvent isRegistered targets
  | .deleteSelected selectedItems => s.deleteSelected h selectedItems
  | .move p => s.itemChange p
  | .paint => s.paint
  | .setRunning isRunning => some { s with isRunning := isRunning }

/-- The pins have widgets, and those of their elements are in the scene. -/
structure CanClick (s : PipelineScene) (out inp : PinRef) : Prop where
  source : .element out.owner ∈ s.items
  target : .element inp.owner ∈ s.items
  output : ∃ w, s.elementWidgets out.owner = some w ∧ out.id ∈ w.outputPinWidgets
  input : ∃ w, s.elementWidgets inp.owner = some w ∧ inp.id ∈ w.inputPinWidgets

/-- The user acts on what is in the scene, and a dropped element is a new one. A line is still drawn
from a widget in the scene when it is let go over others, which nothing in the program looks at. -/
def Allowed (s : PipelineScene) : SceneEvent → Prop
  | .drop p => (s.m_pipeline.elems p).m_id = -1
  | .press out => .element out.owner ∈ s.items
  | .release targets => ∀ out, s.line = some out → ∀ inp ∈ targets, s.CanClick out inp
  | .deleteSelected selectedItems =>
    selectedItems.Nodup ∧ ∀ item ∈ selectedItems, item ∈ s.items
  | .move p => .element p ∈ s.items
  | .paint | .setRunning _ => True

theorem canClick_iff (s : PipelineScene) (out inp : PinRef) : s.CanClick out inp ↔
    .element out.owner ∈ s.items ∧ .element inp.owner ∈ s.items ∧
      (s.elementWidgets out.owner).any (fun w => out.id ∈ w.outputPinWidgets) = true ∧
      (s.elementWidgets inp.owner).any (fun w => inp.id ∈ w.inputPinWidgets) = true := by
  simp only [Option.any_eq_true, decide_eq_true_eq]
  constructor
  · intro h
    exact ⟨h.source, h.target, h.output, h.input⟩
  · rintro ⟨hsource, htarget, hout, hinp⟩
    exact ⟨hsource, htarget, hout, hinp⟩

instance (s : PipelineScene) (out inp : PinRef) : Decidable (s.CanClick out inp) :=
  decidable_of_iff _ (s.canClick_iff out inp).symm

instance (s : PipelineScene) (event : SceneEvent) : Decidable (s.Allowed event) :=
  match event with
  | .drop p => inferInstanceAs (Decidable ((s.m_pipeline.elems p).m_id = -1))
  | .press out => inferInstanceAs (Decidable (.element out.owner ∈ s.items))
  | .release targets =>
    match h : s.line with
    | none => .isTrue fun out hout => by cases h.symm.trans hout
    | some out => decidable_of_iff (∀ inp ∈ targets, s.CanClick out inp)
        ⟨fun hall out' hout' => by cases h.symm.trans hout'; exact hall, fun hall => hall out h⟩
  | .deleteSelected _ => inferInstanceAs (Decidable (_ ∧ _))
  | .move p => inferInstanceAs (Decidable (.element p ∈ s.items))
  | .paint | .setRunning _ => .isTrue trivial

end PipelineScene

end ParleVision.Gui
