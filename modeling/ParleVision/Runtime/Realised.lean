import ParleVision.Graph.Topological
import ParleVision.Lifecycle.Heartbeat
import ParleVision.Runtime.Complete
import ParleVision.Runtime.Dataflow

namespace ParleVision.Graph.Pipeline
open Lib ParleVision.Runtime

variable {s : Pipeline}

def Connected (s : Pipeline) (c : ConnPtr) : Prop := ∃ k : Int, s.m_connections[k]? = some c

def HasPin (s : Pipeline) (r : PinRef) : Prop := s.IsChild r.owner ∧ (s.outputPin r).isSome

/-- `m_synchronous` and `m_guarantee` of the input pins, which the constructors set and no edit
changes. -/
structure PinModes where
  isSynchronous : PinRef → Bool
  isDataGuaranteed : PinRef → Bool

theorem Inv.ends (hs : s.Inv) {c : ConnPtr} (hc : s.Connected c) :
    ∃ (k : Int) (out inp : PinRef), s.m_connections[k]? = some c ∧ s.Linked k c out inp := by
  obtain ⟨k, hk⟩ := hc
  obtain ⟨out, inp, hl⟩ := hs.linked k c hk
  exact ⟨k, out, inp, hk, hl⟩

theorem Inv.producer_isSome (hs : s.Inv) {c : ConnPtr} (hc : s.Connected c) :
    (s.conns c).m_producer.isSome := by
  obtain ⟨k, out, inp, -, hl⟩ := hs.ends hc
  simp [hl.conn]

theorem Inv.consumer_isSome (hs : s.Inv) {c : ConnPtr} (hc : s.Connected c) :
    (s.conns c).m_consumer.isSome := by
  obtain ⟨k, out, inp, -, hl⟩ := hs.ends hc
  simp [hl.conn]

theorem Inv.hasPin (hs : s.Inv) {c : ConnPtr} (hc : s.Connected c) :
    s.HasPin ((s.conns c).m_producer.get (hs.producer_isSome hc)) := by
  obtain ⟨k, out, inp, -, hl⟩ := hs.ends hc
  obtain ⟨o, i, ho, -⟩ := hl.pins
  simp only [hl.conn, Option.get_some]
  exact ⟨hl.source, by simp [ho]⟩

theorem Inv.isChild_target (hs : s.Inv) {c : ConnPtr} (hc : s.Connected c) :
    s.IsChild ((s.conns c).m_consumer.get (hs.consumer_isSome hc)).owner := by
  obtain ⟨k, out, inp, -, hl⟩ := hs.ends hc
  simp only [hl.conn, Option.get_some]
  exact hl.sink

section
variable (hs : s.Inv)

def fromPin (c : {c // s.Connected c}) : {r // s.HasPin r} :=
  ⟨(s.conns c.1).m_producer.get (hs.producer_isSome c.2), hs.hasPin c.2⟩

def toPin (c : {c // s.Connected c}) : PinRef :=
  (s.conns c.1).m_consumer.get (hs.consumer_isSome c.2)

/-- `toPin()->getOwner()` -/
def target (c : {c // s.Connected c}) : {p // s.IsChild p} :=
  ⟨(toPin hs c).owner, hs.isChild_target c.2⟩

def ownerOf (r : {r // s.HasPin r}) : {p // s.IsChild p} := ⟨r.1.owner, r.2.1⟩

end

theorem fromPin_eq_iff (hs : s.Inv) {c : {c // s.Connected c}} {r : {r // s.HasPin r}} :
    fromPin hs c = r ↔ (s.conns c.1).m_producer = some r.1 := by
  rw [Subtype.ext_iff, Option.eq_some_iff_get_eq]
  exact ⟨fun h => ⟨hs.producer_isSome c.2, h⟩, fun ⟨_, h⟩ => h⟩

theorem toPin_eq_iff (hs : s.Inv) {c : {c // s.Connected c}} {r : PinRef} :
    toPin hs c = r ↔ (s.conns c.1).m_consumer = some r := by
  rw [Option.eq_some_iff_get_eq]
  exact ⟨fun h => ⟨hs.consumer_isSome c.2, h⟩, fun ⟨_, h⟩ => h⟩

theorem attachWith_nodup {α : Type} {p : α → Prop} {l : List α} {h : ∀ a ∈ l, p a}
    (hl : l.Nodup) : (l.attachWith p h).Nodup := by
  rw [← List.nodup_map_iff Subtype.val_injective]
  simpa using hl

theorem isChild_of_mem : ∀ p ∈ valuesOf s.m_children, s.IsChild p := fun _ => mem_children.mp

theorem connected_of_mem : ∀ c ∈ valuesOf s.m_connections, s.Connected c :=
  fun _ => mem_valuesOf.mp

/-- The pins of an element in the order of the hash. -/
def outputRefs (s : Pipeline) (pins : HashOrder Int) (p : ElemPtr) : List PinRef :=
  (pins.order (s.elems p).m_outputPins.keys).map fun id => ⟨p, id⟩

theorem mem_outputRefs {pins : HashOrder Int} {p : ElemPtr} {r : PinRef} :
    r ∈ s.outputRefs pins p ↔ r.owner = p ∧ (s.outputPin r).isSome := by
  unfold outputRefs outputPin
  rw [List.mem_map]
  constructor
  · rintro ⟨id, hid, rfl⟩
    rw [(pins.perm _).mem_iff, Std.ExtTreeMap.mem_keys] at hid
    exact ⟨rfl, Std.ExtTreeMap.mem_iff_isSome_getElem?.mp hid⟩
  · rintro ⟨rfl, hr⟩
    refine ⟨r.id, ?_, rfl⟩
    rw [(pins.perm _).mem_iff, Std.ExtTreeMap.mem_keys]
    exact Std.ExtTreeMap.mem_iff_isSome_getElem?.mpr hr

theorem hasPin_of_mem (pins : HashOrder Int) (p : {p // s.IsChild p}) :
    ∀ r ∈ s.outputRefs pins p.1, s.HasPin r := by
  intro r hr
  obtain ⟨howner, hpin⟩ := mem_outputRefs.mp hr
  exact ⟨howner ▸ p.2, hpin⟩

theorem keys_nodup {α : Type} (m : QMap α) : m.keys.Nodup :=
  (Std.ExtTreeMap.distinct_keys (t := m)).imp fun h he => by simp [he] at h

def connectionsOf (s : Pipeline) (r : PinRef) : List ConnPtr :=
  ((s.outputPin r).map OutputPin.m_connections).getD []

theorem Inv.mem_connectionsOf (hs : s.Inv) {r : PinRef} {c : ConnPtr} :
    c ∈ s.connectionsOf r ↔ s.Connected c ∧ (s.conns c).m_producer = some r := by
  unfold connectionsOf
  constructor
  · intro hc
    cases ho : s.outputPin r with
    | none => simp [ho] at hc
    | some o =>
      rw [ho] at hc
      obtain ⟨k, hk, hproducer⟩ := hs.output_listed r o c ho hc
      exact ⟨⟨k, hk⟩, hproducer⟩
  · rintro ⟨hc, hproducer⟩
    obtain ⟨k, out, inp, -, hl⟩ := hs.ends hc
    obtain ⟨o, i, ho, hmem, -⟩ := hl.pins
    rw [hl.conn] at hproducer
    cases hproducer
    simpa [ho] using hmem

theorem Inv.connected_of_mem_connectionsOf (hs : s.Inv) (r : {r // s.HasPin r}) :
    ∀ c ∈ s.connectionsOf r.1, s.Connected c := fun _ hc => (hs.mem_connectionsOf.mp hc).1

def connectionAt (s : Pipeline) (p : ElemPtr) (id : Int) : Option ConnPtr :=
  (s.inputPin ⟨p, id⟩).bind InputPin.m_connection

theorem Inv.connectionAt_eq (hs : s.Inv) {p : ElemPtr} {id : Int} {c : ConnPtr} :
    s.connectionAt p id = some c ↔ s.Connected c ∧ (s.conns c).m_consumer = some ⟨p, id⟩ := by
  unfold connectionAt
  rw [Option.bind_eq_some_iff]
  constructor
  · rintro ⟨i, hi, hc⟩
    obtain ⟨k, hk, hconsumer⟩ := hs.input_listed _ i c hi hc
    exact ⟨⟨k, hk⟩, hconsumer⟩
  · rintro ⟨hc, hconsumer⟩
    obtain ⟨k, out, inp, -, hl⟩ := hs.ends hc
    obtain ⟨o, i, -, -, hi, hic, -⟩ := hl.pins
    rw [hl.conn] at hconsumer
    cases hconsumer
    exact ⟨i, hi, hic⟩

def connectionsTo (s : Pipeline) (pins : HashOrder Int) (p : ElemPtr) : List ConnPtr :=
  (pins.order (s.elems p).m_inputPins.keys).filterMap (s.connectionAt p)

theorem Inv.mem_connectionsTo (hs : s.Inv) {pins : HashOrder Int} {p : ElemPtr} {c : ConnPtr} :
    c ∈ s.connectionsTo pins p ↔
      s.Connected c ∧ ∃ id, (s.conns c).m_consumer = some ⟨p, id⟩ := by
  unfold connectionsTo
  rw [List.mem_filterMap]
  constructor
  · rintro ⟨id, -, hc⟩
    obtain ⟨hconn, hconsumer⟩ := hs.connectionAt_eq.mp hc
    exact ⟨hconn, id, hconsumer⟩
  · rintro ⟨hconn, id, hconsumer⟩
    have hc := hs.connectionAt_eq.mpr ⟨hconn, hconsumer⟩
    refine ⟨id, ?_, hc⟩
    obtain ⟨i, hi, -⟩ := Option.bind_eq_some_iff.mp hc
    rw [(pins.perm _).mem_iff, Std.ExtTreeMap.mem_keys]
    exact Std.ExtTreeMap.mem_iff_isSome_getElem?.mpr (Option.isSome_of_eq_some hi)

theorem Inv.connected_of_mem_connectionsTo (hs : s.Inv) (pins : HashOrder Int)
    (p : {p // s.IsChild p}) : ∀ c ∈ s.connectionsTo pins p.1, s.Connected c :=
  fun _ hc => (hs.mem_connectionsTo.mp hc).1

theorem Inv.children_nodup (hs : s.Inv) :
    ((valuesOf s.m_children).attachWith s.IsChild isChild_of_mem).Nodup := by
  refine attachWith_nodup (valuesOf_nodup fun k k' p hk hk' => ?_)
  rw [← hs.child_id k p hk, hs.child_id k' p hk']

theorem mem_outputPins (pins : HashOrder Int) (p : {p // s.IsChild p}) (r : {r // s.HasPin r}) :
    r ∈ (s.outputRefs pins p.1).attachWith s.HasPin (hasPin_of_mem pins p) ↔ ownerOf r = p := by
  rw [List.mem_attachWith, mem_outputRefs, Subtype.ext_iff]
  exact ⟨And.left, fun h => ⟨h, r.2.2⟩⟩

theorem outputPins_nodup (pins : HashOrder Int) (p : {p // s.IsChild p}) :
    ((s.outputRefs pins p.1).attachWith s.HasPin (hasPin_of_mem pins p)).Nodup := by
  refine attachWith_nodup (List.Nodup.map (fun a b h => ?_) ?_)
  · cases h
    rfl
  · exact (pins.perm _).nodup_iff.mpr (keys_nodup _)

theorem Inv.mem_outputs (hs : s.Inv) (r : {r // s.HasPin r}) (c : {c // s.Connected c}) :
    c ∈ (s.connectionsOf r.1).attachWith s.Connected (hs.connected_of_mem_connectionsOf r) ↔
      fromPin hs c = r := by
  rw [List.mem_attachWith, hs.mem_connectionsOf, fromPin_eq_iff]
  exact ⟨And.right, fun h => ⟨c.2, h⟩⟩

theorem Inv.outputs_nodup (hs : s.Inv) (r : {r // s.HasPin r}) :
    ((s.connectionsOf r.1).attachWith s.Connected
      (hs.connected_of_mem_connectionsOf r)).Nodup := by
  apply attachWith_nodup
  obtain ⟨o, ho⟩ := Option.isSome_iff_exists.mp r.2.2
  unfold connectionsOf
  rw [ho]
  exact hs.nodup _ o ho

theorem Inv.mem_inputs (hs : s.Inv) (pins : HashOrder Int) (p : {p // s.IsChild p})
    (c : {c // s.Connected c}) : c ∈ (s.connectionsTo pins p.1).attachWith s.Connected
      (hs.connected_of_mem_connectionsTo pins p) ↔ target hs c = p := by
  rw [List.mem_attachWith, hs.mem_connectionsTo, Subtype.ext_iff]
  change _ ↔ (toPin hs c).owner = p.1
  constructor
  · rintro ⟨-, id, hconsumer⟩
    rw [(toPin_eq_iff hs).mpr hconsumer]
  · intro howner
    refine ⟨c.2, (toPin hs c).id, (toPin_eq_iff hs).mp ?_⟩
    rw [← howner]

theorem Inv.inputs_nodup (hs : s.Inv) (pins : HashOrder Int) (p : {p // s.IsChild p}) :
    ((s.connectionsTo pins p.1).attachWith s.Connected
      (hs.connected_of_mem_connectionsTo pins p)).Nodup := by
  apply attachWith_nodup
  refine List.Nodup.filterMap (fun id id' c hc hc' => ?_)
    ((pins.perm _).nodup_iff.mpr (keys_nodup _))
  -- a connection has one consumer
  have hconsumer := (hs.connectionAt_eq.mp hc).2
  rw [(hs.connectionAt_eq.mp hc').2] at hconsumer
  simpa using hconsumer.symm

theorem Inv.producer_inputs (hs : s.Inv) (pins : HashOrder Int) (p : {p // s.IsChild p})
    (hp : decide ((s.elems p.1).kind = .producer) = true) :
    (s.connectionsTo pins p.1).attachWith s.Connected
      (hs.connected_of_mem_connectionsTo pins p) = [] := by
  rw [List.eq_nil_iff_forall_not_mem]
  intro c hc
  rw [List.mem_attachWith, hs.mem_connectionsTo] at hc
  obtain ⟨hconn, id, hconsumer⟩ := hc
  obtain ⟨i, hi, -⟩ := Option.bind_eq_some_iff.mp (hs.connectionAt_eq.mpr ⟨hconn, hconsumer⟩)
  rw [(hs.input_pin _ i hi).2] at hp
  cases hp

theorem mem_childList (p : {p // s.IsChild p}) :
    p ∈ (valuesOf s.m_children).attachWith s.IsChild isChild_of_mem := by
  rw [List.mem_attachWith]
  exact mem_children.mpr p.2

theorem mem_connectionList (c : {c // s.Connected c}) :
    c ∈ (valuesOf s.m_connections).attachWith s.Connected connected_of_mem := by
  rw [List.mem_attachWith]
  exact mem_valuesOf.mpr c.2

/-- The graph as `schedule` and the runs of the elements find it. -/
def network (hs : s.Inv) (pins : HashOrder Int) (modes : PinModes) :
    Network {p // s.IsChild p} {r // s.HasPin r} {c // s.Connected c} where
  children := (valuesOf s.m_children).attachWith s.IsChild isChild_of_mem
  isProducer p := decide ((s.elems p.1).kind = .producer)
  outputPins p := (s.outputRefs pins p.1).attachWith s.HasPin (hasPin_of_mem pins p)
  outputs r := (s.connectionsOf r.1).attachWith s.Connected (hs.connected_of_mem_connectionsOf r)
  inputs p := (s.connectionsTo pins p.1).attachWith s.Connected
    (hs.connected_of_mem_connectionsTo pins p)
  connections := (valuesOf s.m_connections).attachWith s.Connected connected_of_mem
  owner := ownerOf
  fromPin := fromPin hs
  target := target hs
  isSynchronous c := modes.isSynchronous (toPin hs c)
  isDataGuaranteed c := modes.isDataGuaranteed (toPin hs c)
  mem_children := mem_childList
  mem_connections := mem_connectionList
  mem_outputPins := mem_outputPins pins
  mem_outputs := hs.mem_outputs
  mem_inputs := hs.mem_inputs pins
  children_nodup := hs.children_nodup
  outputPins_nodup := outputPins_nodup pins
  outputs_nodup := hs.outputs_nodup
  inputs_nodup := hs.inputs_nodup pins
  producer_inputs := hs.producer_inputs pins

end ParleVision.Graph.Pipeline

namespace ParleVision.Graph.Pipeline
open Lib Relation

variable {s : Pipeline}

end ParleVision.Graph.Pipeline

namespace ParleVision.Lifecycle.Pipeline
open Lib ParleVision.Graph ParleVision.Graph.Pipeline ParleVision.Runtime

def sourceAndSink (p : ElemPtr) : Element := if p = 1 then sink 5 else source 5

def sourceAndSinkEdits : List Edit := [.addElement 0, .addElement 1, .connectPins ⟨0, 0⟩ ⟨1, 0⟩]

theorem sink_constructed (type : Int) : (sink type).Constructed where
  input i pin h := by
    simp only [sink, QMap.getElem?_insert] at h
    split at h
    · cases h
      subst i
      exact ⟨rfl, rfl, rfl⟩
    · simp at h
  output i pin h := by simp [sink] at h

theorem sourceAndSink_constructed (p : ElemPtr) : (sourceAndSink p).Constructed := by
  unfold sourceAndSink
  split
  · exact sink_constructed 5
  · exact source_constructed 5

theorem sourceAndSink_allowed : AllowedRun (fun _ => true) (.ascending Int) sourceAndSinkEdits
    (.new sourceAndSink false) := by
  refine ⟨rfl, ?_⟩
  intro t ht
  cases ht
  refine ⟨rfl, ?_⟩
  intro t ht
  cases ht
  exact ⟨⟨⟨_, rfl⟩, ⟨_, rfl⟩, ⟨0, by decide⟩, ⟨1, by decide⟩⟩, fun _ _ => trivial⟩

end ParleVision.Lifecycle.Pipeline
