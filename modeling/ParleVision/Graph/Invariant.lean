import ParleVision.Graph.Store

namespace ParleVision.Graph
open Lib

namespace Pipeline

section Access
variable (s : Pipeline) (r r' : PinRef)

@[simp] theorem inputPin_setInputPin (pin : InputPin) :
    (s.setInputPin r pin).inputPin r' = if r' = r then some pin else s.inputPin r' := by
  obtain ⟨p, i⟩ := r
  obtain ⟨q, j⟩ := r'
  by_cases hp : q = p
  · subst q
    simp [inputPin, setInputPin, setElem, QMap.getElem?_insert]
  · simp [inputPin, setInputPin, setElem, hp]

@[simp] theorem outputPin_setInputPin (pin : InputPin) :
    (s.setInputPin r pin).outputPin r' = s.outputPin r' := by
  by_cases hp : r'.owner = r.owner <;> simp [outputPin, setInputPin, setElem, hp]

@[simp] theorem outputPin_setOutputPin (pin : OutputPin) :
    (s.setOutputPin r pin).outputPin r' = if r' = r then some pin else s.outputPin r' := by
  obtain ⟨p, i⟩ := r
  obtain ⟨q, j⟩ := r'
  by_cases hp : q = p
  · subst q
    simp [outputPin, setOutputPin, setElem, QMap.getElem?_insert]
  · simp [outputPin, setOutputPin, setElem, hp]

@[simp] theorem inputPin_setOutputPin (pin : OutputPin) :
    (s.setOutputPin r pin).inputPin r' = s.inputPin r' := by
  by_cases hp : r'.owner = r.owner <;> simp [inputPin, setOutputPin, setElem, hp]

def eraseInputPin : Pipeline :=
  s.setElem r.owner
    { s.elems r.owner with m_inputPins := (s.elems r.owner).m_inputPins.erase r.id }

@[simp] theorem inputPin_eraseInputPin :
    (s.eraseInputPin r).inputPin r' = if r' = r then none else s.inputPin r' := by
  obtain ⟨p, i⟩ := r
  obtain ⟨q, j⟩ := r'
  by_cases hp : q = p
  · subst q
    simp [inputPin, eraseInputPin, setElem, QMap.getElem?_erase]
  · simp [inputPin, eraseInputPin, setElem, hp]

@[simp] theorem outputPin_eraseInputPin :
    (s.eraseInputPin r).outputPin r' = s.outputPin r' := by
  by_cases hp : r'.owner = r.owner <;> simp [outputPin, eraseInputPin, setElem, hp]

end Access

/-- What an element keeps when its pin tables change. -/
def header (s : Pipeline) (p : ElemPtr) : String × Kind × Bool × Int :=
  ((s.elems p).className, (s.elems p).kind, (s.elems p).isTCPServer, (s.elems p).m_id)

section Header
variable (s : Pipeline) (r : PinRef) (p : ElemPtr)

@[simp] theorem header_setInputPin (pin : InputPin) :
    (s.setInputPin r pin).header p = s.header p := by
  by_cases hp : p = r.owner <;> simp [header, setInputPin, setElem, hp]

@[simp] theorem header_setOutputPin (pin : OutputPin) :
    (s.setOutputPin r pin).header p = s.header p := by
  by_cases hp : p = r.owner <;> simp [header, setOutputPin, setElem, hp]

@[simp] theorem header_eraseInputPin : (s.eraseInputPin r).header p = s.header p := by
  by_cases hp : p = r.owner <;> simp [header, eraseInputPin, setElem, hp]

theorem kind_of_header {s t : Pipeline} {p : ElemPtr} (h : t.header p = s.header p) :
    (t.elems p).kind = (s.elems p).kind := (Prod.mk.inj (Prod.mk.inj h).2).1

theorem id_of_header {s t : Pipeline} {p : ElemPtr} (h : t.header p = s.header p) :
    (t.elems p).m_id = (s.elems p).m_id :=
  (Prod.mk.inj (Prod.mk.inj (Prod.mk.inj h).2).2).2

end Header

def IsChild (s : Pipeline) (p : ElemPtr) : Prop := ∃ k : Int, s.m_children[k]? = some p

/-- A connection object and both its pins agree. -/
structure Linked (s : Pipeline) (k : Int) (c : ConnPtr) (out inp : PinRef) : Prop where
  conn : s.conns c = ⟨k, some out, some inp⟩
  pins : ∃ o i, s.outputPin out = some o ∧ c ∈ o.m_connections ∧
    s.inputPin inp = some i ∧ i.m_connection = some c ∧ o.m_typeId = i.m_typeId
  source : s.IsChild out.owner
  sink : s.IsChild inp.owner
  distinct : out.owner ≠ inp.owner

/-- The graph as it is stored, elements outside the pipeline included. -/
structure Inv (s : Pipeline) : Prop where
  child_id : ∀ (k : Int) p, s.m_children[k]? = some p → (s.elems p).m_id = k
  child_set : ∀ (k : Int) p, s.m_children[k]? = some p → k ≠ -1
  producers : ∀ (k : Int) p, s.m_producers[k]? = some p ↔
    s.m_children[k]? = some p ∧ (s.elems p).kind = .producer
  processors : ∀ (k : Int) p, s.m_processors[k]? = some p ↔
    s.m_children[k]? = some p ∧ (s.elems p).kind = .processor
  allocated : ∀ (k : Int) c, s.m_connections[k]? = some c → c < s.nextConn
  input_pin : ∀ r i, s.inputPin r = some i → i.m_id = r.id ∧ (s.elems r.owner).kind = .processor
  output_pin : ∀ r o, s.outputPin r = some o → o.m_id = r.id
  linked : ∀ (k : Int) c, s.m_connections[k]? = some c → ∃ out inp, s.Linked k c out inp
  nodup : ∀ r o, s.outputPin r = some o → o.m_connections.Nodup
  output_listed : ∀ r o c, s.outputPin r = some o → c ∈ o.m_connections →
    ∃ k : Int, s.m_connections[k]? = some c ∧ (s.conns c).m_producer = some r
  input_listed : ∀ r i c, s.inputPin r = some i → i.m_connection = some c →
    ∃ k : Int, s.m_connections[k]? = some c ∧ (s.conns c).m_consumer = some r

theorem Inv.no_connections {s : Pipeline} (hs : s.Inv) (h : s.m_children = ∅) :
    s.m_connections = ∅ := by
  apply Std.ExtTreeMap.ext_getElem?
  intro k
  cases hk : s.m_connections[k]? with
  | none => simp
  | some c =>
    obtain ⟨out, inp, hl⟩ := hs.linked k c hk
    obtain ⟨k', hk'⟩ := hl.source
    simp [h] at hk'

/-- The flag says nothing about the graph. -/
theorem Inv.setChanged {s : Pipeline} (hs : s.Inv) (m_changed : Bool) :
    ({ s with m_changed := m_changed } : Pipeline).Inv where
  child_id := hs.child_id
  child_set := hs.child_set
  producers := hs.producers
  processors := hs.processors
  allocated := hs.allocated
  input_pin := hs.input_pin
  output_pin := hs.output_pin
  linked k c hk := by
    obtain ⟨out, inp, hl⟩ := hs.linked k c hk
    exact ⟨out, inp, hl.conn, hl.pins, hl.source, hl.sink, hl.distinct⟩
  nodup := hs.nodup
  output_listed := hs.output_listed
  input_listed := hs.input_listed

/-- Only pins without a connection were written, added or taken away. -/
theorem Inv.unconnected {s : Pipeline} (hs : s.Inv) {elems : ElemPtr → Element}
    (hh : ∀ p, ({ s with elems := elems } : Pipeline).header p = s.header p)
    (ho : ∀ r, ({ s with elems := elems } : Pipeline).outputPin r = s.outputPin r)
    (hi : ∀ r i c, i.m_connection = some c →
      (({ s with elems := elems } : Pipeline).inputPin r = some i ↔ s.inputPin r = some i))
    (hp : ∀ r i, ({ s with elems := elems } : Pipeline).inputPin r = some i →
      i.m_id = r.id ∧ (s.elems r.owner).kind = .processor) :
    ({ s with elems := elems } : Pipeline).Inv where
  child_id k p h := by
    rw [id_of_header (hh p)]
    exact hs.child_id k p h
  child_set := hs.child_set
  producers k p := by
    rw [kind_of_header (hh p)]
    exact hs.producers k p
  processors k p := by
    rw [kind_of_header (hh p)]
    exact hs.processors k p
  allocated := hs.allocated
  input_pin r i h := by
    rw [kind_of_header (hh r.owner)]
    exact hp r i h
  output_pin r o h := hs.output_pin r o ((ho r).symm.trans h)
  linked k c h := by
    obtain ⟨out, inp, hl⟩ := hs.linked k c h
    obtain ⟨o, i, hoo, hc, hii, hic, ht⟩ := hl.pins
    exact ⟨out, inp, hl.conn, ⟨o, i, (ho out).trans hoo, hc, (hi inp i c hic).mpr hii, hic, ht⟩,
      hl.source, hl.sink, hl.distinct⟩
  nodup r o h := hs.nodup r o ((ho r).symm.trans h)
  output_listed r o c h hc := hs.output_listed r o c ((ho r).symm.trans h) hc
  input_listed r i c h hc := hs.input_listed r i c ((hi r i c hc).mp h) hc

/-- Writing a pin without a connection over one without, or to a free id. -/
theorem Inv.setInputPin {s : Pipeline} (hs : s.Inv) {r : PinRef} {pin : InputPin}
    (hold : ∀ i, s.inputPin r = some i → i.m_connection = none) (hid : pin.m_id = r.id)
    (hkind : (s.elems r.owner).kind = .processor) (hpin : pin.m_connection = none) :
    (s.setInputPin r pin).Inv := by
  refine hs.unconnected (fun p => header_setInputPin s r p pin)
    (fun r' => outputPin_setInputPin s r r' pin) ?_ ?_
  · intro r' i c hc
    change (s.setInputPin r pin).inputPin r' = some i ↔ _
    rw [inputPin_setInputPin]
    split
    · subst r'
      constructor
      · intro h
        cases h
        simp [hpin] at hc
      · intro h
        simp [hold i h] at hc
    · exact Iff.rfl
  · intro r' i h
    change (s.setInputPin r pin).inputPin r' = some i at h
    rw [inputPin_setInputPin] at h
    split at h
    · cases h
      subst r'
      exact ⟨hid, hkind⟩
    · exact hs.input_pin r' i h

/-- Taking a pin without a connection out of its table. -/
theorem Inv.eraseInputPin {s : Pipeline} (hs : s.Inv) {r : PinRef}
    (hold : ∀ i, s.inputPin r = some i → i.m_connection = none) : (s.eraseInputPin r).Inv := by
  refine hs.unconnected (fun p => header_eraseInputPin s r p)
    (fun r' => outputPin_eraseInputPin s r r') ?_ ?_
  · intro r' i c hc
    change (s.eraseInputPin r).inputPin r' = some i ↔ _
    rw [inputPin_eraseInputPin]
    split
    · subst r'
      constructor
      · intro h
        cases h
      · intro h
        simp [hold i h] at hc
    · exact Iff.rfl
  · intro r' i h
    change (s.eraseInputPin r).inputPin r' = some i at h
    rw [inputPin_eraseInputPin] at h
    split at h
    · cases h
    · exact hs.input_pin r' i h

/-- Both pins refer to the new connection and the map gets it under its id. -/
def withLink (s : Pipeline) (k : Int) (c : ConnPtr) (out inp : PinRef) (o : OutputPin)
    (i : InputPin) : Pipeline :=
  { (s.setOutputPin out { o with m_connections := o.m_connections ++ [c] }).setInputPin inp
      { i with m_connection := some c } with
    m_connections := s.m_connections.insert k c }

section WithLink
variable (s : Pipeline) (k : Int) (c : ConnPtr) (out inp : PinRef) (o : OutputPin) (i : InputPin)

theorem header_withLink (p : ElemPtr) : (s.withLink k c out inp o i).header p = s.header p :=
  (header_setInputPin _ inp p _).trans (header_setOutputPin s out p _)

theorem inputPin_withLink (r : PinRef) : (s.withLink k c out inp o i).inputPin r =
    if r = inp then some { i with m_connection := some c } else s.inputPin r :=
  (inputPin_setInputPin _ inp r _).trans (by simp)

theorem outputPin_withLink (r : PinRef) : (s.withLink k c out inp o i).outputPin r =
    if r = out then some { o with m_connections := o.m_connections ++ [c] }
    else s.outputPin r :=
  (outputPin_setInputPin _ inp r _).trans (by simp)

theorem connections_withLink (k' : Int) : (s.withLink k c out inp o i).m_connections[k']? =
    if k' = k then some c else s.m_connections[k']? := by
  exact QMap.getElem?_insert s.m_connections k k' c

end WithLink

theorem Linked.withLink {s : Pipeline} {k k' : Int} {c c' : ConnPtr} {out inp out' inp' : PinRef}
    {o : OutputPin} {i : InputPin} (hl : s.Linked k' c' out' inp') (ho : s.outputPin out = some o)
    (hi : s.inputPin inp = some i) (hun : i.m_connection = none) :
    (s.withLink k c out inp o i).Linked k' c' out' inp' := by
  have hin := inputPin_withLink s k c out inp o i
  have hout := outputPin_withLink s k c out inp o i
  obtain ⟨o', i', ho', hc', hi', hic, ht'⟩ := hl.pins
  have hinp : inp' ≠ inp := by
    rintro rfl
    rw [hi] at hi'
    cases hi'
    simp [hun] at hic
  refine ⟨hl.conn, ?_, hl.source, hl.sink, hl.distinct⟩
  by_cases he : out' = out
  · subst out'
    rw [ho] at ho'
    cases ho'
    exact ⟨{ o with m_connections := o.m_connections ++ [c] }, i', by rw [hout, if_pos rfl],
      by simp [hc'], by rw [hin, if_neg hinp, hi'], hic, ht'⟩
  · exact ⟨o', i', by rw [hout, if_neg he, ho'], hc', by rw [hin, if_neg hinp, hi'], hic, ht'⟩

/-- Pins are rewritten under their ids, while the elements stay what they are. -/
theorem Inv.rewired {s s' : Pipeline} (hs : s.Inv) (hh : ∀ p, s'.header p = s.header p)
    (hchildren : s'.m_children = s.m_children) (hproducers : s'.m_producers = s.m_producers)
    (hprocessors : s'.m_processors = s.m_processors)
    (hin : ∀ r i', s'.inputPin r = some i' → ∃ i, s.inputPin r = some i ∧ i'.m_id = i.m_id)
    (hout : ∀ r o', s'.outputPin r = some o' → ∃ o, s.outputPin r = some o ∧ o'.m_id = o.m_id)
    (allocated : ∀ (k : Int) c, s'.m_connections[k]? = some c → c < s'.nextConn)
    (linked : ∀ (k : Int) c, s'.m_connections[k]? = some c → ∃ out inp, s'.Linked k c out inp)
    (nodup : ∀ r o, s'.outputPin r = some o → o.m_connections.Nodup)
    (output_listed : ∀ r o c, s'.outputPin r = some o → c ∈ o.m_connections →
      ∃ k : Int, s'.m_connections[k]? = some c ∧ (s'.conns c).m_producer = some r)
    (input_listed : ∀ r i c, s'.inputPin r = some i → i.m_connection = some c →
      ∃ k : Int, s'.m_connections[k]? = some c ∧ (s'.conns c).m_consumer = some r) : s'.Inv where
  child_id k p h := by
    rw [hchildren] at h
    rw [id_of_header (hh p)]
    exact hs.child_id k p h
  child_set k p h := by
    rw [hchildren] at h
    exact hs.child_set k p h
  producers k p := by
    rw [hproducers, hchildren, kind_of_header (hh p)]
    exact hs.producers k p
  processors k p := by
    rw [hprocessors, hchildren, kind_of_header (hh p)]
    exact hs.processors k p
  allocated := allocated
  input_pin r i' h := by
    obtain ⟨i, hi, hid⟩ := hin r i' h
    rw [kind_of_header (hh r.owner), hid]
    exact hs.input_pin r i hi
  output_pin r o' h := by
    obtain ⟨o, ho, hid⟩ := hout r o' h
    rw [hid]
    exact hs.output_pin r o ho
  linked := linked
  nodup := nodup
  output_listed := output_listed
  input_listed := input_listed

theorem Inv.link {s : Pipeline} (hs : s.Inv) {k : Int} {c : ConnPtr} {out inp : PinRef}
    {o : OutputPin} {i : InputPin} (hconn : s.conns c = ⟨k, some out, some inp⟩)
    (hfree : s.m_connections[k]? = none) (hc : c < s.nextConn)
    (hnew : ∀ k' : Int, s.m_connections[k']? ≠ some c)
    (ho : s.outputPin out = some o) (hi : s.inputPin inp = some i) (hun : i.m_connection = none)
    (ht : o.m_typeId = i.m_typeId) (hsrc : s.IsChild out.owner) (hsink : s.IsChild inp.owner)
    (hne : out.owner ≠ inp.owner) : (s.withLink k c out inp o i).Inv := by
  have hh := header_withLink s k c out inp o i
  have hin := inputPin_withLink s k c out inp o i
  have hout := outputPin_withLink s k c out inp o i
  have hmap := connections_withLink s k c out inp o i
  have hcout : c ∉ o.m_connections := by
    intro hm
    obtain ⟨k', hk', _⟩ := hs.output_listed out o c ho hm
    exact hnew k' hk'
  have hkeep : ∀ (k' : Int) c', s.m_connections[k']? = some c' → k' ≠ k ∧ c' ≠ c := by
    intro k' c' h
    refine ⟨?_, ?_⟩
    · rintro rfl
      simp [hfree] at h
    · rintro rfl
      exact hnew k' h
  refine hs.rewired hh rfl rfl rfl ?hin ?hout ?allocated ?linked ?nodup ?output_listed
    ?input_listed
  case hin =>
    intro r j h
    rw [hin] at h
    split at h
    · cases h
      subst r
      exact ⟨i, hi, rfl⟩
    · exact ⟨j, h, rfl⟩
  case hout =>
    intro r o' h
    rw [hout] at h
    split at h
    · cases h
      subst r
      exact ⟨o, ho, rfl⟩
    · exact ⟨o', h, rfl⟩
  case allocated =>
    intro k' c' h
    rw [hmap] at h
    split at h
    · cases h
      exact hc
    · exact hs.allocated k' c' h
  case linked =>
    intro k' c' h
    rw [hmap] at h
    split at h
    · cases h
      subst k'
      exact ⟨out, inp, hconn, ⟨{ o with m_connections := o.m_connections ++ [c] },
        { i with m_connection := some c }, by rw [hout, if_pos rfl], by simp,
        by rw [hin, if_pos rfl], rfl, ht⟩, hsrc, hsink, hne⟩
    · obtain ⟨out', inp', hl⟩ := hs.linked k' c' h
      exact ⟨out', inp', hl.withLink ho hi hun⟩
  case nodup =>
    intro r o' h
    rw [hout] at h
    split at h
    · cases h
      refine List.nodup_append.mpr ⟨hs.nodup out o ho, by simp, ?_⟩
      intro a ha b hb
      rintro rfl
      simp only [List.mem_singleton] at hb
      exact hcout (hb ▸ ha)
    · exact hs.nodup r o' h
  case output_listed =>
    intro r o' c' h hm
    have old : ∀ o'', s.outputPin r = some o'' → c' ∈ o''.m_connections →
        ∃ k' : Int, (s.withLink k c out inp o i).m_connections[k']? = some c' ∧
          ((s.withLink k c out inp o i).conns c').m_producer = some r := by
      intro o'' ho'' hm''
      obtain ⟨k', hk', hp'⟩ := hs.output_listed r o'' c' ho'' hm''
      exact ⟨k', by rw [hmap, if_neg (hkeep k' c' hk').1, hk'], hp'⟩
    rw [hout] at h
    split at h
    · cases h
      subst r
      rcases List.mem_append.mp hm with hm | hm
      · exact old o ho hm
      · have he : c' = c := by simpa using hm
        subst c'
        exact ⟨k, by rw [hmap, if_pos rfl], congrArg PinConnection.m_producer hconn⟩
    · exact old o' h hm
  case input_listed =>
    intro r j c' h hm
    rw [hin] at h
    split at h
    · cases h
      subst r
      cases hm
      exact ⟨k, by rw [hmap, if_pos rfl], congrArg PinConnection.m_consumer hconn⟩
    · obtain ⟨k', hk', hp'⟩ := hs.input_listed r j c' h hm
      exact ⟨k', by rw [hmap, if_neg (hkeep k' c' hk').1, hk'], hp'⟩

def withoutLink (s : Pipeline) (k : Int) (c : ConnPtr) (out inp : PinRef) (o : OutputPin)
    (i : InputPin) : Pipeline :=
  { (s.setOutputPin out { o with m_connections := o.m_connections.erase c }).setInputPin inp
      { i with m_connection := none } with
    conns := Function.update s.conns c ⟨(s.conns c).m_id, none, none⟩
    m_connections := s.m_connections.erase k }

theorem Inv.connection_unique {s : Pipeline} (hs : s.Inv) {k k' : Int} {c : ConnPtr}
    (h : s.m_connections[k]? = some c) (h' : s.m_connections[k']? = some c) : k' = k := by
  obtain ⟨_, _, hl⟩ := hs.linked k c h
  obtain ⟨_, _, hl'⟩ := hs.linked k' c h'
  have := hl'.conn.symm.trans hl.conn
  exact congrArg PinConnection.m_id this

section WithoutLink
variable (s : Pipeline) (k : Int) (c : ConnPtr) (out inp : PinRef) (o : OutputPin) (i : InputPin)

theorem header_withoutLink (p : ElemPtr) :
    (s.withoutLink k c out inp o i).header p = s.header p :=
  (header_setInputPin _ inp p _).trans (header_setOutputPin s out p _)

theorem inputPin_withoutLink (r : PinRef) : (s.withoutLink k c out inp o i).inputPin r =
    if r = inp then some { i with m_connection := none } else s.inputPin r :=
  (inputPin_setInputPin _ inp r _).trans (by simp)

theorem outputPin_withoutLink (r : PinRef) : (s.withoutLink k c out inp o i).outputPin r =
    if r = out then some { o with m_connections := o.m_connections.erase c }
    else s.outputPin r :=
  (outputPin_setInputPin _ inp r _).trans (by simp)

theorem connections_withoutLink (k' : Int) : (s.withoutLink k c out inp o i).m_connections[k']? =
    if k' = k then none else s.m_connections[k']? :=
  QMap.getElem?_erase s.m_connections k k'

theorem conns_withoutLink {c' : ConnPtr} (hne : c' ≠ c) :
    (s.withoutLink k c out inp o i).conns c' = s.conns c' := by
  simp [withoutLink, hne]

end WithoutLink

/-- A connection that stays, at whatever pins. -/
theorem Linked.withoutLink {s : Pipeline} {k k' : Int} {c c' : ConnPtr}
    {out inp out' inp' : PinRef} {o : OutputPin} {i : InputPin} (hl : s.Linked k' c' out' inp')
    (hc : c' ≠ c) (ho : s.outputPin out = some o) (hi : s.inputPin inp = some i)
    (hic : i.m_connection = some c) : (s.withoutLink k c out inp o i).Linked k' c' out' inp' := by
  have hin := inputPin_withoutLink s k c out inp o i
  have hout := outputPin_withoutLink s k c out inp o i
  obtain ⟨o', i', ho', hm', hi', hic', ht'⟩ := hl.pins
  have hinp : inp' ≠ inp := by
    rintro rfl
    rw [hi] at hi'
    cases hi'
    exact hc (Option.some.inj (hic'.symm.trans hic))
  refine ⟨(conns_withoutLink s k c out inp o i hc).trans hl.conn, ?_, hl.source, hl.sink,
    hl.distinct⟩
  by_cases he : out' = out
  · subst out'
    rw [ho] at ho'
    cases ho'
    exact ⟨{ o with m_connections := o.m_connections.erase c }, i', by rw [hout, if_pos rfl],
      List.mem_erase_of_ne hc |>.mpr hm', by rw [hin, if_neg hinp, hi'], hic', ht'⟩
  · exact ⟨o', i', by rw [hout, if_neg he, ho'], hm', by rw [hin, if_neg hinp, hi'], hic', ht'⟩

theorem Inv.unlink {s : Pipeline} (hs : s.Inv) {k : Int} {c : ConnPtr} {out inp : PinRef}
    {o : OutputPin} {i : InputPin} (hk : s.m_connections[k]? = some c)
    (hl : s.Linked k c out inp) (ho : s.outputPin out = some o) (hi : s.inputPin inp = some i)
    (hic : i.m_connection = some c) : (s.withoutLink k c out inp o i).Inv := by
  have hin := inputPin_withoutLink s k c out inp o i
  have hout := outputPin_withoutLink s k c out inp o i
  have hmap := connections_withoutLink s k c out inp o i
  have hother : ∀ (k' : Int) c', k' ≠ k → s.m_connections[k']? = some c' → c' ≠ c := by
    intro k' c' hne h
    rintro rfl
    exact hne (hs.connection_unique hk h)
  have herase : ∀ c', c' ∈ o.m_connections.erase c → c' ∈ o.m_connections ∧ c' ≠ c := by
    intro c' hm
    exact ((hs.nodup out o ho).mem_erase_iff.mp hm).symm
  -- a reference that survives is to a connection other than `c`, which the map still has
  have survives : ∀ c', c' ≠ c → (∃ k' : Int, s.m_connections[k']? = some c') →
      ∃ k' : Int, (s.withoutLink k c out inp o i).m_connections[k']? = some c' := by
    rintro c' hne ⟨k', hk'⟩
    exact ⟨k', QMap.erase_stored hk hk' hne⟩
  refine hs.rewired (header_withoutLink s k c out inp o i) rfl rfl rfl ?hin ?hout ?allocated
    ?linked ?nodup ?output_listed ?input_listed
  case hin =>
    intro r j h
    rw [hin] at h
    split at h
    · cases h
      subst r
      exact ⟨i, hi, rfl⟩
    · exact ⟨j, h, rfl⟩
  case hout =>
    intro r o' h
    rw [hout] at h
    split at h
    · cases h
      subst r
      exact ⟨o, ho, rfl⟩
    · exact ⟨o', h, rfl⟩
  case allocated =>
    intro k' c' h
    rw [hmap] at h
    split at h
    · cases h
    · exact hs.allocated k' c' h
  case linked =>
    intro k' c' h
    rw [hmap] at h
    split at h
    · cases h
    · rename_i hne
      obtain ⟨out', inp', hl'⟩ := hs.linked k' c' h
      exact ⟨out', inp', hl'.withoutLink (hother k' c' hne h) ho hi hic⟩
  case nodup =>
    intro r o' h
    rw [hout] at h
    split at h
    · cases h
      exact (hs.nodup out o ho).erase c
    · exact hs.nodup r o' h
  case output_listed =>
    intro r o' c' h hm
    have old : ∀ o'', s.outputPin r = some o'' → c' ∈ o''.m_connections → c' ≠ c →
        ∃ k' : Int, (s.withoutLink k c out inp o i).m_connections[k']? = some c' ∧
          ((s.withoutLink k c out inp o i).conns c').m_producer = some r := by
      intro o'' ho'' hm'' hne
      obtain ⟨k', hk', hp'⟩ := hs.output_listed r o'' c' ho'' hm''
      obtain ⟨k'', hk''⟩ := survives c' hne ⟨k', hk'⟩
      exact ⟨k'', hk'', by rw [conns_withoutLink s k c out inp o i hne, hp']⟩
    rw [hout] at h
    split at h
    · cases h
      subst r
      obtain ⟨hm', hne⟩ := herase c' hm
      exact old o ho hm' hne
    · rename_i hr
      refine old o' h hm ?_
      -- only `out` lists `c`
      rintro rfl
      obtain ⟨_, _, hp'⟩ := hs.output_listed r o' c' h hm
      rw [hl.conn] at hp'
      exact hr (Option.some.inj hp').symm
  case input_listed =>
    intro r j c' h hm
    rw [hin] at h
    split at h
    · cases h
      cases hm
    · rename_i hr
      obtain ⟨k', hk', hp'⟩ := hs.input_listed r j c' h hm
      have hne : c' ≠ c := by
        rintro rfl
        rw [hl.conn] at hp'
        exact hr (Option.some.inj hp').symm
      obtain ⟨k'', hk''⟩ := survives c' hne ⟨k', hk'⟩
      exact ⟨k'', hk'', by rw [conns_withoutLink s k c out inp o i hne, hp']⟩

end Pipeline

end ParleVision.Graph
