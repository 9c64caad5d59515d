import ParleVision.Graph.Connecting

namespace ParleVision.Graph
open Lib

namespace Pipeline

variable {isRegistered : Int → Bool}

theorem getNewPipelineElementId_free (s : Pipeline) :
    s.m_children[s.getNewPipelineElementId]? = none := by
  have := scanKeys_notMem s.m_children.keys_sorted 0
  rw [Std.ExtTreeMap.mem_keys] at this
  exact Std.ExtTreeMap.getElem?_eq_none this

def idFor (s : Pipeline) (p : ElemPtr) : Int :=
  if (s.elems p).m_id = -1 then s.getNewPipelineElementId else (s.elems p).m_id

theorem idFor_free {s : Pipeline} {p : ElemPtr} (h : s.canAddElement p = true) :
    s.m_children[s.idFor p]? = none := by
  unfold idFor
  split
  · exact s.getNewPipelineElementId_free
  · rename_i hid
    simpa [canAddElement, hid] using h

theorem idFor_set (s : Pipeline) (p : ElemPtr) : s.idFor p ≠ -1 := by
  unfold idFor
  split
  · have := le_scanKeys s.m_children.keys 0
    unfold getNewPipelineElementId
    omega
  · assumption

/-- An element that may be added is not in the pipeline yet. -/
theorem Inv.not_child {s : Pipeline} (hs : s.Inv) {p : ElemPtr} (h : s.canAddElement p = true)
    (k : Int) : s.m_children[k]? ≠ some p := by
  intro hk
  have hid := hs.child_id k p hk
  have hset := hs.child_set k p hk
  simp [canAddElement, hid, hset, Std.ExtTreeMap.mem_iff_isSome_getElem?, hk] at h

theorem Inv.addElement {s : Pipeline} (hs : s.Inv) {p : ElemPtr}
    (h : s.canAddElement p = true) : (s.addElement p).Inv := by
  have hnot := hs.not_child h
  have hfree := idFor_free h
  have hin : ∀ r, (s.addElement p).inputPin r = s.inputPin r := by
    intro r
    by_cases hr : r.owner = p <;> simp [inputPin, Pipeline.addElement, hr]
  have hout : ∀ r, (s.addElement p).outputPin r = s.outputPin r := by
    intro r
    by_cases hr : r.owner = p <;> simp [outputPin, Pipeline.addElement, hr]
  have hkind : ∀ q, ((s.addElement p).elems q).kind = (s.elems q).kind := by
    intro q
    by_cases hq : q = p <;> simp [Pipeline.addElement, hq]
  have hchild : ∀ k : Int, (s.addElement p).m_children[k]? =
      if k = s.idFor p then some p else s.m_children[k]? := by
    intro k
    exact QMap.getElem?_insert s.m_children (s.idFor p) k p
  have hkeep : ∀ q, s.IsChild q → (s.addElement p).IsChild q := by
    rintro q ⟨k, hk⟩
    refine ⟨k, ?_⟩
    rw [hchild, if_neg, hk]
    rintro rfl
    rw [hfree] at hk
    cases hk
  have hkinds : ∀ (m : QMap ElemPtr) (kind : Kind),
      (∀ (k : Int) q, m[k]? = some q ↔ s.m_children[k]? = some q ∧ (s.elems q).kind = kind) →
      ∀ (k : Int) q, (if (s.elems p).kind = kind then m.insert (s.idFor p) p else m)[k]? = some q ↔
        (s.addElement p).m_children[k]? = some q ∧ (s.elems q).kind = kind := by
    intro m kind hm k q
    rw [hchild]
    by_cases hk : k = s.idFor p
    · subst k
      have hmnone : m[s.idFor p]? ≠ some q := by
        intro hc
        have := ((hm _ q).mp hc).1
        simp [hfree] at this
      by_cases hp : (s.elems p).kind = kind
      · simp only [if_pos hp, Std.ExtTreeMap.getElem?_insert_self, if_true]
        constructor
        · intro he
          cases he
          exact ⟨rfl, hp⟩
        · exact fun he => he.1
      · simp only [if_neg hp, if_true]
        constructor
        · intro hc
          exact absurd hc hmnone
        · rintro ⟨he, hc⟩
          cases he
          exact absurd hc hp
    · rw [if_neg hk, ← hm k q]
      split
      · rw [QMap.getElem?_insert, if_neg hk]
      · exact Iff.rfl
  constructor
  case child_id =>
    intro k q hq
    rw [hchild] at hq
    split at hq
    · cases hq
      subst k
      simp [Pipeline.addElement, idFor]
    · have hne : q ≠ p := by
        rintro rfl
        exact hnot k hq
      simpa [Pipeline.addElement, hne] using hs.child_id k q hq
  case child_set =>
    intro k q hq
    rw [hchild] at hq
    split at hq
    · subst k
      exact s.idFor_set p
    · exact hs.child_set k q hq
  case producers =>
    intro k q
    rw [hkind q]
    exact hkinds s.m_producers .producer hs.producers k q
  case processors =>
    intro k q
    rw [hkind q]
    exact hkinds s.m_processors .processor hs.processors k q
  case allocated => exact hs.allocated
  case input_pin =>
    intro r i hi
    rw [hkind r.owner]
    exact hs.input_pin r i ((hin r).symm.trans hi)
  case output_pin => exact fun r o ho => hs.output_pin r o ((hout r).symm.trans ho)
  case linked =>
    intro k c hk
    obtain ⟨out, inp, hl⟩ := hs.linked k c hk
    obtain ⟨o, i, ho, hm, hi, hic, ht⟩ := hl.pins
    exact ⟨out, inp, hl.conn, ⟨o, i, (hout out).trans ho, hm, (hin inp).trans hi, hic, ht⟩,
      hkeep _ hl.source, hkeep _ hl.sink, hl.distinct⟩
  case nodup => exact fun r o ho => hs.nodup r o ((hout r).symm.trans ho)
  case output_listed => exact fun r o c ho => hs.output_listed r o c ((hout r).symm.trans ho)
  case input_listed => exact fun r i c hi => hs.input_listed r i c ((hin r).symm.trans hi)

theorem addElement_keeps (isRegistered : Int → Bool) (s : Pipeline) (p : ElemPtr) :
    Keeps isRegistered s (s.addElement p) := by
  have hin : ∀ r, (s.addElement p).inputPin r = s.inputPin r := by
    intro r
    by_cases hr : r.owner = p <;> simp [inputPin, addElement, hr]
  have hout : ∀ r, (s.addElement p).outputPin r = s.outputPin r := by
    intro r
    by_cases hr : r.owner = p <;> simp [outputPin, addElement, hr]
  refine ⟨?_, fun hreg r i hi => hreg r i ((hin r).symm.trans hi), fun _ => rfl⟩
  constructor
  case className =>
    intro q
    by_cases hq : q = p <;> simp [addElement, hq]
  case kind =>
    intro q
    by_cases hq : q = p <;> simp [addElement, hq]
  case tcp =>
    intro q
    by_cases hq : q = p <;> simp [addElement, hq]
  case output => exact fun r => congrArg _ (hout r)
  case input => exact fun r _ => congrArg _ (hin r)
  case generic => exact fun q _ hg i pin hi => hg i pin ((hin ⟨q, i⟩).symm.trans hi)

theorem Inv.removeElement {s : Pipeline} (hs : s.Inv) (h : HashOrder Int) (id : Int) :
    ∃ t, s.removeElement h id = some t ∧ t.Inv ∧ Keeps isRegistered s t := by
  cases hid : s.m_children[id]? with
  | none => exact ⟨s, by simp [Pipeline.removeElement, hid], hs, .refl s⟩
  | some p =>
    obtain ⟨t, ht, hi, hsh, hiso⟩ := hs.removeConnectionsForElement h p
    refine ⟨{ t with
      m_children := t.m_children.erase id
      m_producers := if id ∈ t.m_producers then t.m_producers.erase id else t.m_producers
      m_processors :=
        if id ∉ t.m_producers ∧ id ∈ t.m_processors then t.m_processors.erase id
        else t.m_processors
      m_changed := true }, by simp [Pipeline.removeElement, hid, ht], ?_,
      hsh.keeps.congr rfl rfl fun _ => rfl⟩
    rw [← hsh.children] at hid
    have hchild : ∀ k : Int, (t.m_children.erase id)[k]? =
        if k = id then none else t.m_children[k]? := by
      intro k
      exact QMap.getElem?_erase t.m_children id k
    have hkeep : ∀ q, q ≠ p → t.IsChild q → ∃ k : Int, (t.m_children.erase id)[k]? = some q := by
      rintro q hq ⟨k, hk⟩
      exact ⟨k, QMap.erase_stored hid hk hq⟩
    have hkinds : ∀ (m m' : QMap ElemPtr) (kind : Kind),
        (∀ (k : Int) q, m[k]? = some q ↔ t.m_children[k]? = some q ∧ (t.elems q).kind = kind) →
        (m' = m.erase id ∨ (m' = m ∧ ∀ q, m[id]? ≠ some q)) →
        ∀ (k : Int) q, m'[k]? = some q ↔
          (t.m_children.erase id)[k]? = some q ∧ (t.elems q).kind = kind := by
      intro m m' kind hm hm' k q
      have herase : m'[k]? = if k = id then none else m[k]? := by
        rcases hm' with rfl | ⟨rfl, hnone⟩
        · exact QMap.getElem?_erase m id k
        · split
          · subst k
            exact Option.eq_none_iff_forall_ne_some.mpr hnone
          · rfl
      rw [herase, hchild]
      split
      · simp
      · exact hm k q
    have hcontains : ∀ m : QMap ElemPtr, id ∉ m → ∀ q, m[id]? ≠ some q := by
      intro m hm q hq
      exact hm (Std.ExtTreeMap.mem_iff_isSome_getElem?.mpr (Option.isSome_of_eq_some hq))
    constructor
    case child_id =>
      intro k q hq
      rw [hchild] at hq
      split at hq
      · cases hq
      · exact hi.child_id k q hq
    case child_set =>
      intro k q hq
      rw [hchild] at hq
      split at hq
      · cases hq
      · exact hi.child_set k q hq
    case producers =>
      refine hkinds t.m_producers _ .producer hi.producers ?_
      dsimp only
      split
      · exact .inl rfl
      · exact .inr ⟨rfl, hcontains _ ‹_›⟩
    case processors =>
      refine hkinds t.m_processors _ .processor hi.processors ?_
      dsimp only
      split
      · exact .inl rfl
      · rename_i hn
        refine .inr ⟨rfl, ?_⟩
        by_cases hp : id ∈ t.m_producers
        · -- the removed element is a producer, so the other map does not have it
          obtain ⟨q, hq⟩ := Option.isSome_iff_exists.mp
            (Std.ExtTreeMap.mem_iff_isSome_getElem?.mp hp)
          obtain ⟨hqc, hqk⟩ := (hi.producers id q).mp hq
          intro q' hq'
          obtain ⟨hqc', hqk'⟩ := (hi.processors id q').mp hq'
          rw [hqc] at hqc'
          cases hqc'
          rw [hqk] at hqk'
          cases hqk'
        · exact hcontains _ fun hm => hn ⟨hp, hm⟩
    case allocated => exact hi.allocated
    case input_pin => exact hi.input_pin
    case output_pin => exact hi.output_pin
    case linked =>
      intro k c hk
      obtain ⟨out, inp, hl⟩ := hi.linked k c hk
      obtain ⟨o, i, ho, hm, hii, hic, _⟩ := hl.pins
      have hout : out.owner ≠ p := by
        rintro rfl
        rw [hiso.output out.id o ho] at hm
        cases hm
      have hinp : inp.owner ≠ p := by
        rintro rfl
        rw [hiso.input inp.id i hii] at hic
        cases hic
      exact ⟨out, inp, hl.conn, hl.pins, hkeep _ hout hl.source, hkeep _ hinp hl.sink,
        hl.distinct⟩
    case nodup => exact hi.nodup
    case output_listed => exact hi.output_listed
    case input_listed => exact hi.input_listed

theorem Inv.disconnectValues {s : Pipeline} {M : QMap ConnPtr}
    (hs : ({ s with m_connections := M } : Pipeline).Inv) {cs : List ConnPtr} (hn : cs.Nodup)
    (hcs : ∀ c, c ∈ cs ↔ ∃ k : Int, M[k]? = some c) :
    ∃ t, Pipeline.disconnectValues cs s = some t ∧
      ({ t with m_connections := ∅ } : Pipeline).Inv ∧ s.Shrinks t := by
  induction cs generalizing s M with
  | nil =>
    have hM : M = ∅ := by
      apply Std.ExtTreeMap.ext_getElem?
      intro k
      cases hk : M[k]? with
      | none => simp
      | some c => simpa using (hcs c).mpr ⟨k, hk⟩
    exact ⟨s, rfl, hM ▸ hs, .refl s⟩
  | cons c cs ih =>
    obtain ⟨hc, hn⟩ := List.nodup_cons.mp hn
    obtain ⟨k, hk⟩ := (hcs c).mp (by simp)
    obtain ⟨s', hs', hi', -, hsh'⟩ := Inv.disconnect hs hk
    have hrest : ∀ c', c' ∈ cs ↔ ∃ k' : Int, (M.erase k)[k']? = some c' := by
      intro c'
      constructor
      · intro hc'
        obtain ⟨k', hk'⟩ := (hcs c').mp (by simp [hc'])
        exact ⟨k', QMap.erase_stored hk hk' (ne_of_mem_of_not_mem hc' hc)⟩
      · rintro ⟨k', hk'⟩
        obtain ⟨hne, hold⟩ := QMap.of_erase hk'
        rcases List.mem_cons.mp ((hcs c').mpr ⟨k', hold⟩) with he | hm
        · subst c'
          exact absurd (hs.connection_unique hk hold) hne
        · exact hm
    obtain ⟨t, ht, hi, hsh⟩ := ih hi' hn hrest
    exact ⟨t, by simp [Pipeline.disconnectValues, hs', ht], hi, hsh'.trans hsh⟩

theorem Inv.removeAllConnections {s : Pipeline} (hs : s.Inv) (isRegistered : Int → Bool) :
    ∃ t, s.removeAllConnections = some t ∧ t.Inv ∧ t.m_connections = ∅ ∧
      Keeps isRegistered s t := by
  obtain ⟨t, ht, hi, hsh⟩ := Inv.disconnectValues (M := s.m_connections) hs
    (valuesOf_nodup fun k k' c => hs.connection_unique) (fun c => mem_valuesOf)
  exact ⟨_, by simp [Pipeline.removeAllConnections, ht], hi, rfl,
    hsh.keeps.congr rfl rfl fun hc => hsh.changed.trans hc⟩

theorem Inv.removeConnectionsForEach {s : Pipeline} (hs : s.Inv) (h : HashOrder Int)
    (ps : List ElemPtr) :
    ∃ t, Pipeline.removeConnectionsForEach h ps s = some t ∧ t.Inv ∧ s.Shrinks t := by
  induction ps generalizing s with
  | nil => exact ⟨s, rfl, hs, .refl s⟩
  | cons p ps ih =>
    obtain ⟨s', hs', hi', hsh', -⟩ := hs.removeConnectionsForElement h p
    obtain ⟨t, ht, hi, hsh⟩ := ih hi'
    exact ⟨t, by simp [Pipeline.removeConnectionsForEach, hs', ht], hi, hsh'.trans hsh⟩

/-- Without connections the maps of elements can be emptied. -/
theorem Inv.removeElements {s : Pipeline} (hs : s.Inv) (hc : s.m_connections = ∅)
    (m_changed : Bool) :
    ({ s with m_children := ∅, m_producers := ∅, m_processors := ∅, m_changed := m_changed } :
      Pipeline).Inv where
  child_id k p h := by simp at h
  child_set k p h := by simp at h
  producers k p := by simp
  processors k p := by simp
  allocated := hs.allocated
  input_pin := hs.input_pin
  output_pin := hs.output_pin
  linked k c h := by simp [hc] at h
  nodup := hs.nodup
  output_listed := hs.output_listed
  input_listed := hs.input_listed

theorem Inv.clear {s : Pipeline} (hs : s.Inv) (h : HashOrder Int) :
    ∃ t, s.clear h = some t ∧ t.Inv ∧ Keeps isRegistered s t := by
  obtain ⟨s', hs', hi', hc', hk'⟩ := hs.removeAllConnections isRegistered
  obtain ⟨t, ht, hi, hsh⟩ := hi'.removeConnectionsForEach h (valuesOf s'.m_children)
  have hc : t.m_connections = ∅ := by
    apply Std.ExtTreeMap.ext_getElem?
    intro k
    cases hk : t.m_connections[k]? with
    | none => simp
    | some c => simpa [hc'] using hsh.connections k c hk
  exact ⟨_, by simp [Pipeline.clear, hs', Pipeline.removeAllElements, ht],
    hi.removeElements hc true, hk'.trans (hsh.keeps.congr rfl rfl fun _ => rfl)⟩

end Pipeline

structure Element.Constructed (e : Element) : Prop where
  input : ∀ (i : Int) pin, e.m_inputPins[i]? = some pin →
    pin.m_id = i ∧ pin.m_connection = none ∧ e.kind = .processor
  output : ∀ (i : Int) pin, e.m_outputPins[i]? = some pin → pin.m_id = i ∧ pin.m_connections = []

inductive Edit where
  | addElement (p : ElemPtr)
  | removeElement (id : Int)
  | connectPins (out inp : PinRef)
  | pinConnectionDisconnect (id : Int)
  | clear

namespace Pipeline

variable {isRegistered : Int → Bool}

/-- `addElement` gets an element that may be added, `connectPins` pins of children, which it does
not look at. -/
def Allowed (s : Pipeline) : Edit → Prop
  | .addElement p => s.canAddElement p = true
  | .connectPins out inp =>
    (∃ o, s.outputPin out = some o) ∧ (∃ i, s.inputPin inp = some i) ∧
      s.IsChild out.owner ∧ s.IsChild inp.owner
  | .removeElement _ | .pinConnectionDisconnect _ | .clear => True

section Edits
variable (isRegistered : Int → Bool) (h : HashOrder Int)

/-- One call; a `connectPins` that throws leaves what it wrote. -/
def edit (s : Pipeline) : Edit → Option Pipeline
  | .addElement p => some (s.addElement p)
  | .removeElement id => s.removeElement h id
  | .connectPins out inp => (s.connectPins isRegistered out inp).map Prod.fst
  | .pinConnectionDisconnect id => s.pinConnectionDisconnect id
  | .clear => s.clear h

def edits : List Edit → Pipeline → Option Pipeline
  | [], s => some s
  | e :: es, s => (s.edit isRegistered h e).bind (edits es)

def AllowedRun : List Edit → Pipeline → Prop
  | [], _ => True
  | e :: es, s => s.Allowed e ∧ ∀ t, s.edit isRegistered h e = some t → AllowedRun es t

end Edits

theorem Inv.new {elems : ElemPtr → Element} (he : ∀ p, (elems p).Constructed)
    (m_changed : Bool) : (Pipeline.new elems m_changed).Inv where
  child_id k p hk := by simp [Pipeline.new] at hk
  child_set k p hk := by simp [Pipeline.new] at hk
  producers k p := by simp [Pipeline.new]
  processors k p := by simp [Pipeline.new]
  allocated k c hk := by simp [Pipeline.new] at hk
  input_pin r i hi := by
    obtain ⟨hid, _, hkind⟩ := (he r.owner).input r.id i hi
    exact ⟨hid, hkind⟩
  output_pin r o ho := ((he r.owner).output r.id o ho).1
  linked k c hk := by simp [Pipeline.new] at hk
  nodup r o ho := by
    rw [((he r.owner).output r.id o ho).2]
    exact List.nodup_nil
  output_listed r o c ho hc := by
    rw [((he r.owner).output r.id o ho).2] at hc
    cases hc
  input_listed r i c hi hc := by
    rw [((he r.owner).input r.id i hi).2.1] at hc
    cases hc

theorem Inv.edit {s : Pipeline} (hs : s.Inv) (h : HashOrder Int) {e : Edit}
    (ha : s.Allowed e) :
    ∃ t, s.edit isRegistered h e = some t ∧ t.Inv ∧ Keeps isRegistered s t := by
  cases e with
  | addElement p => exact ⟨_, rfl, hs.addElement ha, addElement_keeps isRegistered s p⟩
  | removeElement id => exact hs.removeElement h id
  | connectPins out inp =>
    obtain ⟨⟨o, ho⟩, ⟨i, hi⟩, hsrc, hsink⟩ := ha
    obtain ⟨t, res, ht, hi', hk⟩ :=
      hs.connectPins isRegistered ho hi hsrc hsink
    exact ⟨t, by simp [Pipeline.edit, ht], hi', hk⟩
  | pinConnectionDisconnect id =>
    cases hid : s.m_connections[id]? with
    | none => exact ⟨s, threadUnsafeDisconnect_unknown hid, hs, .refl s⟩
    | some c =>
      obtain ⟨t, ht, hi, hsh, -⟩ := hs.threadUnsafeDisconnect hid
      exact ⟨t, ht, hi, hsh.keeps⟩
  | clear => exact hs.clear h

theorem Inv.edits {s : Pipeline} (hs : s.Inv) (h : HashOrder Int) {es : List Edit}
    (ha : AllowedRun isRegistered h es s) :
    ∃ t, Pipeline.edits isRegistered h es s = some t ∧ t.Inv ∧ Keeps isRegistered s t := by
  induction es generalizing s with
  | nil => exact ⟨s, rfl, hs, .refl s⟩
  | cons e es ih =>
    obtain ⟨t, ht, hi, hk⟩ := hs.edit h ha.1
    obtain ⟨u, hu, hi', hk'⟩ := ih hi (ha.2 t ht)
    exact ⟨u, by simp [Pipeline.edits, ht, hu], hi', hk.trans hk'⟩

/-- The maps, the pin lists and the back pointers of the children agree. -/
structure Consistent (s : Pipeline) : Prop where
  child_id : ∀ (k : Int) p, s.m_children[k]? = some p → (s.elems p).m_id = k
  connection_id : ∀ (k : Int) c, s.m_connections[k]? = some c → (s.conns c).m_id = k
  producers : ∀ (k : Int) p, s.m_producers[k]? = some p ↔
    s.m_children[k]? = some p ∧ (s.elems p).kind = .producer
  processors : ∀ (k : Int) p, s.m_processors[k]? = some p ↔
    s.m_children[k]? = some p ∧ (s.elems p).kind = .processor
  connection : ∀ (k : Int) c, s.m_connections[k]? = some c → ∃ out inp o i,
    s.conns c = ⟨k, some out, some inp⟩ ∧
    s.outputPin out = some o ∧ o.m_connections.count c = 1 ∧
    s.inputPin inp = some i ∧ i.m_connection = some c ∧
    s.IsChild out.owner ∧ s.IsChild inp.owner ∧
    o.m_typeId = i.m_typeId ∧ out.owner ≠ inp.owner
  output : ∀ r o c, s.IsChild r.owner → s.outputPin r = some o → c ∈ o.m_connections →
    ∃ k : Int, s.m_connections[k]? = some c ∧ (s.conns c).m_producer = some r
  input : ∀ r i c, s.IsChild r.owner → s.inputPin r = some i → i.m_connection = some c →
    ∃ k : Int, s.m_connections[k]? = some c ∧ (s.conns c).m_consumer = some r

theorem Inv.consistent {s : Pipeline} (hs : s.Inv) : s.Consistent where
  child_id := hs.child_id
  connection_id k c hk := by
    obtain ⟨_, _, hl⟩ := hs.linked k c hk
    exact congrArg PinConnection.m_id hl.conn
  producers := hs.producers
  processors := hs.processors
  connection k c hk := by
    obtain ⟨out, inp, hl⟩ := hs.linked k c hk
    obtain ⟨o, i, ho, hm, hi, hic, ht⟩ := hl.pins
    exact ⟨out, inp, o, i, hl.conn, ho, List.count_eq_one_of_mem (hs.nodup out o ho) hm, hi, hic,
      hl.source, hl.sink, ht, hl.distinct⟩
  output r o c _ := hs.output_listed r o c
  input r i c _ := hs.input_listed r i c

/-- Editing an empty pipeline never runs into an assertion and keeps the graph consistent, as long as
only pins of children are connected. -/
theorem edits_consistent (isRegistered : Int → Bool) (h : HashOrder Int) {elems : ElemPtr → Element}
    (he : ∀ p, (elems p).Constructed) (m_changed : Bool) {es : List Edit}
    (ha : AllowedRun isRegistered h es (new elems m_changed)) :
    ∃ t, edits isRegistered h es (new elems m_changed) = some t ∧ t.Consistent := by
  obtain ⟨t, ht, hi, -⟩ := (Inv.new he m_changed).edits h ha
  exact ⟨t, ht, hi.consistent⟩

def source (type : Int) : Element where
  className := "Source"
  kind := .producer
  isTCPServer := false
  m_id := -1
  m_inputPins := ∅
  m_outputPins := (∅ : QMap OutputPin).insert 0 ⟨0, type, false, []⟩

def tcpServer : Element where
  className := "TCPServerProcessor"
  kind := .processor
  isTCPServer := true
  m_id := -1
  m_inputPins := (∅ : QMap InputPin).insert 0 { genericPin with m_id := 0 }
  m_outputPins := ∅

theorem source_constructed (type : Int) : (source type).Constructed where
  input i pin h := by simp [source] at h
  output i pin h := by
    rcases QMap.of_insert h with ⟨rfl, rfl⟩ | h
    · exact ⟨rfl, rfl⟩
    · simp at h

theorem tcpServer_constructed : tcpServer.Constructed where
  input i pin h := by
    rcases QMap.of_insert h with ⟨rfl, rfl⟩ | h
    · exact ⟨rfl, rfl, rfl⟩
    · simp at h
  output i pin h := by simp [tcpServer] at h

def sourceAndTcpServer (p : ElemPtr) : Element := if p = 1 then tcpServer else source 5

theorem sourceAndTcpServer_constructed (p : ElemPtr) : (sourceAndTcpServer p).Constructed := by
  unfold sourceAndTcpServer
  split
  · exact tcpServer_constructed
  · exact source_constructed 5

theorem edits_consistent_tcpServer :
    ∃ t, edits (fun _ => true) (.ascending Int)
      [.addElement 0, .addElement 1, .connectPins ⟨0, 0⟩ ⟨1, 0⟩, .removeElement 0]
      (new sourceAndTcpServer false) = some t ∧ t.Consistent := by
  refine edits_consistent _ _ sourceAndTcpServer_constructed _ ⟨rfl, ?_⟩
  rintro t ht
  cases ht
  refine ⟨rfl, ?_⟩
  rintro t ht
  cases ht
  refine ⟨⟨⟨_, rfl⟩, ⟨_, rfl⟩, ⟨0, by decide⟩, ⟨1, by decide⟩⟩, ?_⟩
  intro t ht
  exact ⟨trivial, fun _ _ => trivial⟩

/-- What a pipeline does not have among its children has no connection. -/
theorem Consistent.child {s : Pipeline} (hs : s.Consistent) {k : Int} {c : ConnPtr}
    (hk : s.m_connections[k]? = some c) : s.m_children ≠ ∅ := by
  obtain ⟨out, inp, o, i, -, -, -, -, -, ⟨k', hk'⟩, -⟩ := hs.connection k c hk
  intro hempty
  rw [hempty, Std.ExtTreeMap.getElem?_empty] at hk'
  cases hk'

/-- Both elements are removed while the user draws a connection from one to the other. -/
def removeBoth : List Edit := [.addElement 0, .addElement 1, .removeElement 0, .removeElement 1]

theorem removeBoth_allowed : AllowedRun (fun _ => true) (.ascending Int) removeBoth
    (new sourceAndTcpServer false) := by
  refine ⟨rfl, ?_⟩
  rintro t ht
  cases ht
  refine ⟨rfl, ?_⟩
  intro t ht
  exact ⟨trivial, fun _ _ => ⟨trivial, fun _ _ => trivial⟩⟩

/-- The pipeline is empty then, and gets a connection. -/
theorem edits_consistent_removed : ∃ s t,
    AllowedRun (fun _ => true) (.ascending Int) removeBoth (new sourceAndTcpServer false) ∧
    edits (fun _ => true) (.ascending Int) removeBoth (new sourceAndTcpServer false) = some s ∧
    (s.outputPin ⟨0, 0⟩).isSome ∧ (s.inputPin ⟨1, 0⟩).isSome ∧
    s.edit (fun _ => true) (.ascending Int) (.connectPins ⟨0, 0⟩ ⟨1, 0⟩) = some t ∧
    t.m_children = ∅ ∧ (∃ c, t.m_connections[(0 : Int)]? = some c) ∧ ¬ t.Consistent := by
  have hend : ((edits (fun _ => true) (.ascending Int) removeBoth
      (new sourceAndTcpServer false)).bind fun s =>
        (s.edit (fun _ => true) (.ascending Int) (.connectPins ⟨0, 0⟩ ⟨1, 0⟩)).map fun t =>
          ((s.outputPin ⟨0, 0⟩).isSome, (s.inputPin ⟨1, 0⟩).isSome, t.m_children.isEmpty,
            (t.m_connections[(0 : Int)]?).isSome)) = some (true, true, true, true) := by
    decide +kernel
  obtain ⟨s, hs, hend⟩ := Option.bind_eq_some_iff.mp hend
  obtain ⟨t, ht, hview⟩ := Option.map_eq_some_iff.mp hend
  obtain ⟨hout, hinp, hempty, hconn⟩ := by simpa only [Prod.mk.injEq] using hview
  obtain ⟨c, hc⟩ := Option.isSome_iff_exists.mp hconn
  have hnone : t.m_children = ∅ := Std.ExtTreeMap.isEmpty_iff.mp hempty
  exact ⟨s, t, removeBoth_allowed, hs, hout, hinp, ht, hnone, ⟨c, hc⟩,
    fun hcons => hcons.child hc hnone⟩

end Pipeline

end ParleVision.Graph
