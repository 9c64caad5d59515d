import ParleVision.Loader.Sound

namespace ParleVision.Loader
open Lib ParleVision.Graph

/-- The connections, each as the four numbers a document has for it. -/
def connectionSet (s : Graph.Pipeline) : Set XmlConnection :=
  { x | ∃ (k : Int) (c : ConnPtr), s.m_connections[k]? = some c ∧ serializeConnection s c = some x }

/-- The same element ids with the same types, and the same connections. -/
def SameGraph (s t : Graph.Pipeline) : Prop :=
  (∀ k, Pipeline.childName s k = Pipeline.childName t k) ∧ connectionSet s = connectionSet t

theorem serializeConnection_linked {s : Graph.Pipeline} (hs : s.Inv) {k : Int} {c : ConnPtr}
    {out inp : PinRef} (hl : s.Linked k c out inp) : serializeConnection s c =
      some ⟨some (s.elems out.owner).m_id, some out.id, some (s.elems inp.owner).m_id,
        some inp.id⟩ := by
  obtain ⟨o, i, ho, -, hi, -, -⟩ := hl.pins
  simp [serializeConnection, hl.conn, ho, hi, hs.output_pin out o ho, (hs.input_pin inp i hi).1]

/-- Elements of one class differ in what connections can change only. -/
theorem Made.same {R : Registry P} {s t : Graph.Pipeline} {p q : ElemPtr} (hp : Made R s p)
    (hq : Made R t q) (hn : (s.elems p).className = (t.elems q).className) :
    (s.elems p).kind = (t.elems q).kind ∧
    (s.elems p).isTCPServer = (t.elems q).isTCPServer ∧
    (∀ i : Int, (s.outputPin ⟨p, i⟩).map OutputPin.shape =
      (t.outputPin ⟨q, i⟩).map OutputPin.shape) ∧
    ((s.elems p).isTCPServer = false → ∀ i : Int, (s.inputPin ⟨p, i⟩).map InputPin.shape =
      (t.inputPin ⟨q, i⟩).map InputPin.shape) ∧
    ((s.elems p).isTCPServer = true → s.Generic p ∧ t.Generic q) := by
  obtain ⟨e, props, hc, hk, ht, ho, hi, hg⟩ := hp
  obtain ⟨e', props', hc', hk', ht', ho', hi', hg'⟩ := hq
  rw [hn, hc'] at hc
  cases hc
  refine ⟨hk.trans hk'.symm, ht.trans ht'.symm, fun i => (ho i).trans (ho' i).symm, ?_, ?_⟩
  · intro hf i
    have hf' : e.isTCPServer = false := ht.symm.trans hf
    exact (hi hf' i).trans (hi' hf' i).symm
  · intro hf
    have hf' : e.isTCPServer = true := ht.symm.trans hf
    exact ⟨hg hf', hg' hf'⟩

/-- The pins of an element that the given connections end in. -/
def pinsOf (s : Graph.Pipeline) (q : ElemPtr) (cs : List ConnPtr) : List Int :=
  cs.filterMap fun c => (s.conns c).m_consumer.bind fun inp =>
    if inp.owner = q then some inp.id else none

/-- In the order of their ids, the connections of each server end in its pins 0, 1, 2 and so on. -/
def ServersInOrder (s : Graph.Pipeline) : Prop :=
  ∀ q, (s.elems q).isTCPServer = true →
    pinsOf s q (valuesOf s.m_connections) =
      (List.range (pinsOf s q (valuesOf s.m_connections)).length).map Int.ofNat

def InOrderFrom (s : Graph.Pipeline) : List ConnPtr → List ConnPtr → Prop
  | _, [] => True
  | done, c :: cs =>
    (∀ inp, (s.conns c).m_consumer = some inp → (s.elems inp.owner).isTCPServer = true →
      inp.id = (pinsOf s inp.owner done).length) ∧ InOrderFrom s (done ++ [c]) cs

theorem inOrderFrom_iff {s : Graph.Pipeline} (done cs : List ConnPtr) :
    InOrderFrom s done cs ↔ ∀ q, (s.elems q).isTCPServer = true →
      pinsOf s q cs = (List.range' (pinsOf s q done).length (pinsOf s q cs).length).map
        Int.ofNat := by
  induction cs generalizing done with
  | nil => simp [InOrderFrom, pinsOf]
  | cons c cs ih =>
    unfold InOrderFrom
    rw [ih]
    have hcons : ∀ q, pinsOf s q (c :: cs) = pinsOf s q [c] ++ pinsOf s q cs := fun q =>
      List.filterMap_append (l := [c])
    have hsnoc : ∀ q, pinsOf s q (done ++ [c]) = pinsOf s q done ++ pinsOf s q [c] := fun q =>
      List.filterMap_append
    have hhere : ∀ inp, (s.conns c).m_consumer = some inp → pinsOf s inp.owner [c] = [inp.id] := by
      intro inp hinp
      simp [pinsOf, hinp]
    have hother : ∀ q, (∀ inp, (s.conns c).m_consumer = some inp → inp.owner ≠ q) →
        pinsOf s q [c] = [] := by
      intro q hq
      cases hc : (s.conns c).m_consumer with
      | none => simp [pinsOf, hc]
      | some inp => simp [pinsOf, hc, hq inp hc]
    have hstep : ∀ q, (s.elems q).isTCPServer = true →
        ((pinsOf s q (c :: cs) = (List.range' (pinsOf s q done).length
            (pinsOf s q (c :: cs)).length).map Int.ofNat) ↔
          (∀ inp, (s.conns c).m_consumer = some inp → inp.owner = q →
            inp.id = (pinsOf s inp.owner done).length) ∧
          pinsOf s q cs = (List.range' (pinsOf s q (done ++ [c])).length
            (pinsOf s q cs).length).map Int.ofNat) := by
      intro q _
      rw [hcons, hsnoc]
      by_cases hq : ∃ inp, (s.conns c).m_consumer = some inp ∧ inp.owner = q
      · obtain ⟨inp, hinp, rfl⟩ := hq
        rw [hhere inp hinp]
        have : ∀ inp', (s.conns c).m_consumer = some inp' → inp' = inp := by
          intro inp' h'
          rw [hinp] at h'
          exact (Option.some.inj h').symm
        simp only [List.singleton_append, List.length_cons, List.range'_succ, List.map_cons,
          List.cons.injEq, List.length_append, List.length_nil, Nat.zero_add]
        refine and_congr_left fun _ => ?_
        constructor
        · intro hid inp' h' _
          rw [this inp' h']
          exact hid
        · intro h
          exact h inp hinp rfl
      · have hnone : ∀ inp, (s.conns c).m_consumer = some inp → inp.owner ≠ q :=
          fun inp h he => hq ⟨inp, h, he⟩
        rw [hother q hnone]
        simp only [List.nil_append, List.append_nil]
        constructor
        · intro h
          exact ⟨fun inp hinp he => absurd he (hnone inp hinp), h⟩
        · exact fun h => h.2
    constructor
    · rintro ⟨h₁, h₂⟩ q hq
      refine (hstep q hq).mpr ⟨?_, h₂ q hq⟩
      rintro inp hinp rfl
      exact h₁ inp hinp hq
    · intro h
      refine ⟨?_, fun q hq => ((hstep q hq).mp (h q hq)).2⟩
      intro inp hinp hq
      exact ((hstep inp.owner hq).mp (h inp.owner hq)).1 inp hinp rfl

theorem serversInOrder_iff (s : Graph.Pipeline) :
    ServersInOrder s ↔ InOrderFrom s [] (valuesOf s.m_connections) := by
  rw [inOrderFrom_iff]
  simp [ServersInOrder, pinsOf, List.range_eq_range']

/-- A saved pipeline: consistent, of registered types, every child made by the registry. -/
structure Saved (R : Registry P) (s : Graph.Pipeline) : Prop where
  inv : s.Inv
  registered : s.Registered R.isRegistered
  made : ∀ (k : Int) p, s.m_children[k]? = some p → Made R s p

/-- What reading a saved pipeline `s` has made once its elements `done` have been read. -/
structure ElementsLoaded (R : Registry P) (s : Graph.Pipeline) (done : List ElemPtr)
    (t : Pipeline P) : Prop where
  sound : t.Sound R
  names : ∀ k name, Pipeline.childName t.toPipeline k = some name ↔
    ∃ p ∈ done, (s.elems p).m_id = k ∧ (s.elems p).className = name
  connections : t.m_connections = ∅
  servers : ∀ (k : Int) q, t.m_children[k]? = some q → (t.elems q).isTCPServer = true →
    ∀ i : Int, t.inputPin ⟨q, i⟩ = if i = 0 then some { genericPin with m_id := 0 } else none

theorem child_eq_of_id {s : Graph.Pipeline} (hs : s.Inv) {p q : ElemPtr} (hp : s.IsChild p)
    (hq : s.IsChild q) (h : (s.elems p).m_id = (s.elems q).m_id) : p = q := by
  obtain ⟨k, hk⟩ := hp
  obtain ⟨k', hk'⟩ := hq
  have he : k = k' := by rw [← hs.child_id k p hk, ← hs.child_id k' q hk', h]
  subst k'
  rw [hk] at hk'
  exact Option.some.inj hk'

section Elements
variable {R : Registry P} {s : Pipeline P} {done : List ElemPtr} {t : Pipeline P}

theorem ElementsLoaded.parseElement (hR : R.Sound) (hs : Saved R s.toPipeline)
    (ht : ElementsLoaded R s.toPipeline done t) (hdone : ∀ p ∈ done, s.IsChild p) {p : ElemPtr}
    (hp : s.IsChild p) (hnew : p ∉ done) {x : XmlElement}
    (hx : s.serializeElement R p = some x) :
    ∃ t', t.parseElement R x = (t', .ok ()) ∧
      ElementsLoaded R s.toPipeline (done ++ [p]) t' := by
  obtain ⟨texts, -, rfl⟩ := Option.map_eq_some_iff.mp hx
  obtain ⟨k, hk⟩ := hp
  obtain rfl := hs.inv.child_id k p hk
  obtain ⟨e, props, hc, -⟩ := hs.made _ p hk
  have hset := hs.inv.child_set _ p hk
  -- no element read before has this id
  have hfree : (s.elems p).m_id ∉ t.m_children := by
    intro hm
    obtain ⟨q, hq⟩ := Option.isSome_iff_exists.mp (Std.ExtTreeMap.mem_iff_isSome_getElem?.mp hm)
    obtain ⟨p', hp', hid, -⟩ := (ht.names (s.elems p).m_id (t.elems q).className).mp
      (by simp [Pipeline.childName, hq])
    exact hnew (child_eq_of_id hs.inv (hdone p' hp') ⟨_, hk⟩ hid ▸ hp')
  rcases t.parseElement_cases R ⟨some (s.elems p).m_id, (s.elems p).className, texts⟩ with
    ⟨hnone, -⟩ | ⟨e', props', hc', ⟨-, hused, -⟩ | ⟨hok, hstep⟩⟩
  · rw [hc] at hnone
    cases hnone
  · exact absurd hused hfree
  obtain ⟨rfl, rfl⟩ := Prod.mk.inj (Option.some.inj (hc.symm.trans hc'))
  have hid : Pipeline.newId t.toPipeline ⟨some (s.elems p).m_id, (s.elems p).className, texts⟩ =
      (s.elems p).m_id := if_neg hset
  refine ⟨_, hstep, ht.sound.added hR hc hok, ?_, ?_, ?_⟩
  · intro k name
    rw [Pipeline.added_childName hR ht.sound hc, hid]
    split
    · rename_i hkid
      subst k
      simp only [Option.some.injEq, List.mem_append, List.mem_singleton]
      constructor
      · rintro rfl
        exact ⟨p, .inr rfl, rfl, rfl⟩
      · rintro ⟨p', hp' | rfl, hid', hname⟩
        · exact absurd (child_eq_of_id hs.inv (hdone p' hp') ⟨_, hk⟩ hid' ▸ hp') hnew
        · exact hname
    · rename_i hkid
      rw [ht.names]
      simp only [List.mem_append, List.mem_singleton]
      constructor
      · rintro ⟨p', hp', h⟩
        exact ⟨p', .inl hp', h⟩
      · rintro ⟨p', hp' | rfl, h, h'⟩
        · exact ⟨p', hp', h, h'⟩
        · exact absurd h.symm hkid
  · exact ht.connections
  · intro k q hq htcp i
    rw [Pipeline.added_children] at hq
    rw [Pipeline.added_isTCPServer] at htcp
    rw [Pipeline.added_inputPin]
    rcases QMap.of_insert hq with ⟨-, rfl⟩ | hq
    · rw [if_pos rfl] at htcp ⊢
      exact (hR.tcpServer _ e props hc htcp).2 i
    · have hne : q ≠ t.nextElem := Nat.ne_of_lt (ht.sound.constructed k q hq)
      rw [if_neg hne] at htcp ⊢
      exact ht.servers k q hq htcp i

theorem ElementsLoaded.parseElements (hR : R.Sound) (hs : Saved R s.toPipeline)
    (ht : ElementsLoaded R s.toPipeline done t) {ps : List ElemPtr}
    (hps : ∀ p ∈ done ++ ps, s.IsChild p) (hn : (done ++ ps).Nodup) {xs : List XmlElement}
    (hxs : ps.mapM (s.serializeElement R) = some xs) :
    ∃ t', Pipeline.parseElements R xs t = (t', .ok ()) ∧
      ElementsLoaded R s.toPipeline (done ++ ps) t' := by
  induction ps generalizing done t xs with
  | nil =>
    cases hxs
    exact ⟨t, rfl, by simpa using ht⟩
  | cons p ps ih =>
    simp only [List.mapM_cons, Option.bind_eq_bind, Option.bind_eq_some_iff,
      Option.pure_def] at hxs
    obtain ⟨x, hx, ys, hys, hxs⟩ := hxs
    cases hxs
    have hnew : p ∉ done := by
      intro hm
      exact (List.nodup_append.mp hn).2.2 p hm p (by simp) rfl
    obtain ⟨t', hok, ht'⟩ := ht.parseElement hR hs (fun p hp => hps p (by simp [hp]))
      (hps p (by simp)) hnew hx
    obtain ⟨t'', hok', ht''⟩ := ih ht' (by simpa using hps) (by simpa using hn) hys
    exact ⟨t'', by simp [Pipeline.parseElements, hok, hok'], by simpa using ht''⟩

end Elements

structure Loaded (R : Registry P) (s : Graph.Pipeline) (done : List ConnPtr) (t : Pipeline P) :
    Prop where
  sound : t.Sound R
  names : ∀ k, Pipeline.childName t.toPipeline k = Pipeline.childName s k
  connections : ∀ x, x ∈ connectionSet t.toPipeline ↔
    ∃ c ∈ done, serializeConnection s c = some x
  /-- a server has the pins its connections used up and one more -/
  servers : ∀ (k : Int) (q q' : ElemPtr), s.m_children[k]? = some q → t.m_children[k]? = some q' →
    (s.elems q).isTCPServer = true → ∀ i : Int,
      (t.inputPin ⟨q', i⟩ ≠ none ↔ 0 ≤ i ∧ i ≤ (pinsOf s q done).length) ∧
      ∀ pin, t.inputPin ⟨q', i⟩ = some pin →
        (pin.m_connection ≠ none ↔ i < (pinsOf s q done).length)

section Step
variable {R : Registry P} {s : Graph.Pipeline} {done : List ConnPtr} {t : Pipeline P}

/-- The element of the loaded pipeline that stands for an element of the saved one. -/
theorem Loaded.counterpart (hs : Saved R s) (ht : Loaded R s done t) {p : ElemPtr}
    (hp : s.IsChild p) : ∃ p', s.m_children[(s.elems p).m_id]? = some p ∧
      t.m_children[(s.elems p).m_id]? = some p' ∧ (t.elems p').m_id = (s.elems p).m_id ∧
      (s.elems p).className = (t.elems p').className := by
  obtain ⟨k, hk⟩ := hp
  obtain rfl := hs.inv.child_id k p hk
  have hn := ht.names (s.elems p).m_id
  simp only [Pipeline.childName, hk, Option.map_some] at hn
  obtain ⟨p', hp', hc⟩ := Option.map_eq_some_iff.mp hn
  exact ⟨p', hk, hp', ht.sound.inv.child_id _ p' hp', hc.symm⟩

/-- The pin of a connection that is still to be read is free, unless a server's pins
are out of order. -/
theorem Loaded.pin_free (hs : Saved R s) (ht : Loaded R s done t)
    (hdone : ∀ c ∈ done, ∃ k : Int, s.m_connections[k]? = some c) {k : Int} {c : ConnPtr}
    {out inp : PinRef} (hl : s.Linked k c out inp)
    (hc : c ∉ done) {q' : ElemPtr} (hq' : t.m_children[(s.elems inp.owner).m_id]? = some q')
    {i' : InputPin} (hi' : t.inputPin ⟨q', inp.id⟩ = some i') : i'.m_connection = none := by
  by_contra hne
  obtain ⟨c', hc'⟩ := Option.ne_none_iff_exists'.mp hne
  obtain ⟨k', hk', hcons⟩ := ht.sound.inv.input_listed _ i' c' hi' hc'
  obtain ⟨out', inp', hl'⟩ := ht.sound.inv.linked k' c' hk'
  rw [hl'.conn] at hcons
  obtain rfl := Option.some.inj hcons
  -- what occupies the pin was read from a connection that ends in the same pin of `s`
  obtain ⟨c'', hc'', hx⟩ := (ht.connections _).mp
    ⟨k', c', hk', serializeConnection_linked ht.sound.inv hl'⟩
  obtain ⟨k'', hk''⟩ := hdone c'' hc''
  obtain ⟨out'', inp'', hl''⟩ := hs.inv.linked k'' c'' hk''
  rw [serializeConnection_linked hs.inv hl''] at hx
  simp only [Option.some.injEq, XmlConnection.mk.injEq] at hx
  obtain ⟨-, -, hid, hpin⟩ := hx
  rw [ht.sound.inv.child_id _ q' hq'] at hid
  have hown := child_eq_of_id hs.inv hl''.sink hl.sink hid
  have hinp : inp'' = inp := by
    cases inp''
    cases inp
    simp_all
  subst inp''
  obtain ⟨-, i, -, -, hi, hic, -⟩ := hl.pins
  obtain ⟨-, j, -, -, hj, hjc, -⟩ := hl''.pins
  rw [hi] at hj
  cases hj
  rw [hic] at hjc
  cases hjc
  exact hc hc''

/-- A connection whose turn it is can be made again. -/
theorem Loaded.connectable (hs : Saved R s) (ht : Loaded R s done t)
    (hdone : ∀ c ∈ done, ∃ k : Int, s.m_connections[k]? = some c) {k : Int} {c : ConnPtr}
    {out inp : PinRef} (hl : s.Linked k c out inp)
    (hc : c ∉ done) (hturn : (s.elems inp.owner).isTCPServer = true →
      inp.id = (pinsOf s inp.owner done).length) :
    ∃ p' q' o' i' i'', t.m_children[(s.elems out.owner).m_id]? = some p' ∧
      t.m_children[(s.elems inp.owner).m_id]? = some q' ∧
      Pipeline.Connectable R t
        ⟨some (s.elems out.owner).m_id, some out.id, some (s.elems inp.owner).m_id,
        some inp.id⟩ ⟨p', out.id⟩ ⟨q', inp.id⟩ o' i' i'' := by
  obtain ⟨p', hp, hp', hpid, hpn⟩ := ht.counterpart hs hl.source
  obtain ⟨q', hq, hq', hqid, hqn⟩ := ht.counterpart hs hl.sink
  obtain ⟨o, i, ho, -, hi, hic, htype⟩ := hl.pins
  obtain ⟨-, -, houts, -, -⟩ := (hs.made _ _ hp).same (ht.sound.made _ _ hp') hpn
  obtain ⟨hkind, -, -, hins, hgen⟩ := (hs.made _ _ hq).same (ht.sound.made _ _ hq') hqn
  obtain ⟨-, hproc⟩ := hs.inv.input_pin inp i hi
  obtain ⟨o', ho', hos⟩ : ∃ o', t.outputPin ⟨p', out.id⟩ = some o' ∧ o'.shape = o.shape := by
    have h := houts out.id
    rw [show s.outputPin ⟨out.owner, out.id⟩ = some o from ho] at h
    obtain ⟨o', ho', hos⟩ := Option.map_eq_some_iff.mp h.symm
    exact ⟨o', ho', hos⟩
  have hotype : o'.shape.m_typeId = o.shape.m_typeId := congrArg OutputPin.m_typeId hos
  change o'.m_typeId = o.m_typeId at hotype
  obtain ⟨i', hi', his⟩ : ∃ i', t.inputPin ⟨q', inp.id⟩ = some i' ∧ i'.shape = i.shape := by
    cases htcp : (s.elems inp.owner).isTCPServer with
    | false =>
      have h := hins htcp inp.id
      rw [show s.inputPin ⟨inp.owner, inp.id⟩ = some i from hi] at h
      obtain ⟨i', hi', his⟩ := Option.map_eq_some_iff.mp h.symm
      exact ⟨i', hi', his⟩
    | true =>
      have hid := hturn htcp
      have hsome := ((ht.servers _ _ _ hq hq' htcp inp.id).1).mpr (by omega)
      obtain ⟨i', hi'⟩ := Option.ne_none_iff_exists'.mp hsome
      obtain ⟨hgs, hgt⟩ := hgen htcp
      exact ⟨i', hi', (hgt inp.id i' hi').trans (hgs inp.id i hi).symm⟩
  have hfree := ht.pin_free hs hdone hl hc hq' hi'
  have hdyn : i'.shape.isDynamicallyTyped = i.shape.isDynamicallyTyped :=
    congrArg InputPin.isDynamicallyTyped his
  change i'.isDynamicallyTyped = i.isDynamicallyTyped at hdyn
  obtain ⟨i'', hag⟩ : ∃ i'', i'.agreeOnType R.isRegistered o' = some i'' := by
    unfold InputPin.agreeOnType InputPin.setTypeId
    by_cases hd : i.isDynamicallyTyped = true
    · have hreg := hs.registered inp i hi hd (by simp [InputPin.isConnected, hic])
      rw [← htype, ← hotype] at hreg
      simp [hdyn, hd, InputPin.isConnected, hfree, hreg]
    · have hst : i'.m_typeId = i.m_typeId := by
        have := congrArg InputPin.m_typeId his
        simpa [InputPin.shape, hdyn, hd] using this
      simp [hdyn, hd, hotype, htype, hst]
  refine ⟨p', q', o', i', i'', hp', hq', hp', hq', rfl, rfl, hkind ▸ hproc, ho', hi', ?_, hfree,
    hag⟩
  -- distinct owners have distinct ids, and so distinct counterparts
  rintro rfl
  rw [hpid] at hqid
  exact hl.distinct (child_eq_of_id hs.inv hl.source hl.sink hqid)

/-- Connecting adds one connection. -/
theorem connectionSet_connectedTo (ht : t.Sound R) {y : XmlConnection} {out inp : PinRef}
    {o : OutputPin} {i i' : InputPin} (hcon : Pipeline.Connectable R t y out inp o i i')
    (x : XmlConnection) : x ∈ connectionSet (t.connectedTo out inp o i').toPipeline ↔
      x ∈ connectionSet t.toPipeline ∨ x = ⟨some (t.elems out.owner).m_id, some out.id,
        some (t.elems inp.owner).m_id, some inp.id⟩ := by
  have ht' := ht.connectedTo hcon
  have hfree := Graph.Pipeline.getNewPinConnectionId_free t.toPipeline
  have hid : ∀ p, ((t.connectedTo out inp o i').elems p).m_id = (t.elems p).m_id := fun p =>
    Graph.Pipeline.id_of_header ((Graph.Pipeline.header_connected _ out inp o i' p).trans
      (Graph.Pipeline.header_setInputPin _ inp p i'))
  have hconns : (t.connectedTo out inp o i').conns =
      Function.update t.conns t.nextConn ⟨t.getNewPinConnectionId, some out, some inp⟩ :=
    Graph.Pipeline.connected_conns _ out inp o i'
  have hmap : ∀ k : Int, (t.connectedTo out inp o i').m_connections[k]? =
      if k = t.getNewPinConnectionId then some t.nextConn else t.m_connections[k]? :=
    Graph.Pipeline.connected_connections _ out inp o i'
  -- a connection of either pipeline is linked there, and the objects agree on its pins
  have hserial : ∀ (k : Int) c out₁ inp₁, (t.connectedTo out inp o i').m_connections[k]? = some c →
      (t.connectedTo out inp o i').conns c = ⟨k, some out₁, some inp₁⟩ →
      serializeConnection (t.connectedTo out inp o i').toPipeline c =
        some ⟨some (t.elems out₁.owner).m_id, some out₁.id, some (t.elems inp₁.owner).m_id,
          some inp₁.id⟩ := by
    intro k c out₁ inp₁ hk hc
    obtain ⟨out₂, inp₂, hl⟩ := ht'.inv.linked k c hk
    rw [hl.conn] at hc
    cases hc
    rw [serializeConnection_linked ht'.inv hl, hid, hid]
  have hold : ∀ (k : Int) c, t.m_connections[k]? = some c →
      serializeConnection (t.connectedTo out inp o i').toPipeline c =
        serializeConnection t.toPipeline c := by
    intro k c hk
    obtain ⟨out₁, inp₁, hl⟩ := ht.inv.linked k c hk
    have hne : c ≠ t.nextConn := Nat.ne_of_lt (ht.inv.allocated k c hk)
    have hkne : k ≠ t.getNewPinConnectionId := by
      rintro rfl
      rw [hfree] at hk
      cases hk
    rw [serializeConnection_linked ht.inv hl]
    refine hserial k c out₁ inp₁ ?_ ?_
    · rw [hmap, if_neg hkne, hk]
    · rw [hconns, Function.update_of_ne hne, hl.conn]
  constructor
  · rintro ⟨k, c, hk, hx⟩
    rw [hmap] at hk
    split at hk
    · rename_i hkid
      cases hk
      right
      rw [hserial k t.nextConn out inp] at hx
      · exact (Option.some.inj hx).symm
      · rw [hmap, if_pos hkid]
      · rw [hconns, Function.update_self, hkid]
    · rw [hold k c hk] at hx
      exact .inl ⟨k, c, hk, hx⟩
  · rintro (⟨k, c, hk, hx⟩ | rfl)
    · refine ⟨k, c, ?_, (hold k c hk).trans hx⟩
      rw [hmap, if_neg, hk]
      rintro rfl
      rw [hfree] at hk
      cases hk
    · refine ⟨t.getNewPinConnectionId, t.nextConn, ?_, hserial t.getNewPinConnectionId _ _ _ ?_ ?_⟩
      · rw [hmap, if_pos rfl]
      · rw [hmap, if_pos rfl]
      · rw [hconns, Function.update_self]

theorem pinsOf_append (q : ElemPtr) (cs cs' : List ConnPtr) :
    pinsOf s q (cs ++ cs') = pinsOf s q cs ++ pinsOf s q cs' := List.filterMap_append

theorem pinsOf_singleton {k : Int} {c : ConnPtr} {out inp : PinRef} (hl : s.Linked k c out inp)
    (q : ElemPtr) : pinsOf s q [c] = if inp.owner = q then [inp.id] else [] := by
  by_cases hq : inp.owner = q <;> simp [pinsOf, hl.conn, hq]

/-- Reading one more connection. -/
theorem Loaded.connectedTo (hs : Saved R s) (ht : Loaded R s done t) {k : Int} {c : ConnPtr}
    {out inp : PinRef} (hl : s.Linked k c out inp)
    (hturn : (s.elems inp.owner).isTCPServer = true → inp.id = (pinsOf s inp.owner done).length)
    {p' q' : ElemPtr} {o' : OutputPin} {i' i'' : InputPin}
    (hp' : t.m_children[(s.elems out.owner).m_id]? = some p')
    (hq' : t.m_children[(s.elems inp.owner).m_id]? = some q')
    (hcon : Pipeline.Connectable R t ⟨some (s.elems out.owner).m_id, some out.id,
      some (s.elems inp.owner).m_id, some inp.id⟩ ⟨p', out.id⟩ ⟨q', inp.id⟩ o' i' i'') :
    Loaded R s (done ++ [c]) (t.connectedTo ⟨p', out.id⟩ ⟨q', inp.id⟩ o' i'') := by
  have hheader : ∀ p, (t.connectedTo ⟨p', out.id⟩ ⟨q', inp.id⟩ o' i'').header p = t.header p :=
    fun p => (Graph.Pipeline.header_connected _ _ _ o' i'' p).trans
      (Graph.Pipeline.header_setInputPin _ _ p i'')
  have hchildren : (t.connectedTo ⟨p', out.id⟩ ⟨q', inp.id⟩ o' i'').m_children = t.m_children :=
    Graph.Pipeline.connected_children _ _ _ o' i''
  constructor
  case sound => exact ht.sound.connectedTo hcon
  case names =>
    intro k
    rw [← ht.names k]
    unfold Pipeline.childName
    rw [hchildren]
    exact Option.map_congr fun p _ => Graph.Pipeline.className_of_header (hheader p)
  case connections =>
    intro x
    rw [connectionSet_connectedTo ht.sound hcon, ht.connections,
      ht.sound.inv.child_id _ p' hp', ht.sound.inv.child_id _ q' hq']
    simp only [List.mem_append, List.mem_singleton, or_and_right, exists_or, exists_eq_left,
      serializeConnection_linked hs.inv hl, Option.some.injEq]
    rw [eq_comm (a := x)]
  case servers =>
    intro k' r r' hr hr' htcp j
    rw [hchildren] at hr'
    rw [pinsOf_append, pinsOf_singleton hl]
    obtain ⟨hin, hin'⟩ := ht.servers k' r r' hr hr' htcp j
    have hr_id := hs.inv.child_id k' r hr
    by_cases hown : inp.owner = r
    · -- the server the connection ends in: its free pin is taken and one more added
      subst hown
      subst hr_id
      have hr'q : r' = q' := Option.some.inj (hr'.symm.trans hq')
      subst hr'q
      have hid := hturn htcp
      have hpins := fun j => (ht.servers _ _ _ hr hr' htcp j).1
      have htcp' := ((hs.made _ _ hr).same (ht.sound.made _ _ hr') (by
        have := ht.names (s.elems inp.owner).m_id
        simpa [Pipeline.childName, hr, hr'] using this.symm)).2.1.symm.trans htcp
      rcases t.inputPin_connectedTo ⟨p', out.id⟩ ⟨r', inp.id⟩ o' i'' ⟨r', j⟩ with
        ⟨hf, -⟩ | ⟨-, m, n, hn, hm, hread⟩
      · rw [htcp'] at hf
        cases hf
      have hn' : n = ((pinsOf s inp.owner done).length + 1 : Nat) := by
        rw [hn]
        apply countUp_eq
        intro j
        rw [hm]
        dsimp only
        rw [hpins]
        omega
      rw [if_pos rfl, hread]
      simp only [PinRef.mk.injEq, true_and, List.length_append, List.length_singleton]
      by_cases hjn : j = n
      · rw [if_pos hjn]
        refine ⟨⟨fun _ => by omega, fun _ => by simp⟩, ?_⟩
        intro pin hpin
        cases hpin
        refine ⟨fun h => absurd rfl h, fun h => by omega⟩
      by_cases hji : j = inp.id
      · rw [if_neg hjn, if_pos hji]
        refine ⟨⟨fun _ => by omega, fun _ => by simp⟩, ?_⟩
        intro pin hpin
        cases hpin
        exact ⟨fun _ => by omega, fun _ => by simp⟩
      · rw [if_neg hjn, if_neg hji, hin]
        refine ⟨⟨fun h => by omega, fun h => by omega⟩, ?_⟩
        intro pin hpin
        rw [hin' pin hpin]
        exact ⟨fun h => by omega, fun h => by omega⟩
    · -- no pin of another server changes
      rw [if_neg hown, List.append_nil]
      have hne : r' ≠ q' := by
        rintro rfl
        have h₁ := ht.sound.inv.child_id _ r' hr'
        have h₂ := ht.sound.inv.child_id _ r' hq'
        rw [h₁, ← hr_id] at h₂
        exact hown (child_eq_of_id hs.inv hl.sink ⟨k', hr⟩ h₂.symm)
      have hread : (t.connectedTo ⟨p', out.id⟩ ⟨q', inp.id⟩ o' i'').inputPin ⟨r', j⟩ =
          t.inputPin ⟨r', j⟩ := by
        rcases t.inputPin_connectedTo ⟨p', out.id⟩ ⟨q', inp.id⟩ o' i'' ⟨r', j⟩ with
          ⟨-, h⟩ | ⟨-, m, n, -, -, h⟩
        · simpa [hne] using h
        · simpa [hne] using h
      rw [hread]
      exact ⟨hin, hin'⟩

/-- The next connection of a saved pipeline can be read if and only if it is its turn. -/
theorem Loaded.parseConnection (hs : Saved R s) (ht : Loaded R s done t)
    (hdone : ∀ c ∈ done, ∃ k : Int, s.m_connections[k]? = some c) {k : Int} {c : ConnPtr}
    {out inp : PinRef} (hl : s.Linked k c out inp) (hc : c ∉ done) :
    (((s.elems inp.owner).isTCPServer = true → inp.id = (pinsOf s inp.owner done).length) ∧
      ∃ t', t.parseConnection R ⟨some (s.elems out.owner).m_id, some out.id,
        some (s.elems inp.owner).m_id, some inp.id⟩ = some (t', .ok ()) ∧
        Loaded R s (done ++ [c]) t') ∨
    (¬ ((s.elems inp.owner).isTCPServer = true →
        inp.id = (pinsOf s inp.owner done).length) ∧
      ∃ e, t.parseConnection R ⟨some (s.elems out.owner).m_id, some out.id,
        some (s.elems inp.owner).m_id, some inp.id⟩ = some (t, .error e)) := by
  by_cases hturn : (s.elems inp.owner).isTCPServer = true →
      inp.id = (pinsOf s inp.owner done).length
  · obtain ⟨p', q', o', i', i'', hp', hq', hcon⟩ := ht.connectable hs hdone hl hc hturn
    exact .inl ⟨hturn, _, Pipeline.parseConnection_ok hcon,
      ht.connectedTo hs hl hturn hp' hq' hcon⟩
  · refine .inr ⟨hturn, Pipeline.parseConnection_error ?_⟩
    intro out' inp' o' i' i'' hcon
    apply hturn
    intro htcp
    obtain ⟨k', hk'⟩ := hl.sink
    obtain rfl := hs.inv.child_id k' _ hk'
    obtain ⟨hin, hin'⟩ := ht.servers _ _ _ hk' hcon.sink htcp inp.id
    have hread : t.inputPin ⟨inp'.owner, inp.id⟩ = some i' := by
      rw [show inp.id = inp'.id from hcon.sinkPin.symm]
      exact hcon.input
    -- the pin must be there and free, and only one of a server's pins is
    have hrange := hin.mp (by simp [hread])
    have htaken := mt (hin' i' hread).mpr (not_not.mpr hcon.free)
    omega

theorem Loaded.parseConnections (hs : Saved R s) (ht : Loaded R s done t) {cs : List ConnPtr}
    (hdone : ∀ c ∈ done ++ cs, ∃ k : Int, s.m_connections[k]? = some c)
    (hn : (done ++ cs).Nodup) {xs : List XmlConnection}
    (hxs : cs.mapM (serializeConnection s) = some xs) :
    (InOrderFrom s done cs ∧ ∃ t', Pipeline.parseConnections R xs t = some (t', .ok ()) ∧
      Loaded R s (done ++ cs) t') ∨
    (¬ InOrderFrom s done cs ∧ ∃ t' e, Pipeline.parseConnections R xs t = some (t', .error e)) := by
  induction cs generalizing done t xs with
  | nil =>
    cases hxs
    exact .inl ⟨trivial, t, rfl, by simpa using ht⟩
  | cons c cs ih =>
    obtain ⟨k, hk⟩ := hdone c (by simp)
    obtain ⟨out, inp, hl⟩ := hs.inv.linked k c hk
    have hc : c ∉ done := by
      intro hm
      exact (List.nodup_append.mp hn).2.2 c hm c (by simp) rfl
    simp only [List.mapM_cons, serializeConnection_linked hs.inv hl, Option.bind_eq_bind,
      Option.bind_some, Option.bind_eq_some_iff, Option.pure_def] at hxs
    obtain ⟨ys, hys, hxs⟩ := hxs
    cases hxs
    have hhere : (∀ inp', (s.conns c).m_consumer = some inp' →
        (s.elems inp'.owner).isTCPServer = true → inp'.id = (pinsOf s inp'.owner done).length) ↔
        ((s.elems inp.owner).isTCPServer = true → inp.id = (pinsOf s inp.owner done).length) := by
      simp [hl.conn]
    unfold InOrderFrom
    rw [hhere]
    rcases ht.parseConnection hs (fun c hc => hdone c (by simp [hc])) hl hc with
      ⟨hturn, t', hok, ht'⟩ | ⟨hturn, e, herr⟩
    · rcases ih ht' (by simpa using hdone) (by simpa using hn) hys with
        ⟨hrest, t'', hok', ht''⟩ | ⟨hrest, t'', e, herr⟩
      · refine .inl ⟨⟨hturn, hrest⟩, t'', ?_, by simpa using ht''⟩
        simp [Pipeline.parseConnections, hok, hok']
      · refine .inr ⟨fun h => hrest h.2, t'', e, ?_⟩
        simp [Pipeline.parseConnections, hok, herr]
    · refine .inr ⟨fun h => hturn h.1, t, e, ?_⟩
      simp [Pipeline.parseConnections, herr]

end Step

/-- All elements and no connection have been read. -/
theorem ElementsLoaded.loaded {R : Registry P} {s : Graph.Pipeline} {t : Pipeline P}
    (hs : Saved R s) (ht : ElementsLoaded R s (valuesOf s.m_children) t) : Loaded R s [] t := by
  have hnames : ∀ k, Pipeline.childName t.toPipeline k = Pipeline.childName s k := by
    intro k
    apply Option.ext
    intro name
    rw [ht.names]
    unfold Pipeline.childName
    rw [Option.map_eq_some_iff]
    constructor
    · rintro ⟨p, hp, rfl, rfl⟩
      obtain ⟨k, hk⟩ := mem_valuesOf.mp hp
      exact ⟨p, hs.inv.child_id k p hk ▸ hk, rfl⟩
    · rintro ⟨p, hk, rfl⟩
      exact ⟨p, mem_valuesOf.mpr ⟨k, hk⟩, hs.inv.child_id k p hk, rfl⟩
  refine ⟨ht.sound, hnames, ?_, ?_⟩
  · intro x
    simp [connectionSet, ht.connections]
  · intro k q q' hq hq' htcp i
    have hname : (s.elems q).className = (t.elems q').className := by
      have := hnames k
      simpa [Pipeline.childName, hq, hq'] using this.symm
    have htcp' := ((hs.made k q hq).same (ht.sound.made k q' hq') hname).2.1.symm.trans htcp
    have hread := ht.servers k q' hq' htcp' i
    rw [hread]
    constructor
    · split
      · rename_i hi
        subst i
        simp [pinsOf]
      · simp only [pinsOf, List.filterMap_nil, List.length_nil]
        exact ⟨fun h => absurd rfl h, fun h => by omega⟩
    · intro pin hpin
      split at hpin
      · rename_i hi
        cases hpin
        subst i
        simp [genericPin, pinsOf]
      · cases hpin

def Registry.Constructs (R : Registry P) (e : Element) : Prop :=
  ∃ e' props id, R.construct e.className = some (e', props) ∧ e = { e' with m_id := id }

theorem Registry.Constructs.constructed {R : Registry P} (hR : R.Sound) {e : Element}
    (he : R.Constructs e) : e.Constructed := by
  obtain ⟨e', props, id, hc, he⟩ := he
  have h := hR.constructed e.className e' props hc
  rw [he]
  exact ⟨h.input, h.output⟩

/-- What edits that only connect pins of children make of an empty pipeline can be saved. -/
theorem Saved.edits {R : Registry P} (hR : R.Sound) (h : HashOrder Int)
    {elems : ElemPtr → Element} (he : ∀ p, R.Constructs (elems p)) {m_changed : Bool}
    {es : List Edit}
    (ha : Graph.Pipeline.AllowedRun R.isRegistered h es (.new elems m_changed))
    {s : Graph.Pipeline} (hs : Graph.Pipeline.edits R.isRegistered h es (.new elems m_changed) =
      some s) : Saved R s := by
  have hcon := fun p => (he p).constructed hR
  obtain ⟨t, ht, hi, hk⟩ := (Graph.Pipeline.Inv.new hcon m_changed).edits h ha
  rw [hs] at ht
  cases ht
  refine ⟨hi, hk.registered ?_, ?_⟩
  · intro r i hri _ hc
    obtain ⟨-, hnone, -⟩ := (hcon r.owner).input r.id i hri
    simp [InputPin.isConnected, hnone] at hc
  · intro k p _
    obtain ⟨e', props, id, hc, hp⟩ := he p
    exact Made.of_build hk.build (Made.constructed hR hc hp)

/-- A saved pipeline, of which only pins of children were connected, is read back as the same graph
if and only if the connections of each server end in its pins in the order in which they are
saved. -/
theorem deserialize_serialize_iff {R : Registry P} (hR : R.Sound) (h : HashOrder Int)
    {elems : ElemPtr → Element} (he : ∀ p, R.Constructs (elems p)) (m_changed : Bool)
    {es : List Edit}
    (ha : Graph.Pipeline.AllowedRun R.isRegistered h es (.new elems m_changed))
    {s : Pipeline P} (hs : Graph.Pipeline.edits R.isRegistered h es (.new elems m_changed) =
      some s.toPipeline) {doc : Document} (hdoc : s.serialize R = some doc) {t : Pipeline P}
    (ht : t.toPipeline.Inv) (hempty : t.m_children = ∅) :
    (∃ t', t.deserialize R doc = some (t', .ok ()) ∧ SameGraph s.toPipeline t'.toPipeline) ↔
      ServersInOrder s.toPipeline := by
  have hsaved := Saved.edits hR h he ha hs
  have hstart : ElementsLoaded R s.toPipeline [] t := by
    refine ⟨⟨ht, ?_, ?_⟩, ?_, ht.no_connections hempty, ?_⟩
    · simp [hempty]
    · simp [hempty]
    · simp [Pipeline.childName, hempty]
    · simp [hempty]
  simp only [Pipeline.serialize, Option.bind_eq_bind, Option.bind_eq_some_iff] at hdoc
  obtain ⟨xs, hxs, ys, hys, hdoc⟩ := hdoc
  cases hdoc
  obtain ⟨t₁, hok, ht₁⟩ := hstart.parseElements hR hsaved
    (fun p hp => mem_valuesOf.mp (by simpa using hp)) (by
      refine valuesOf_nodup ?_
      intro k k' p hk hk'
      rw [← hsaved.inv.child_id k p hk, hsaved.inv.child_id k' p hk']) hxs
  have hloaded : Loaded R s.toPipeline [] t₁ := ElementsLoaded.loaded hsaved (by simpa using ht₁)
  rw [serversInOrder_iff]
  simp only [Pipeline.deserialize, hok]
  have hlisted : ∀ c ∈ [] ++ valuesOf s.m_connections, ∃ k : Int, s.m_connections[k]? = some c :=
    fun c hc => mem_valuesOf.mp hc
  have hnodup : ([] ++ valuesOf s.m_connections).Nodup :=
    valuesOf_nodup fun k k' c => hsaved.inv.connection_unique
  rcases hloaded.parseConnections hsaved hlisted hnodup hys with
    ⟨horder, t₂, hok', ht₂⟩ | ⟨horder, t₂, e, herr⟩
  · refine ⟨fun _ => horder, fun _ => ⟨t₂, hok', fun k => (ht₂.names k).symm, ?_⟩⟩
    ext x
    rw [ht₂.connections]
    simp only [connectionSet, Set.mem_ofPred_eq, List.nil_append, mem_valuesOf]
    constructor
    · rintro ⟨k, c, hk, hx⟩
      exact ⟨c, ⟨k, hk⟩, hx⟩
    · rintro ⟨c, ⟨k, hk⟩, hx⟩
      exact ⟨k, c, hk, hx⟩
  · constructor
    · rintro ⟨t', hok', -⟩
      rw [herr] at hok'
      cases hok'
    · exact fun ho => absurd ho horder

def sourcesThenServers (n : Nat) (p : ElemPtr) : Element :=
  if p < n then Graph.Pipeline.source 5 else Graph.Pipeline.tcpServer

theorem sourcesThenServers_constructs (n : Nat) (p : ElemPtr) :
    sourceAndServer.Constructs (sourcesThenServers n p) := by
  unfold sourcesThenServers
  split
  · exact ⟨Graph.Pipeline.source 5, (), -1, rfl, rfl⟩
  · exact ⟨Graph.Pipeline.tcpServer, (), -1, rfl, rfl⟩

/-- A server with one connection, saved and read back. -/
theorem deserialize_serialize_server : ∃ s : Pipeline Unit, ∃ doc,
    Graph.Pipeline.edits (fun _ => true) (.ascending Int)
      [.addElement 0, .addElement 1, .connectPins ⟨0, 0⟩ ⟨1, 0⟩]
      (.new (sourcesThenServers 1) false) = some s.toPipeline ∧
    s.serialize sourceAndServer = some doc ∧
    ((∃ t, emptyPipeline.deserialize sourceAndServer doc = some (t, .ok ()) ∧
      SameGraph s.toPipeline t.toPipeline) ↔ ServersInOrder s.toPipeline) := by
  have ha : Graph.Pipeline.AllowedRun sourceAndServer.isRegistered (.ascending Int)
      [.addElement 0, .addElement 1, .connectPins ⟨0, 0⟩ ⟨1, 0⟩]
      (.new (sourcesThenServers 1) false) := by
    refine ⟨rfl, ?_⟩
    rintro t ht
    cases ht
    refine ⟨rfl, ?_⟩
    rintro t ht
    cases ht
    exact ⟨⟨⟨_, rfl⟩, ⟨_, rfl⟩, ⟨0, by decide⟩, ⟨1, by decide⟩⟩, fun _ _ => trivial⟩
  refine ⟨⟨_, fun _ => (), 2, ""⟩, _, rfl, rfl, ?_⟩
  exact deserialize_serialize_iff sourceAndServer_sound (.ascending Int)
    (sourcesThenServers_constructs 1) false ha rfl rfl emptyPipeline_inv rfl

/-- A server whose first connection was disconnected is not read back. -/
theorem deserialize_serialize_gap : ∃ s : Pipeline Unit, ∃ doc,
    Graph.Pipeline.edits (fun _ => true) (.ascending Int)
      [.addElement 0, .addElement 1, .addElement 2, .connectPins ⟨0, 0⟩ ⟨2, 0⟩,
        .connectPins ⟨1, 0⟩ ⟨2, 1⟩, .pinConnectionDisconnect 0]
      (.new (sourcesThenServers 2) false) = some s.toPipeline ∧
    s.serialize sourceAndServer = some doc ∧
    ¬ ∃ t, emptyPipeline.deserialize sourceAndServer doc = some (t, .ok ()) ∧
      SameGraph s.toPipeline t.toPipeline := by
  refine ⟨⟨_, fun _ => (), 3, ""⟩, _, rfl, rfl, ?_⟩
  rintro ⟨t, ht, -⟩
  have hres : (some (t, Except.ok ())).map Prod.snd =
      some (.error (.noInputPin 1) : Except Pipeline.LoadError Unit) := by
    rw [← ht]
    rfl
  cases hres

end ParleVision.Loader
