import ParleVision.Loader.Document

namespace ParleVision.Loader
open Lib ParleVision.Graph

/-- An element is what the registry constructs for its class name, but for its id, its
connections and what connections do to generic pins. -/
def Made (R : Registry P) (s : Graph.Pipeline) (p : ElemPtr) : Prop :=
  ∃ e props, R.construct (s.elems p).className = some (e, props) ∧
    (s.elems p).kind = e.kind ∧ (s.elems p).isTCPServer = e.isTCPServer ∧
    (∀ i : Int, (s.outputPin ⟨p, i⟩).map OutputPin.shape = (e.m_outputPins[i]?).map OutputPin.shape) ∧
    (e.isTCPServer = false → ∀ i : Int,
      (s.inputPin ⟨p, i⟩).map InputPin.shape = (e.m_inputPins[i]?).map InputPin.shape) ∧
    (e.isTCPServer = true → s.Generic p)

theorem Made.of_build {R : Registry P} {s t : Graph.Pipeline} (h : s.SameBuild t) {p : ElemPtr}
    (hp : Made R s p) : Made R t p := by
  obtain ⟨e, props, hc, hk, ht, ho, hi, hg⟩ := hp
  refine ⟨e, props, by rw [h.className, hc], (h.kind p).trans hk, (h.tcp p).trans ht, ?_, ?_, ?_⟩
  · exact fun i => (h.output ⟨p, i⟩).trans (ho i)
  · exact fun hn i => (h.input ⟨p, i⟩ (ht.trans hn)).trans (hi hn i)
  · exact fun hn => h.generic p (ht.trans hn) (hg hn)

/-- An element just constructed, under whatever id. -/
theorem Made.constructed {R : Registry P} (hR : R.Sound) {s : Graph.Pipeline} {p : ElemPtr}
    {name : String} {e : Element} {props : P} {id : Int} (hc : R.construct name = some (e, props))
    (he : s.elems p = { e with m_id := id }) : Made R s p := by
  refine ⟨e, props, ?_, by rw [he], by rw [he], ?_, ?_, ?_⟩
  · rw [he]
    exact (hR.className name e props hc).symm ▸ hc
  · intro i
    simp [Graph.Pipeline.outputPin, he]
  · intro _ i
    simp [Graph.Pipeline.inputPin, he]
  · intro ht i pin hpin
    have := (hR.tcpServer name e props hc ht).2 i
    simp only [Graph.Pipeline.inputPin, he, this] at hpin
    split at hpin
    · rename_i hi
      cases hpin
      subst i
      rfl
    · cases hpin

/-- Another object is constructed where no element of the pipeline lives. -/
theorem Inv.construct {s : Graph.Pipeline} (hs : s.Inv) {p : ElemPtr} {e : Element}
    (he : e.Constructed) (hp : ∀ k : Int, s.m_children[k]? ≠ some p) :
    ({ s with elems := Function.update s.elems p e } : Graph.Pipeline).Inv := by
  have hother : ∀ q, q ≠ p → Function.update s.elems p e q = s.elems q :=
    fun q hq => Function.update_of_ne hq e s.elems
  have hchild : ∀ q, s.IsChild q → q ≠ p := by
    rintro q ⟨k, hk⟩ rfl
    exact hp k hk
  have hin : ∀ r i, ({ s with elems := Function.update s.elems p e } : Graph.Pipeline).inputPin r
      = some i → (r.owner ≠ p ∧ s.inputPin r = some i) ∨
        (i.m_id = r.id ∧ i.m_connection = none ∧ r.owner = p ∧ e.kind = .processor) := by
    intro r i hi
    by_cases hr : r.owner = p
    · have hi' : e.m_inputPins[r.id]? = some i := by
        simpa [Graph.Pipeline.inputPin, hr] using hi
      obtain ⟨hid, hc, hk⟩ := he.input r.id i hi'
      exact .inr ⟨hid, hc, hr, hk⟩
    · exact .inl ⟨hr, by simpa [Graph.Pipeline.inputPin, hr] using hi⟩
  have hout : ∀ r o, ({ s with elems := Function.update s.elems p e } : Graph.Pipeline).outputPin r
      = some o → s.outputPin r = some o ∨ (o.m_id = r.id ∧ o.m_connections = []) := by
    intro r o ho
    by_cases hr : r.owner = p
    · have ho' : e.m_outputPins[r.id]? = some o := by
        simpa [Graph.Pipeline.outputPin, hr] using ho
      exact .inr (he.output r.id o ho')
    · exact .inl (by simpa [Graph.Pipeline.outputPin, hr] using ho)
  constructor
  case child_id =>
    intro k q hq
    change (Function.update s.elems p e q).m_id = k
    rw [hother q (hchild q ⟨k, hq⟩)]
    exact hs.child_id k q hq
  case child_set => exact hs.child_set
  case producers =>
    intro k q
    change _ ↔ _ ∧ (Function.update s.elems p e q).kind = .producer
    rw [hs.producers k q]
    refine and_congr_right fun hq => ?_
    rw [hother q (hchild q ⟨k, hq⟩)]
  case processors =>
    intro k q
    change _ ↔ _ ∧ (Function.update s.elems p e q).kind = .processor
    rw [hs.processors k q]
    refine and_congr_right fun hq => ?_
    rw [hother q (hchild q ⟨k, hq⟩)]
  case allocated => exact hs.allocated
  case input_pin =>
    intro r i hi
    rcases hin r i hi with ⟨hr, hi'⟩ | ⟨hid, -, hr, hk⟩
    · refine ⟨(hs.input_pin r i hi').1, ?_⟩
      change (Function.update s.elems p e r.owner).kind = _
      rw [hother _ hr]
      exact (hs.input_pin r i hi').2
    · refine ⟨hid, ?_⟩
      change (Function.update s.elems p e r.owner).kind = _
      rw [hr, Function.update_self]
      exact hk
  case output_pin =>
    intro r o ho
    rcases hout r o ho with ho' | ⟨hid, -⟩
    · exact hs.output_pin r o ho'
    · exact hid
  case linked =>
    intro k c hk
    obtain ⟨out, inp, hl⟩ := hs.linked k c hk
    obtain ⟨o, i, ho, hc, hi, hic, ht⟩ := hl.pins
    refine ⟨out, inp, hl.conn, ⟨o, i, ?_, hc, ?_, hic, ht⟩, hl.source, hl.sink, hl.distinct⟩
    · simpa [Graph.Pipeline.outputPin, hchild _ hl.source] using ho
    · simpa [Graph.Pipeline.inputPin, hchild _ hl.sink] using hi
  case nodup =>
    intro r o ho
    rcases hout r o ho with ho' | ⟨-, hnil⟩
    · exact hs.nodup r o ho'
    · rw [hnil]
      exact List.nodup_nil
  case output_listed =>
    intro r o c ho hc
    rcases hout r o ho with ho' | ⟨-, hnil⟩
    · exact hs.output_listed r o c ho' hc
    · rw [hnil] at hc
      cases hc
  case input_listed =>
    intro r i c hi hc
    rcases hin r i hi with ⟨-, hi'⟩ | ⟨-, hnone, -, -⟩
    · exact hs.input_listed r i c hi' hc
    · rw [hnone] at hc
      cases hc

namespace Pipeline

/-- A pipeline that the editing operations and the loader can have made. -/
structure Sound (R : Registry P) (s : Pipeline P) : Prop where
  inv : s.toPipeline.Inv
  constructed : ∀ (k : Int) p, s.m_children[k]? = some p → p < s.nextElem
  made : ∀ (k : Int) p, s.m_children[k]? = some p → Made R s.toPipeline p

def childName (s : Graph.Pipeline) (k : Int) : Option String :=
  s.m_children[k]?.map fun p => (s.elems p).className

variable {R : Registry P} {s : Pipeline P}

theorem Sound.construct (hR : R.Sound) (hs : s.Sound R) {name : String} {e : Element}
    {props : P} (hc : R.construct name = some (e, props)) (id : Int) :
    (s.construct e props id).Sound R := by
  have hfresh : ∀ k : Int, s.m_children[k]? ≠ some s.nextElem := by
    intro k hk
    exact Nat.lt_irrefl _ (hs.constructed k _ hk)
  have he : ({ e with m_id := id } : Element).Constructed :=
    ⟨(hR.constructed name e props hc).input, (hR.constructed name e props hc).output⟩
  refine ⟨Loader.Inv.construct hs.inv he hfresh, ?_, ?_⟩
  · intro k p hp
    exact Nat.lt_succ_of_lt (hs.constructed k p hp)
  · intro k p hp
    have hne : p ≠ s.nextElem := by
      rintro rfl
      exact hfresh k hp
    obtain ⟨e', props', h⟩ := hs.made k p hp
    refine ⟨e', props', ?_⟩
    simpa [Pipeline.construct, Graph.Pipeline.outputPin, Graph.Pipeline.inputPin,
      Graph.Pipeline.Generic, hne] using h

def newId (s : Graph.Pipeline) (x : XmlElement) : Int :=
  if toInt x.id = -1 then s.getNewPipelineElementId else toInt x.id

def added (R : Registry P) (s : Pipeline P) (x : XmlElement) (e : Element) (props : P) :
    Pipeline P :=
  let s' := s.construct e props (toInt x.id)
  { s' with
    toPipeline := s'.addElement s.nextElem
    props := Function.update s'.props s.nextElem
      (x.properties.foldl (fun props y => R.setProperty x.name props y.1 y.2) props) }

theorem parseElement_cases (R : Registry P) (s : Pipeline P) (x : XmlElement) :
    (R.construct x.name = none ∧ s.parseElement R x = (s, .error (.unknownType x.name))) ∨
    ∃ e props, R.construct x.name = some (e, props) ∧
      ((toInt x.id ≠ -1 ∧ toInt x.id ∈ s.m_children ∧ s.parseElement R x =
        (s.construct e props (toInt x.id), .error (.usedId x.name (toInt x.id)))) ∨
       ((toInt x.id = -1 ∨ toInt x.id ∉ s.m_children) ∧
        s.parseElement R x = (s.added R x e props, .ok ()))) := by
  unfold parseElement
  cases hc : R.construct x.name with
  | none => exact .inl ⟨rfl, rfl⟩
  | some r =>
    obtain ⟨e, props⟩ := r
    refine .inr ⟨e, props, rfl, ?_⟩
    have hcan : (s.construct e props (toInt x.id)).canAddElement s.nextElem =
        decide (toInt x.id = -1 ∨ toInt x.id ∉ s.m_children) := by
      simp [Graph.Pipeline.canAddElement, Pipeline.construct]
      rfl
    dsimp only
    by_cases hfree : toInt x.id = -1 ∨ toInt x.id ∉ s.m_children
    · right
      refine ⟨hfree, ?_⟩
      rw [if_pos (by simpa [hcan] using hfree)]
      rfl
    · left
      rw [if_neg (by simpa [hcan] using hfree)]
      simp only [not_or, not_not] at hfree
      exact ⟨hfree.1, hfree.2, rfl⟩

section Added
variable {x : XmlElement} {e : Element} {props : P}

theorem added_children : (s.added R x e props).m_children =
    s.m_children.insert (newId s.toPipeline x) s.nextElem := by
  simp [added, Graph.Pipeline.addElement, Pipeline.construct, newId,
    Graph.Pipeline.getNewPipelineElementId]

theorem added_inputPin (r : PinRef) : (s.added R x e props).inputPin r =
    if r.owner = s.nextElem then e.m_inputPins[r.id]? else s.inputPin r := by
  by_cases hr : r.owner = s.nextElem <;>
    simp [added, Graph.Pipeline.addElement, Pipeline.construct, Graph.Pipeline.inputPin, hr]

theorem added_isTCPServer (p : ElemPtr) : ((s.added R x e props).elems p).isTCPServer =
    if p = s.nextElem then e.isTCPServer else (s.elems p).isTCPServer := by
  by_cases hp : p = s.nextElem <;>
    simp [added, Graph.Pipeline.addElement, Pipeline.construct, hp]

theorem added_className (p : ElemPtr) : ((s.added R x e props).elems p).className =
    if p = s.nextElem then e.className else (s.elems p).className := by
  by_cases hp : p = s.nextElem <;>
    simp [added, Graph.Pipeline.addElement, Pipeline.construct, hp]

theorem Sound.added (hR : R.Sound) (hs : s.Sound R) (hc : R.construct x.name = some (e, props))
    (hfree : toInt x.id = -1 ∨ toInt x.id ∉ s.m_children) : (s.added R x e props).Sound R := by
  have hs' := hs.construct hR hc (toInt x.id)
  have hcan : (s.construct e props (toInt x.id)).canAddElement s.nextElem = true := by
    simpa [Graph.Pipeline.canAddElement, Pipeline.construct] using hfree
  have hkeep : (s.construct e props (toInt x.id)).SameBuild
      (Graph.Pipeline.addElement (s.construct e props (toInt x.id)).toPipeline s.nextElem) :=
    (Graph.Pipeline.addElement_keeps R.isRegistered _ s.nextElem).build
  have hchild : ∀ (k : Int) p, (s.added R x e props).m_children[k]? = some p →
      p = s.nextElem ∨ s.m_children[k]? = some p := by
    intro k p hp
    rw [added_children] at hp
    rcases QMap.of_insert hp with ⟨-, rfl⟩ | hp
    · exact .inl rfl
    · exact .inr hp
  refine ⟨hs'.inv.addElement hcan, ?_, ?_⟩
  · intro k p hp
    rcases hchild k p hp with rfl | hp
    · exact Nat.lt_succ_self _
    · exact Nat.lt_succ_of_lt (hs.constructed k p hp)
  · intro k p hp
    rcases hchild k p hp with rfl | hp
    · have he : (s.construct e props (toInt x.id)).elems s.nextElem =
          { e with m_id := toInt x.id } := by
        simp [Pipeline.construct]
      exact Made.of_build hkeep (Made.constructed hR hc he)
    · exact Made.of_build hkeep (hs'.made k p hp)

theorem added_childName (hR : R.Sound) (hs : s.Sound R)
    (hc : R.construct x.name = some (e, props)) (k : Int) :
    childName (s.added R x e props).toPipeline k =
      if k = newId s.toPipeline x then some x.name else childName s.toPipeline k := by
  unfold childName
  rw [added_children]
  by_cases hk : k = newId s.toPipeline x
  · subst k
    simp [added_className, hR.className x.name e props hc]
  · rw [QMap.getElem?_insert, if_neg hk, if_neg hk]
    cases hp : s.m_children[k]? with
    | none => rfl
    | some p =>
      have hne : p ≠ s.nextElem := Nat.ne_of_lt (hs.constructed k p hp)
      simp [added_className, hne]

end Added

/-- What `parseConnection` leaves when it connects; `i` has the agreed type already. -/
def connectedTo (s : Pipeline P) (out inp : PinRef) (o : OutputPin) (i : InputPin) : Pipeline P :=
  { s with toPipeline := (s.setInputPin inp i).connected out inp o i }

/-- The lookups and checks of `parseConnection`, with the pin's agreed type. -/
structure Connectable (R : Registry P) (s : Pipeline P) (x : XmlConnection) (out inp : PinRef)
    (o : OutputPin) (i i' : InputPin) : Prop where
  source : s.m_children[toInt x.sourceProcId]? = some out.owner
  sink : s.m_children[toInt x.sinkProcId]? = some inp.owner
  sourcePin : out.id = toInt x.sourcePinId
  sinkPin : inp.id = toInt x.sinkPinId
  kind : (s.elems inp.owner).kind = .processor
  output : s.outputPin out = some o
  input : s.inputPin inp = some i
  distinct : inp.owner ≠ out.owner
  free : i.m_connection = none
  type : i.agreeOnType R.isRegistered o = some i'

theorem parseConnection_ok {x : XmlConnection} {out inp : PinRef} {o : OutputPin}
    {i i' : InputPin} (h : Connectable R s x out inp o i i') :
    s.parseConnection R x = some (s.connectedTo out inp o i', .ok ()) := by
  obtain ⟨p, a⟩ := out
  obtain ⟨q, b⟩ := inp
  obtain ⟨hsrc, hsink, ha, hb, hk, ho, hi, hne, hun, hag⟩ := h
  dsimp only at hsrc hsink ha hb hk ho hi hne
  subst ha hb
  obtain ⟨hun', hag'⟩ := Graph.Pipeline.agreeOnType_again hun hag
  have hset := (Graph.Pipeline.outputPin_setInputPin s.toPipeline ⟨q, toInt x.sinkPinId⟩
    ⟨p, toInt x.sourcePinId⟩ i').trans ho
  have hset' := (Graph.Pipeline.inputPin_setInputPin s.toPipeline ⟨q, toInt x.sinkPinId⟩
    ⟨q, toInt x.sinkPinId⟩ i').trans (if_pos rfl)
  simp [parseConnection, hsrc, hsink, hk, ho, hi,
    Graph.Pipeline.canConnectPins_ok ho hi hne hun hag,
    Graph.Pipeline.connectPins_ok hset hset' hne hun' hag', connectedTo]

/-- Any other connection is rejected before anything is written. -/
theorem parseConnection_error {x : XmlConnection}
    (h : ∀ out inp o i i', ¬ Connectable R s x out inp o i i') :
    ∃ e, s.parseConnection R x = some (s, .error e) := by
  unfold parseConnection
  cases hsrc : s.m_children[toInt x.sourceProcId]? with
  | none => exact ⟨.invalidSourceId, by simp⟩
  | some p =>
    cases hsink : s.m_children[toInt x.sinkProcId]? with
    | none => exact ⟨.invalidSinkId, by simp⟩
    | some q =>
      dsimp only
      by_cases hk : (s.elems q).kind = .processor
      · rw [if_neg (not_not.mpr hk)]
        cases ho : s.outputPin ⟨p, toInt x.sourcePinId⟩ with
        | none => exact ⟨.noOutputPin (toInt x.sourcePinId), by simp⟩
        | some o =>
          cases hi : s.inputPin ⟨q, toInt x.sinkPinId⟩ with
          | none => exact ⟨.noInputPin (toInt x.sinkPinId), by simp⟩
          | some i =>
            have hbad : q = p ∨ i.m_connection ≠ none ∨
                i.agreeOnType R.isRegistered o = none := by
              by_contra hgood
              simp only [not_or, not_not] at hgood
              obtain ⟨hne, hun, hag⟩ := hgood
              obtain ⟨i', hi'⟩ := Option.ne_none_iff_exists'.mp hag
              exact h ⟨p, toInt x.sourcePinId⟩ ⟨q, toInt x.sinkPinId⟩ o i i'
                ⟨hsrc, hsink, rfl, rfl, hk, ho, hi, hne, hun, hi'⟩
            refine ⟨.cannotConnectPins, ?_⟩
            simp [Graph.Pipeline.canConnectPins_error ho hi hbad]
      · rw [if_pos hk]
        exact ⟨.sinkNotConsumer, rfl⟩

/-- The other input pins stay, but for the pin the callback of a server adds. -/
theorem inputPin_connectedTo (s : Pipeline P) (out inp : PinRef) (o : OutputPin) (i : InputPin)
    (r : PinRef) :
    ((s.elems inp.owner).isTCPServer = false ∧ (s.connectedTo out inp o i).inputPin r =
      if r = inp then some { i with m_connection := some s.nextConn } else s.inputPin r) ∨
    ((s.elems inp.owner).isTCPServer = true ∧
      ∃ (m : QMap InputPin) (n : Int), n = countUp m m.size 0 ∧
      (∀ j : Int, j ∈ m ↔ j = inp.id ∨ s.inputPin ⟨inp.owner, j⟩ ≠ none) ∧
      (s.connectedTo out inp o i).inputPin r =
        if r = ⟨inp.owner, n⟩ then some { genericPin with m_id := n }
        else if r = inp then some { i with m_connection := some s.nextConn }
        else s.inputPin r) := by
  have htcp := Graph.Pipeline.tcp_of_header
    (Graph.Pipeline.header_setInputPin s.toPipeline inp inp.owner i)
  have hread := fun r => Graph.Pipeline.inputPin_setInputPin s.toPipeline inp r i
  rcases Graph.Pipeline.inputPin_connected (s.toPipeline.setInputPin inp i) out inp o i r with
    ⟨hf, hr⟩ | ⟨hf, m, n, hn, hm, hr⟩
  · refine .inl ⟨htcp ▸ hf, hr.trans ?_⟩
    rw [hread]
    split <;> rfl
  · refine .inr ⟨htcp ▸ hf, m, n, hn, ?_, hr.trans ?_⟩
    · intro j
      rw [hm, hread]
      by_cases hj : j = inp.id
      · simp [hj]
      · have hne : (⟨inp.owner, j⟩ : PinRef) ≠ inp := fun h => hj (congrArg PinRef.id h)
        rw [if_neg hne]
    · rw [hread]
      split
      · rfl
      · split <;> rfl

theorem Sound.connectedTo (hs : s.Sound R) {x : XmlConnection} {out inp : PinRef}
    {o : OutputPin} {i i' : InputPin} (h : Connectable R s x out inp o i i') :
    (s.connectedTo out inp o i').Sound R := by
  obtain ⟨hun', hag'⟩ := Graph.Pipeline.agreeOnType_again h.free h.type
  obtain ⟨hpin, -, hshape, -⟩ := Graph.Pipeline.agreeOnType_some h.type
  have hset : (s.toPipeline.setInputPin inp i').Inv := by
    refine hs.inv.setInputPin ?_ ?_ h.kind hun'
    · intro j hj
      rw [h.input] at hj
      cases hj
      exact h.free
    · rw [hpin]
      exact (hs.inv.input_pin inp i h.input).1
  have ho := (Graph.Pipeline.outputPin_setInputPin s.toPipeline inp out i').trans h.output
  have hi := (Graph.Pipeline.inputPin_setInputPin s.toPipeline inp inp i').trans (if_pos rfl)
  have hbuild : s.toPipeline.SameBuild (s.connectedTo out inp o i').toPipeline :=
    (Graph.Pipeline.SameBuild.setInputPin h.input hshape).trans
      (Graph.Pipeline.connected_keeps ho hi hag').build
  have hchildren : (s.connectedTo out inp o i').m_children = s.m_children :=
    Graph.Pipeline.connected_children (s.toPipeline.setInputPin inp i') out inp o i'
  refine ⟨?_, ?_, ?_⟩
  · exact hset.connected ho hi h.distinct hun' hag' ⟨_, h.source⟩ ⟨_, h.sink⟩
  · rw [hchildren]
    exact hs.constructed
  · rw [hchildren]
    exact fun k p hp => (hs.made k p hp).of_build hbuild

end Pipeline

def sourceAndServer : Registry Unit where
  isRegistered _ := true
  construct name :=
    if name = "Source" then some (Graph.Pipeline.source 5, ())
    else if name = "TCPServerProcessor" then some (Graph.Pipeline.tcpServer, ())
    else none
  texts _ _ := some []
  setProperty _ props _ _ := props

theorem sourceAndServer_cases {name : String} {e : Element} {props : Unit}
    (h : sourceAndServer.construct name = some (e, props)) :
    name = e.className ∧ (e = Graph.Pipeline.source 5 ∨ e = Graph.Pipeline.tcpServer) := by
  simp only [sourceAndServer] at h
  split at h
  · rename_i hname
    cases h
    exact ⟨hname, .inl rfl⟩
  · split at h
    · rename_i hname
      cases h
      exact ⟨hname, .inr rfl⟩
    · cases h

theorem sourceAndServer_sound : sourceAndServer.Sound where
  className name e props h := (sourceAndServer_cases h).1.symm
  m_id name e props h := by
    obtain ⟨-, rfl | rfl⟩ := sourceAndServer_cases h <;> rfl
  constructed name e props h := by
    obtain ⟨-, rfl | rfl⟩ := sourceAndServer_cases h
    · exact Graph.Pipeline.source_constructed 5
    · exact Graph.Pipeline.tcpServer_constructed
  tcpServer name e props h ht := by
    obtain ⟨-, rfl | rfl⟩ := sourceAndServer_cases h
    · cases ht
    · refine ⟨rfl, fun i => ?_⟩
      by_cases hi : i = 0
      · simp [Graph.Pipeline.tcpServer, hi]
      · simp [Graph.Pipeline.tcpServer, hi, Ne.symm hi]

def emptyPipeline : Pipeline Unit :=
  ⟨.new (fun _ => Graph.Pipeline.source 5) false, fun _ => (), 0, ""⟩

theorem emptyPipeline_inv : emptyPipeline.Inv :=
  Graph.Pipeline.Inv.new (fun _ => Graph.Pipeline.source_constructed 5) false

end ParleVision.Loader
