import ParleVision.Gui.Scene

namespace ParleVision.Graph
open Lib

namespace Pipeline

def HasConnection (s : Pipeline) (c : ConnPtr) : Prop := ∃ k : Int, s.m_connections[k]? = some c

structure Unlinks (s t : Pipeline) (k : Int) (c : ConnPtr) (inp : PinRef) : Prop where
  children : t.m_children = s.m_children
  connections : t.m_connections = s.m_connections.erase k
  nextConn : t.nextConn = s.nextConn
  header : ∀ p, t.header p = s.header p
  others : ∀ c', c' ≠ c → t.conns c' = s.conns c'
  forgotten : (t.conns c).m_producer = none
  output : ∀ r, (t.outputPin r).isSome = (s.outputPin r).isSome
  /-- the pin of a TCPServerProcessor is removed -/
  input : ∀ r, (t.inputPin r).isSome =
    if r = inp ∧ (s.elems inp.owner).isTCPServer then false else (s.inputPin r).isSome

theorem Inv.unlinks {s : Pipeline} (hs : s.Inv) {k : Int} {c : ConnPtr} {out inp : PinRef}
    (hk : s.m_connections[k]? = some c) (hl : s.Linked k c out inp) :
    ∃ t, s.disconnect c = some t ∧ t.m_connections = s.m_connections ∧
      ({ t with m_connections := s.m_connections.erase k } : Pipeline).Inv ∧
      s.Unlinks { t with m_connections := s.m_connections.erase k } k c inp := by
  obtain ⟨t, ht, hinv, hsame, hshrinks⟩ := Inv.disconnect (M := s.m_connections) hs hk
  obtain ⟨o, i, ho, hc, hi, hic, -⟩ := hl.pins
  obtain ⟨hid, -⟩ := hs.input_pin inp i hi
  obtain rfl : t = s.disconnected c out inp o i :=
    Option.some.inj (ht.symm.trans (disconnect_eq hl.conn ho hc hi hic hid))
  refine ⟨_, ht, hsame, hinv, ?_⟩
  constructor
  case children => exact hshrinks.children
  case connections => rfl
  case nextConn =>
    unfold disconnected
    split <;> rfl
  case header => exact hshrinks.header
  case others => exact fun c' hne => conns_disconnected s c out inp o i hne
  case forgotten =>
    change ((s.disconnected c out inp o i).conns c).m_producer = none
    unfold disconnected
    simp
  case output =>
    intro r
    change ((s.disconnected c out inp o i).outputPin r).isSome = _
    rw [outputPin_disconnected]
    split
    case isTrue hr => rw [hr, ho]; rfl
    case isFalse => rfl
  case input =>
    intro r
    change ((s.disconnected c out inp o i).inputPin r).isSome = _
    rw [inputPin_disconnected]
    by_cases hr : r = inp
    · cases htcp : (s.elems inp.owner).isTCPServer <;> simp [hr, hi]
    · simp [hr]

end Pipeline

end ParleVision.Graph

namespace ParleVision.Gui
open Lib ParleVision.Graph

/-- What a scene has not been told yet, and which elements leave the pipeline. -/
structure Lag where
  /-- elements that are not in the pipeline, or about to be removed from it -/
  gone : Set ElemPtr
  /-- elements without a widget -/
  pending : Set ElemPtr
  /-- connections without a line: it is not made yet, or it was taken already -/
  taken : Set ConnPtr
  /-- input pins without a widget -/
  missing : Set PinRef

def Lag.none (s : Pipeline) : Lag := ⟨{p | ¬ s.IsChild p}, ∅, ∅, ∅⟩

namespace PipelineScene

/-- The line is in the lists of both widgets and ends at the widgets of the pins. -/
structure Drawn (s : PipelineScene) (c : ConnPtr) (out inp : PinRef) : Prop where
  source : ∃ w, s.elementWidgets out.owner = some w ∧ c ∈ w.lines
  target : ∃ w q, s.elementWidgets inp.owner = some w ∧ c ∈ w.lines ∧
    w.inputPinWidgets[inp.id]? = some q ∧ s.connectionLines c = some ⟨some out, some q⟩

/-- The line of a connection that is gone, with an element at one of its ends. The pin widget of
a TCPServerProcessor was deleted. -/
structure Leftover (s : PipelineScene) (gone : Set ElemPtr) (line : ConnectionLine)
    (out inp : PinRef) : Prop where
  ends : ∃ q, q < s.nextPinWidget ∧ line = ⟨some out, some q⟩ ∧
    s.pinWidgets q = ⟨inp, (s.m_pipeline.elems inp.owner).isTCPServer⟩
  source : (s.elementWidgets out.owner).isSome
  target : (s.elementWidgets inp.owner).isSome
  gone : out.owner ∈ gone ∨ inp.owner ∈ gone

/-- The widgets are those of the elements and pins, but for what the scene is still to be told. -/
structure Fitted (pending : Set ElemPtr) (missing : Set PinRef) (s : PipelineScene) : Prop where
  widget : ∀ p, s.m_pipeline.IsChild p → p ∉ pending → (s.elementWidgets p).isSome
  unknown : ∀ p ∈ pending, s.elementWidgets p = none
  named : ∀ p, (s.elementWidgets p).isSome → (s.m_pipeline.elems p).m_id ≠ -1
  inputs : ∀ p w, s.elementWidgets p = some w → ∀ i, i ∈ w.inputPinWidgets ↔
    (s.m_pipeline.inputPin ⟨p, i⟩).isSome ∧ ⟨p, i⟩ ∉ missing
  outputs : ∀ p w, s.elementWidgets p = some w → ∀ i, i ∈ w.outputPinWidgets ↔
    (s.m_pipeline.outputPin ⟨p, i⟩).isSome
  pins : ∀ p w (i : Int) q, s.elementWidgets p = some w → w.inputPinWidgets[i]? = some q →
    q < s.nextPinWidget ∧ s.pinWidgets q = ⟨⟨p, i⟩, false⟩

/-- The lines are those of the connections, and of some that are gone. -/
structure Wired (gone : Set ElemPtr) (taken : Set ConnPtr) (s : PipelineScene) : Prop where
  drawn : ∀ (k : Int) c out inp, c ∉ taken → s.m_pipeline.m_connections[k]? = some c →
    s.m_pipeline.conns c = ⟨k, some out, some inp⟩ → s.Drawn c out inp
  untaken : ∀ c ∈ taken, s.connectionLines c = none
  listed : ∀ p w c, s.elementWidgets p = some w → c ∈ w.lines → ∃ out q,
    s.connectionLines c = some ⟨some out, some q⟩ ∧ q < s.nextPinWidget ∧
      (p = out.owner ∨ p = (s.pinWidgets q).m_inputPin.owner)
  left : ∀ c line, s.connectionLines c = some line → ¬ s.m_pipeline.HasConnection c →
    (s.m_pipeline.conns c).m_producer = none ∧ ∃ out inp, s.Leftover gone line out inp
  known : ∀ c, (s.connectionLines c).isSome → c < s.m_pipeline.nextConn

/-- The scene shows the pipeline, but for what it is still to be told. -/
structure Mirrors (lag : Lag) (s : PipelineScene) : Prop where
  elements : ∀ p, .element p ∈ s.items ↔ s.m_pipeline.IsChild p ∧ p ∉ lag.pending
  lines : ∀ c, c ∉ lag.taken → (.line c ∈ s.items ↔ s.m_pipeline.HasConnection c)
  fitted : Fitted lag.pending lag.missing s
  wired : Wired lag.gone lag.taken s

/-- The items are not the widgets, and the children of the pipeline not its elements. -/
theorem Wired.congr {gone gone' : Set ElemPtr} {taken : Set ConnPtr} {s t : PipelineScene}
    (hs : Wired gone taken s) (hwidgets : t.elementWidgets = s.elementWidgets)
    (hlines : t.connectionLines = s.connectionLines) (hpins : t.pinWidgets = s.pinWidgets)
    (hnext : t.nextPinWidget = s.nextPinWidget)
    (hconnections : t.m_pipeline.m_connections = s.m_pipeline.m_connections)
    (hconns : t.m_pipeline.conns = s.m_pipeline.conns)
    (hallocated : t.m_pipeline.nextConn = s.m_pipeline.nextConn)
    (helems : t.m_pipeline.elems = s.m_pipeline.elems) (hgone : gone ⊆ gone') :
    Wired gone' taken t where
  drawn k c out inp hc hk hconn := by
    rw [hconnections] at hk
    rw [hconns] at hconn
    obtain ⟨hsource, htarget⟩ := hs.drawn k c out inp hc hk hconn
    constructor
    · rw [hwidgets]
      exact hsource
    · rw [hwidgets, hlines]
      exact htarget
  untaken := hlines ▸ hs.untaken
  listed := by
    rw [hwidgets, hlines, hpins, hnext]
    exact hs.listed
  left c line hline hnot := by
    unfold Pipeline.HasConnection at hnot
    rw [hconnections] at hnot
    obtain ⟨hproducer, out, inp, hends, hsource, htarget, hout⟩ :=
      hs.left c line (hlines ▸ hline) hnot
    refine ⟨hconns ▸ hproducer, out, inp, ?_, hwidgets ▸ hsource, hwidgets ▸ htarget,
      hout.imp (@hgone _) (@hgone _)⟩
    rw [hnext, hpins, helems]
    exact hends
  known := by
    rw [hlines, hallocated]
    exact hs.known

/-- Whether the pipeline runs or a line is drawn does not matter. -/
theorem Mirrors.aside {lag : Lag} {s : PipelineScene} (hs : Mirrors lag s) (isRunning : Bool)
    (line : Option PinRef) : Mirrors lag { s with isRunning := isRunning, line := line } :=
  { hs with
    fitted := { hs.fitted with }
    wired := hs.wired.congr rfl rfl rfl rfl rfl rfl rfl rfl fun _ hq => hq }

structure AddsPins (p : ElemPtr) (ids : List Int) (s t : PipelineScene) : Prop where
  pipeline : t.m_pipeline = s.m_pipeline
  running : t.isRunning = s.isRunning
  items : t.items = s.items
  connectionLines : t.connectionLines = s.connectionLines
  next : s.nextPinWidget ≤ t.nextPinWidget
  old : ∀ q, q < s.nextPinWidget → t.pinWidgets q = s.pinWidgets q
  others : ∀ p', p' ≠ p → t.elementWidgets p' = s.elementWidgets p'
  unknown : s.elementWidgets p = none → t.elementWidgets p = none
  widget : ∀ w, s.elementWidgets p = some w → ∃ m,
    t.elementWidgets p = some { w with inputPinWidgets := m } ∧
    (∀ i : Int, i ∉ ids → m[i]? = w.inputPinWidgets[i]?) ∧
    ∀ i : Int, i ∈ ids → ∃ q, m[i]? = some q ∧ s.nextPinWidget ≤ q ∧ q < t.nextPinWidget ∧
      t.pinWidgets q = ⟨⟨p, i⟩, false⟩

section AddsPins
variable {p : ElemPtr} {ids ids' : List Int} {s t u : PipelineScene}

theorem AddsPins.refl (p : ElemPtr) (s : PipelineScene) : AddsPins p [] s s where
  pipeline := rfl
  running := rfl
  items := rfl
  connectionLines := rfl
  next := Nat.le_refl _
  old _ _ := rfl
  others _ _ := rfl
  unknown hp := hp
  widget w hw := ⟨w.inputPinWidgets, hw, fun _ _ => rfl, by simp⟩

theorem AddsPins.trans (h : AddsPins p ids s t) (h' : AddsPins p ids' t u) :
    AddsPins p (ids ++ ids') s u where
  pipeline := h'.pipeline.trans h.pipeline
  running := h'.running.trans h.running
  items := h'.items.trans h.items
  connectionLines := h'.connectionLines.trans h.connectionLines
  next := Nat.le_trans h.next h'.next
  old q hq := (h'.old q (Nat.lt_of_lt_of_le hq h.next)).trans (h.old q hq)
  others p' hne := (h'.others p' hne).trans (h.others p' hne)
  unknown hp := h'.unknown (h.unknown hp)
  widget w hw := by
    obtain ⟨m, hm, hkept, hnew⟩ := h.widget w hw
    obtain ⟨m', hm', hkept', hnew'⟩ := h'.widget _ hm
    refine ⟨m', hm', fun i hi => ?_, fun i hi => ?_⟩
    · rw [List.mem_append, not_or] at hi
      exact (hkept' i hi.2).trans (hkept i hi.1)
    · by_cases hlate : i ∈ ids'
      · obtain ⟨q, hq, hge, hlt, hpin⟩ := hnew' i hlate
        exact ⟨q, hq, Nat.le_trans h.next hge, hlt, hpin⟩
      · obtain ⟨q, hq, hge, hlt, hpin⟩ := hnew i ((List.mem_append.mp hi).resolve_right hlate)
        exact ⟨q, (hkept' i hlate).trans hq, hge, Nat.lt_of_lt_of_le hlt h'.next,
          (h'.old q hlt).trans hpin⟩

theorem addInputPin_adds (p : ElemPtr) (s : PipelineScene) (id : Int) :
    AddsPins p [id] s (addInputPin p s id) where
  pipeline := rfl
  running := rfl
  items := rfl
  connectionLines := rfl
  next := Nat.le_succ _
  old q hq := Function.update_of_ne (Nat.ne_of_lt hq) ..
  others p' hne := Function.update_of_ne hne ..
  unknown hp := by simp [addInputPin, modifyWidget, hp]
  widget w hw := by
    refine ⟨w.inputPinWidgets.insert id s.nextPinWidget, ?_, fun i hi => ?_, fun i hi => ?_⟩
    · simp [addInputPin, modifyWidget, hw]
    · rw [QMap.getElem?_insert, if_neg (by simpa using hi)]
    · obtain rfl : i = id := by simpa using hi
      refine ⟨s.nextPinWidget, ?_, Nat.le_refl _, Nat.lt_succ_self _, ?_⟩
      · rw [QMap.getElem?_insert, if_pos rfl]
      · exact Function.update_self ..

theorem foldl_addInputPin (p : ElemPtr) (s : PipelineScene) (ids : List Int) :
    AddsPins p ids s (ids.foldl (addInputPin p) s) := by
  induction ids generalizing s with
  | nil => exact .refl p s
  | cons id ids ih => exact (addInputPin_adds p s id).trans (ih _)

variable {pending : Set ElemPtr} {missing : Set PinRef} {gone : Set ElemPtr} {taken : Set ConnPtr}

/-- The pins that had no widget get one. -/
theorem Fitted.addsPins (hs : Fitted pending missing s) (h : AddsPins p ids s t)
    (hmissing : ∀ r, r ∈ missing ↔ r.owner = p ∧ r.id ∈ ids)
    (hids : ∀ i ∈ ids, (s.m_pipeline.inputPin ⟨p, i⟩).isSome)
    (hp : (s.elementWidgets p).isSome) : Fitted pending ∅ t := by
  have hsome (p' : ElemPtr) : (t.elementWidgets p').isSome = (s.elementWidgets p').isSome := by
    by_cases he : p' = p
    · obtain ⟨w, hw⟩ := Option.isSome_iff_exists.mp hp
      obtain ⟨m, hm, -⟩ := h.widget w hw
      rw [he, hm, hw]
      rfl
    · rw [h.others p' he]
  constructor
  case widget =>
    intro p' hchild hpending
    rw [hsome]
    exact hs.widget p' (h.pipeline ▸ hchild) hpending
  case unknown =>
    intro p' hpending
    have hnone := hs.unknown p' hpending
    rw [← Option.not_isSome_iff_eq_none, hsome, hnone]
    simp
  case named =>
    intro p' hp'
    rw [h.pipeline]
    exact hs.named p' (hsome p' ▸ hp')
  case inputs =>
    intro p' w' hw' i
    rw [h.pipeline]
    by_cases he : p' = p
    · subst p'
      obtain ⟨w, hw⟩ := Option.isSome_iff_exists.mp hp
      obtain ⟨m, hm, hkept, hnew⟩ := h.widget w hw
      obtain rfl : { w with inputPinWidgets := m } = w' := Option.some.inj (hm.symm.trans hw')
      by_cases hi : i ∈ ids
      · obtain ⟨q, hq, -⟩ := hnew i hi
        refine iff_of_true ?_ ⟨hids i hi, Set.notMem_empty _⟩
        exact Std.ExtTreeMap.mem_iff_isSome_getElem?.mpr (Option.isSome_of_eq_some hq)
      · have hold := hs.inputs p w hw i
        rw [Std.ExtTreeMap.mem_iff_isSome_getElem?] at hold ⊢
        rw [hkept i hi, hold, hmissing]
        simp [hi]
    · rw [h.others p' he] at hw'
      rw [hs.inputs p' w' hw' i, hmissing]
      simp [he]
  case outputs =>
    intro p' w' hw' i
    rw [h.pipeline]
    by_cases he : p' = p
    · subst p'
      obtain ⟨w, hw⟩ := Option.isSome_iff_exists.mp hp
      obtain ⟨m, hm, -⟩ := h.widget w hw
      obtain rfl : { w with inputPinWidgets := m } = w' := Option.some.inj (hm.symm.trans hw')
      exact hs.outputs p w hw i
    · rw [h.others p' he] at hw'
      exact hs.outputs p' w' hw' i
  case pins =>
    intro p' w' i q hw' hq
    have hold {w : PipelineElementWidget} (hw : s.elementWidgets p' = some w)
        (hq : w.inputPinWidgets[i]? = some q) :
        q < t.nextPinWidget ∧ t.pinWidgets q = ⟨⟨p', i⟩, false⟩ := by
      obtain ⟨hlt, hpin⟩ := hs.pins p' w i q hw hq
      exact ⟨Nat.lt_of_lt_of_le hlt h.next, (h.old q hlt).trans hpin⟩
    by_cases he : p' = p
    · subst p'
      obtain ⟨w, hw⟩ := Option.isSome_iff_exists.mp hp
      obtain ⟨m, hm, hkept, hnew⟩ := h.widget w hw
      obtain rfl : { w with inputPinWidgets := m } = w' := Option.some.inj (hm.symm.trans hw')
      by_cases hi : i ∈ ids
      · obtain ⟨q', hq', -, hlt, hpin⟩ := hnew i hi
        obtain rfl : q' = q := Option.some.inj (hq'.symm.trans hq)
        exact ⟨hlt, hpin⟩
      · exact hold hw ((hkept i hi).symm.trans hq)
    · rw [h.others p' he] at hw'
      exact hold hw' hq

/-- The lines end at other pins. -/
theorem Wired.addsPins (hs : Wired gone taken s) (h : AddsPins p ids s t)
    (hfree : ∀ w, s.elementWidgets p = some w → ∀ i ∈ ids, i ∉ w.inputPinWidgets) :
    Wired gone taken t := by
  have hsame {p' : ElemPtr} {w : PipelineElementWidget} (hw : s.elementWidgets p' = some w) :
      ∃ m, t.elementWidgets p' = some { w with inputPinWidgets := m } ∧
        ∀ (i : Int) q, w.inputPinWidgets[i]? = some q → m[i]? = some q := by
    by_cases he : p' = p
    · subst p'
      obtain ⟨m, hm, hkept, -⟩ := h.widget w hw
      refine ⟨m, hm, fun i q hq => ?_⟩
      rw [hkept i, hq]
      intro hi
      exact hfree w hw i hi
        (Std.ExtTreeMap.mem_iff_isSome_getElem?.mpr (Option.isSome_of_eq_some hq))
    · exact ⟨w.inputPinWidgets, (h.others p' he).trans hw, fun _ _ hq => hq⟩
  have hlists {p' : ElemPtr} {w' : PipelineElementWidget} (hw' : t.elementWidgets p' = some w') :
      ∃ w, s.elementWidgets p' = some w ∧ w'.lines = w.lines := by
    cases hw : s.elementWidgets p' with
    | none =>
      have hnone : t.elementWidgets p' = none := by
        by_cases he : p' = p
        · subst p'
          exact h.unknown hw
        · rw [h.others p' he, hw]
      rw [hnone] at hw'
      cases hw'
    | some w =>
      obtain ⟨m, hm, -⟩ := hsame hw
      rw [hm] at hw'
      cases hw'
      exact ⟨w, rfl, rfl⟩
  constructor
  case drawn =>
    intro k c out inp hc hk hconn
    rw [h.pipeline] at hk hconn
    obtain ⟨⟨w, hw, hline⟩, w', q, hw', hline', hq, hc'⟩ := hs.drawn k c out inp hc hk hconn
    obtain ⟨m, hm, -⟩ := hsame hw
    obtain ⟨m', hm', hkept'⟩ := hsame hw'
    exact ⟨⟨_, hm, hline⟩, _, q, hm', hline', hkept' _ q hq, h.connectionLines ▸ hc'⟩
  case untaken =>
    rw [h.connectionLines]
    exact hs.untaken
  case listed =>
    intro p' w' c hw' hc
    obtain ⟨w, hw, hlines⟩ := hlists hw'
    obtain ⟨out, q, hline, hlt, howner⟩ := hs.listed p' w c hw (hlines ▸ hc)
    refine ⟨out, q, h.connectionLines ▸ hline, Nat.lt_of_lt_of_le hlt h.next, ?_⟩
    rw [h.old q hlt]
    exact howner
  case left =>
    intro c line hline hgone
    rw [h.connectionLines] at hline
    rw [h.pipeline] at hgone ⊢
    obtain ⟨hproducer, out, inp, ⟨q, hlt, hends, hpin⟩, hsource, htarget, hout⟩ :=
      hs.left c line hline hgone
    obtain ⟨w, hw⟩ := Option.isSome_iff_exists.mp hsource
    obtain ⟨w', hw'⟩ := Option.isSome_iff_exists.mp htarget
    obtain ⟨m, hm, -⟩ := hsame hw
    obtain ⟨m', hm', -⟩ := hsame hw'
    refine ⟨hproducer, out, inp, ⟨q, Nat.lt_of_lt_of_le hlt h.next, hends, ?_⟩,
      Option.isSome_of_eq_some hm, Option.isSome_of_eq_some hm', hout⟩
    rw [h.old q hlt, h.pipeline]
    exact hpin
  case known =>
    rw [h.connectionLines, h.pipeline]
    exact hs.known

end AddsPins

structure Relists (change : ElemPtr → List ConnPtr → List ConnPtr) (s t : PipelineScene) :
    Prop where
  pipeline : t.m_pipeline = s.m_pipeline
  pinWidgets : t.pinWidgets = s.pinWidgets
  next : t.nextPinWidget = s.nextPinWidget
  widgets : ∀ p, t.elementWidgets p =
    (s.elementWidgets p).map fun w => { w with lines := change p w.lines }

section Relists
variable {change : ElemPtr → List ConnPtr → List ConnPtr} {s t : PipelineScene}
  {pending gone : Set ElemPtr} {missing : Set PinRef}

theorem Relists.isSome (h : Relists change s t) (p : ElemPtr) :
    (t.elementWidgets p).isSome = (s.elementWidgets p).isSome := by
  rw [h.widgets, Option.isSome_map]

theorem Relists.widget (h : Relists change s t) {p : ElemPtr} {w : PipelineElementWidget}
    (hw : s.elementWidgets p = some w) :
    t.elementWidgets p = some { w with lines := change p w.lines } := by
  rw [h.widgets, hw]
  rfl

theorem Relists.of_widget (h : Relists change s t) {p : ElemPtr} {w' : PipelineElementWidget}
    (hw' : t.elementWidgets p = some w') :
    ∃ w, s.elementWidgets p = some w ∧ { w with lines := change p w.lines } = w' := by
  rw [h.widgets] at hw'
  exact Option.map_eq_some_iff.mp hw'

theorem Fitted.relists (hs : Fitted pending missing s) (h : Relists change s t) :
    Fitted pending missing t where
  widget p hchild hp := by
    rw [h.isSome]
    exact hs.widget p (h.pipeline ▸ hchild) hp
  unknown p hp := by
    rw [h.widgets, hs.unknown p hp]
    rfl
  named p hp := by
    rw [h.pipeline]
    exact hs.named p (h.isSome p ▸ hp)
  inputs p w' hw' i := by
    obtain ⟨w, hw, rfl⟩ := h.of_widget hw'
    rw [h.pipeline]
    exact hs.inputs p w hw i
  outputs p w' hw' i := by
    obtain ⟨w, hw, rfl⟩ := h.of_widget hw'
    rw [h.pipeline]
    exact hs.outputs p w hw i
  pins p w' i q hw' hq := by
    obtain ⟨w, hw, rfl⟩ := h.of_widget hw'
    rw [h.next, h.pinWidgets]
    exact hs.pins p w i q hw hq

theorem Leftover.relists {line : ConnectionLine} {out inp : PinRef}
    (hs : s.Leftover gone line out inp) (h : Relists change s t) :
    t.Leftover gone line out inp where
  ends := by
    rw [h.next, h.pinWidgets, h.pipeline]
    exact hs.ends
  source := h.isSome _ ▸ hs.source
  target := h.isSome _ ▸ hs.target
  gone := hs.gone

def atEnds (out inp : PinRef) (f : List ConnPtr → List ConnPtr) (p : ElemPtr) :
    List ConnPtr → List ConnPtr :=
  if p = out.owner ∨ p = inp.owner then f else id

variable {out inp : PinRef}

/-- Two elements, one after the other. -/
theorem modifyWidgets_relists (f : List ConnPtr → List ConnPtr) (hne : out.owner ≠ inp.owner) :
    Relists (atEnds out inp f) s ((s.modifyWidget out.owner fun w =>
      { w with lines := f w.lines }).modifyWidget inp.owner fun w =>
      { w with lines := f w.lines }) where
  pipeline := rfl
  pinWidgets := rfl
  next := rfl
  widgets p := by
    unfold modifyWidget atEnds
    by_cases hinp : p = inp.owner
    · simp [hinp, hne.symm]
    · by_cases hout : p = out.owner
      · simp [hout, hne]
      · simp [hinp, hout]

end Relists

section Adding
variable {s : PipelineScene} {lag : Lag} {h : HashOrder Int}

theorem Mirrors.addsPins {p : ElemPtr} {ids : List Int} {t : PipelineScene}
    (hs : Mirrors lag s) (hadds : AddsPins p ids s t)
    (hmissing : lag.missing = {r | r.owner = p ∧ r.id ∈ ids})
    (hids : ∀ i ∈ ids, (s.m_pipeline.inputPin ⟨p, i⟩).isSome)
    (hp : (s.elementWidgets p).isSome) : Mirrors { lag with missing := ∅ } t where
  elements p' := by
    rw [hadds.items, hadds.pipeline]
    exact hs.elements p'
  lines c hc := by
    rw [hadds.items, hadds.pipeline]
    exact hs.lines c hc
  fitted := hs.fitted.addsPins hadds (fun r => by rw [hmissing]; rfl) hids hp
  wired := by
    refine hs.wired.addsPins hadds fun w hw i hi hmem => ?_
    have hfree := ((hs.fitted.inputs p w hw i).mp hmem).2
    rw [hmissing] at hfree
    exact hfree ⟨rfl, hi⟩

def inputIds (h : HashOrder Int) (e : Element) : List Int :=
  match e.kind with
  | .processor => h.order e.m_inputPins.keys
  | .producer => []

theorem mem_inputIds (hinv : s.m_pipeline.Inv) {p : ElemPtr} {i : Int} :
    i ∈ inputIds h (s.m_pipeline.elems p) ↔ (s.m_pipeline.inputPin ⟨p, i⟩).isSome := by
  have hkeys : i ∈ h.order (s.m_pipeline.elems p).m_inputPins.keys ↔
      (s.m_pipeline.inputPin ⟨p, i⟩).isSome := by
    rw [(h.perm _).mem_iff, Std.ExtTreeMap.mem_keys, Std.ExtTreeMap.mem_iff_isSome_getElem?]
    exact Iff.rfl
  unfold inputIds
  cases hkind : (s.m_pipeline.elems p).kind with
  | processor => exact hkeys
  | producer =>
    refine iff_of_false List.not_mem_nil fun hpin => ?_
    obtain ⟨pin, hpin⟩ := Option.isSome_iff_exists.mp hpin
    have hprocessor := (hinv.input_pin _ pin hpin).2
    rw [hkind] at hprocessor
    cases hprocessor

def bareWidget (h : HashOrder Int) (s : PipelineScene) (p : ElemPtr) : PipelineScene :=
  { s with
    items := insert (GraphicsItem.element p) s.items
    elementWidgets := Function.update s.elementWidgets p
      (some ⟨[], ∅, h.order (s.m_pipeline.elems p).m_outputPins.keys⟩) }

theorem bareWidget_old {p p' : ElemPtr} {w : PipelineElementWidget}
    (hnone : s.elementWidgets p = none) (hw : s.elementWidgets p' = some w) :
    (s.bareWidget h p).elementWidgets p' = some w := by
  have hne : p' ≠ p := by
    rintro rfl
    rw [hnone] at hw
    cases hw
  exact (Function.update_of_ne hne ..).trans hw

theorem bareWidget_cases {p p' : ElemPtr} {w : PipelineElementWidget}
    (hw : (s.bareWidget h p).elementWidgets p' = some w) :
    p' = p ∧ w = ⟨[], ∅, h.order (s.m_pipeline.elems p).m_outputPins.keys⟩ ∨
      p' ≠ p ∧ s.elementWidgets p' = some w := by
  by_cases he : p' = p
  · subst p'
    have hself : (s.bareWidget h p).elementWidgets p =
        some ⟨[], ∅, h.order (s.m_pipeline.elems p).m_outputPins.keys⟩ :=
      Function.update_self ..
    exact .inl ⟨rfl, Option.some.inj (hw.symm.trans hself)⟩
  · exact .inr ⟨he, (Function.update_of_ne he ..).symm.trans hw⟩

/-- Only the input pins of the element have no widget yet. -/
theorem Fitted.bareWidget {pending : Set ElemPtr} (hs : Fitted pending ∅ s)
    (hinv : s.m_pipeline.Inv) {p : ElemPtr} (hp : p ∈ pending) (hchild : s.m_pipeline.IsChild p) :
    Fitted (pending \ {p}) {r | r.owner = p ∧ r.id ∈ inputIds h (s.m_pipeline.elems p)}
      (s.bareWidget h p) := by
  constructor
  case widget =>
    intro p' hchild' hp'
    by_cases he : p' = p
    · simp [PipelineScene.bareWidget, he]
    · obtain ⟨w, hw⟩ := Option.isSome_iff_exists.mp
        (hs.widget p' hchild' fun hmem => hp' ⟨hmem, he⟩)
      exact Option.isSome_of_eq_some (bareWidget_old (hs.unknown p hp) hw)
  case unknown =>
    rintro p' ⟨hp', he⟩
    exact (Function.update_of_ne he ..).trans (hs.unknown p' hp')
  case named =>
    intro p' hp'
    obtain ⟨w, hw⟩ := Option.isSome_iff_exists.mp hp'
    obtain ⟨rfl, -⟩ | ⟨-, hw⟩ := bareWidget_cases hw
    · obtain ⟨k, hk⟩ := hchild
      change (s.m_pipeline.elems p').m_id ≠ -1
      rw [hinv.child_id k p' hk]
      exact hinv.child_set k p' hk
    · exact hs.named p' (Option.isSome_of_eq_some hw)
  case inputs =>
    intro p' w hw i
    obtain ⟨rfl, rfl⟩ | ⟨he, hw⟩ := bareWidget_cases hw
    · refine iff_of_false Std.ExtTreeMap.not_mem_empty ?_
      rintro ⟨hpin, hnot⟩
      exact hnot ⟨rfl, (mem_inputIds hinv).mpr hpin⟩
    · rw [hs.inputs p' w hw i]
      simp [he, PipelineScene.bareWidget]
  case outputs =>
    intro p' w hw i
    obtain ⟨rfl, rfl⟩ | ⟨he, hw⟩ := bareWidget_cases hw
    · rw [(h.perm _).mem_iff, Std.ExtTreeMap.mem_keys, Std.ExtTreeMap.mem_iff_isSome_getElem?]
      exact Iff.rfl
    · exact hs.outputs p' w hw i
  case pins =>
    intro p' w i q hw hq
    obtain ⟨rfl, rfl⟩ | ⟨he, hw⟩ := bareWidget_cases hw
    · simp at hq
    · exact hs.pins p' w i q hw hq

/-- The widget has no lines. -/
theorem Wired.bareWidget {gone : Set ElemPtr} {taken : Set ConnPtr} (hs : Wired gone taken s)
    {p : ElemPtr} (hnone : s.elementWidgets p = none) :
    Wired gone taken (s.bareWidget h p) := by
  constructor
  case drawn =>
    intro k c out inp hc hk hconn
    obtain ⟨⟨w, hw, hline⟩, w', q, hw', hrest⟩ := hs.drawn k c out inp hc hk hconn
    exact ⟨⟨w, bareWidget_old hnone hw, hline⟩, w', q, bareWidget_old hnone hw', hrest⟩
  case untaken => exact hs.untaken
  case listed =>
    intro p' w c hw hc
    obtain ⟨rfl, rfl⟩ | ⟨he, hw⟩ := bareWidget_cases hw
    · exact absurd hc List.not_mem_nil
    · exact hs.listed p' w c hw hc
  case left =>
    intro c line hline hgone
    obtain ⟨hproducer, out, inp, hends, hsource, htarget, hout⟩ := hs.left c line hline hgone
    obtain ⟨w, hw⟩ := Option.isSome_iff_exists.mp hsource
    obtain ⟨w', hw'⟩ := Option.isSome_iff_exists.mp htarget
    exact ⟨hproducer, out, inp, hends, Option.isSome_of_eq_some (bareWidget_old hnone hw),
      Option.isSome_of_eq_some (bareWidget_old hnone hw'), hout⟩
  case known => exact hs.known

theorem Mirrors.setWidget (hs : Mirrors lag s) (hinv : s.m_pipeline.Inv)
    (hmissing : lag.missing = ∅) {p : ElemPtr} (hp : p ∈ lag.pending)
    (hchild : s.m_pipeline.IsChild p) : Mirrors { lag with
      pending := lag.pending \ {p}
      missing := {r | r.owner = p ∧ r.id ∈ inputIds h (s.m_pipeline.elems p)} }
      (s.bareWidget h p) where
  elements p' := by
    change _ ∈ insert _ s.items ↔ _
    rw [Finset.mem_insert, hs.elements p']
    by_cases he : p' = p
    · simp [he, hchild, bareWidget]
    · simp [he, bareWidget]
  lines c hc := by
    change _ ∈ insert _ s.items ↔ _
    rw [Finset.mem_insert, hs.lines c hc]
    simp [bareWidget]
  fitted := (hmissing ▸ hs.fitted).bareWidget hinv hp hchild
  wired := hs.wired.bareWidget (hs.fitted.unknown p hp)

/-- An element gets its widget. -/
theorem Mirrors.addElement (hs : Mirrors lag s) (hinv : s.m_pipeline.Inv)
    (hmissing : lag.missing = ∅) {p : ElemPtr} (hp : p ∈ lag.pending)
    (hchild : s.m_pipeline.IsChild p) :
    ∃ t, s.addElement h p = some t ∧ t.m_pipeline = s.m_pipeline ∧ t.isRunning = s.isRunning ∧
      Mirrors { lag with pending := lag.pending \ {p} } t := by
  have hnone := hs.fitted.unknown p hp
  let e := s.m_pipeline.elems p
  let w : PipelineElementWidget := ⟨[], ∅, h.order e.m_outputPins.keys⟩
  let s₀ : PipelineScene :=
    { s with elementWidgets := Function.update s.elementWidgets p (some w) }
  let t₀ := (inputIds h e).foldl (addInputPin p) s₀
  have hadds : AddsPins p (inputIds h e) s₀ t₀ := foldl_addInputPin p s₀ (inputIds h e)
  have ht : s.addElement h p =
      some { t₀ with items := insert (GraphicsItem.element p) t₀.items } := by
    unfold PipelineScene.addElement
    rw [if_neg (by simp [hnone])]
    cases hkind : e.kind <;> simp [t₀, s₀, w, e, inputIds, hkind]
  refine ⟨_, ht, hadds.pipeline, hadds.running, ?_⟩
  have hset := hs.setWidget (h := h) hinv hmissing hp hchild
  have hall : AddsPins p (inputIds h e) (s.bareWidget h p)
      { t₀ with items := insert (GraphicsItem.element p) t₀.items } :=
    { hadds with items := congrArg (insert (GraphicsItem.element p)) hadds.items }
  have hdone := hset.addsPins hall rfl (fun i hi => (mem_inputIds hinv).mp hi)
    (by simp [bareWidget])
  rw [← hmissing] at hdone
  exact hdone

def bareLine (s : PipelineScene) (c : ConnPtr) (line : ConnectionLine) : PipelineScene :=
  { s with
    items := insert (GraphicsItem.line c) s.items
    connectionLines := Function.update s.connectionLines c (some line) }

/-- What `add` does with a connection of two elements that have their widgets. -/
theorem Mirrors.addConnection_eq (hs : Mirrors lag s) (hmissing : lag.missing = ∅) {k : Int}
    {c : ConnPtr} {out inp : PinRef} (hc : c ∈ lag.taken) (hl : s.m_pipeline.Linked k c out inp)
    (hout : out.owner ∉ lag.pending) (hinp : inp.owner ∉ lag.pending) :
    ∃ w w' q, s.elementWidgets out.owner = some w ∧ s.elementWidgets inp.owner = some w' ∧
      w'.inputPinWidgets[inp.id]? = some q ∧
      s.addConnection c = some (((s.bareLine c ⟨some out, some q⟩).addLine out.owner c).addLine
        inp.owner c) := by
  obtain ⟨o, i, ho, -, hi, -⟩ := hl.pins
  obtain ⟨w, hw⟩ := Option.isSome_iff_exists.mp (hs.fitted.widget _ hl.source hout)
  obtain ⟨w', hw'⟩ := Option.isSome_iff_exists.mp (hs.fitted.widget _ hl.sink hinp)
  have hshown : out.id ∈ w.outputPinWidgets :=
    (hs.fitted.outputs _ w hw out.id).mpr (Option.isSome_of_eq_some ho)
  have hpin : inp.id ∈ w'.inputPinWidgets := by
    rw [hs.fitted.inputs _ w' hw' inp.id, hmissing]
    exact ⟨Option.isSome_of_eq_some hi, Set.notMem_empty _⟩
  rw [Std.ExtTreeMap.mem_iff_isSome_getElem?] at hpin
  obtain ⟨q, hq⟩ := Option.isSome_iff_exists.mp hpin
  obtain ⟨-, halive⟩ := hs.fitted.pins _ w' inp.id q hw' hq
  have hread : s.canRead ⟨some out, some q⟩ = true := by simp [canRead, halive]
  refine ⟨w, w', q, hw, hw', hq, ?_⟩
  unfold addConnection
  simp only [hl.conn, hw, hw', PipelineElementWidget.outputPinWidget, if_pos hshown, hq, hread,
    hs.wired.untaken c hc]
  rfl

theorem mem_atEnds {out inp : PinRef} {p : ElemPtr} {c c' : ConnPtr} {l : List ConnPtr} :
    c' ∈ atEnds out inp (· ++ [c]) p l ↔
      c' ∈ l ∨ c' = c ∧ (p = out.owner ∨ p = inp.owner) := by
  unfold atEnds
  split
  case isTrue hp => simp [hp]
  case isFalse hp => simp [hp]

theorem bareLine_old {c c' : ConnPtr} {line : ConnectionLine} (hne : c' ≠ c) :
    (s.bareLine c line).connectionLines c' = s.connectionLines c' := Function.update_of_ne hne ..

theorem bareLine_self (s : PipelineScene) (c : ConnPtr) (line : ConnectionLine) :
    (s.bareLine c line).connectionLines c = some line := Function.update_self ..

theorem addLines_relists (s : PipelineScene) (c : ConnPtr) {out inp : PinRef}
    (hne : out.owner ≠ inp.owner) :
    Relists (atEnds out inp (· ++ [c])) s ((s.addLine out.owner c).addLine inp.owner c) :=
  modifyWidgets_relists (· ++ [c]) hne

/-- The widgets at the ends of a new line have it in their lists. -/
theorem Wired.addLines {gone : Set ElemPtr} {taken : Set ConnPtr} (hs : Wired gone taken s)
    (hinv : s.m_pipeline.Inv) {k : Int} {c : ConnPtr} {out inp : PinRef}
    {w w' : PipelineElementWidget} {q : PinWidgetPtr} (hc : c ∈ taken)
    (hk : s.m_pipeline.m_connections[k]? = some c) (hl : s.m_pipeline.Linked k c out inp)
    (hw : s.elementWidgets out.owner = some w) (hw' : s.elementWidgets inp.owner = some w')
    (hq : w'.inputPinWidgets[inp.id]? = some q)
    (hpin : q < s.nextPinWidget ∧ s.pinWidgets q = ⟨inp, false⟩) :
    Wired gone (taken \ {c})
      (((s.bareLine c ⟨some out, some q⟩).addLine out.owner c).addLine inp.owner c) := by
  have hrel := addLines_relists (s.bareLine c ⟨some out, some q⟩) c hl.distinct
  have hline := s.bareLine_self c ⟨some out, some q⟩
  constructor
  case drawn =>
    intro k' c' out' inp' hc' hk' hconn
    by_cases he : c' = c
    · subst c'
      have hends := hconn.symm.trans hl.conn
      cases hends
      refine ⟨⟨_, hrel.widget hw, ?_⟩, _, q, hrel.widget hw', ?_, hq, hline⟩
      · exact mem_atEnds.mpr (.inr ⟨rfl, .inl rfl⟩)
      · exact mem_atEnds.mpr (.inr ⟨rfl, .inr rfl⟩)
    · obtain ⟨⟨v, hv, hin⟩, v', q', hv', hin', hq', hline'⟩ :=
        hs.drawn k' c' out' inp' (fun hmem => hc' ⟨hmem, he⟩) hk' hconn
      exact ⟨⟨_, hrel.widget hv, mem_atEnds.mpr (.inl hin)⟩, _, q', hrel.widget hv',
        mem_atEnds.mpr (.inl hin'), hq', (bareLine_old he).trans hline'⟩
  case untaken =>
    rintro c' ⟨hc', he⟩
    exact (bareLine_old he).trans (hs.untaken c' hc')
  case listed =>
    intro p v' c' hv' hc'
    obtain ⟨v, hv, rfl⟩ := hrel.of_widget hv'
    obtain hold | ⟨rfl, hp⟩ := mem_atEnds.mp hc'
    · obtain ⟨out', q', hline', hlt, howner⟩ := hs.listed p v c' hv hold
      have he : c' ≠ c := by
        rintro rfl
        rw [hs.untaken c' hc] at hline'
        cases hline'
      exact ⟨out', q', (bareLine_old he).trans hline', hlt, howner⟩
    · refine ⟨out, q, hline, hpin.1, ?_⟩
      change p = out.owner ∨ p = (s.pinWidgets q).m_inputPin.owner
      rw [hpin.2]
      exact hp
  case left =>
    intro c' line hline' hgone
    have he : c' ≠ c := by
      rintro rfl
      exact hgone ⟨k, hk⟩
    obtain ⟨hproducer, out', inp', hleft⟩ :=
      hs.left c' line ((bareLine_old he).symm.trans hline') hgone
    have hbare : (s.bareLine c ⟨some out, some q⟩).Leftover gone line out' inp' :=
      { hleft with }
    exact ⟨hproducer, out', inp', hbare.relists hrel⟩
  case known =>
    intro c' hc'
    by_cases he : c' = c
    · subst c'
      exact hinv.allocated k c hk
    · exact hs.known c' (by rw [← bareLine_old he]; exact hc')

/-- A connection gets its line. -/
theorem Mirrors.addConnection (hs : Mirrors lag s) (hinv : s.m_pipeline.Inv)
    (hmissing : lag.missing = ∅) {k : Int} {c : ConnPtr} {out inp : PinRef} (hc : c ∈ lag.taken)
    (hk : s.m_pipeline.m_connections[k]? = some c) (hl : s.m_pipeline.Linked k c out inp)
    (hout : out.owner ∉ lag.pending) (hinp : inp.owner ∉ lag.pending) :
    ∃ t, s.addConnection c = some t ∧ t.m_pipeline = s.m_pipeline ∧ t.isRunning = s.isRunning ∧
      Mirrors { lag with taken := lag.taken \ {c} } t := by
  obtain ⟨w, w', q, hw, hw', hq, ht⟩ := hs.addConnection_eq hmissing hc hl hout hinp
  refine ⟨_, ht, rfl, rfl, ?_⟩
  have hfitted : Fitted lag.pending lag.missing (s.bareLine c ⟨some out, some q⟩) :=
    { hs.fitted with }
  constructor
  case elements =>
    intro p
    change _ ∈ insert _ s.items ↔ _
    rw [Finset.mem_insert, or_iff_right (by simp)]
    exact hs.elements p
  case lines =>
    intro c' hc'
    change _ ∈ insert _ s.items ↔ _
    by_cases he : c' = c
    · subst c'
      exact iff_of_true (Finset.mem_insert_self ..) ⟨k, hk⟩
    · rw [Finset.mem_insert, or_iff_right (by simp [he])]
      exact hs.lines c' fun hmem => hc' ⟨hmem, he⟩
  case fitted => exact hfitted.relists (addLines_relists _ c hl.distinct)
  case wired =>
    exact hs.wired.addLines hinv hc hk hl hw hw' hq (hs.fitted.pins _ w' inp.id q hw' hq)

theorem Mirrors.new {pipeline : Pipeline} : Mirrors ⟨{p | ¬ pipeline.IsChild p},
    {p | pipeline.IsChild p}, {c | pipeline.HasConnection c}, ∅⟩ (new pipeline) where
  elements p := by simp [PipelineScene.new]
  lines c hc := iff_of_false (Finset.notMem_empty _) hc
  fitted := by
    constructor
    case widget => exact fun p hchild hp => absurd hchild hp
    case unknown => exact fun _ _ => rfl
    case named => exact fun _ hp => absurd hp Bool.false_ne_true
    all_goals
      intro p w
      intros
      contradiction
  wired := by
    constructor
    case drawn => exact fun k c _ _ hc hk => absurd ⟨k, hk⟩ hc
    case untaken => exact fun _ _ => rfl
    case known => exact fun _ hc => absurd hc Bool.false_ne_true
    case listed =>
      intro p w
      intros
      contradiction
    case left =>
      intro c line
      intros
      contradiction

/-- What is left to be told when the first of a list was. -/
theorem rest_of_cons {α : Type} {a : α} {as : List α} {left : Set α} (ha : a ∉ as)
    (hleft : left = {b | b ∈ a :: as}) : left \ {a} = {b | b ∈ as} := by
  ext b
  rw [hleft]
  constructor
  · rintro ⟨hmem, hne⟩
    exact (List.mem_cons.mp hmem).resolve_left hne
  · intro hmem
    exact ⟨List.mem_cons_of_mem a hmem, ne_of_mem_of_not_mem hmem ha⟩

theorem Mirrors.addElements (hs : Mirrors lag s) (hinv : s.m_pipeline.Inv)
    (hmissing : lag.missing = ∅) {ps : List ElemPtr} (hn : ps.Nodup)
    (hpending : lag.pending = {p | p ∈ ps}) (hps : ∀ p ∈ ps, s.m_pipeline.IsChild p) :
    ∃ t, ps.foldlM (PipelineScene.addElement h) s = some t ∧ t.m_pipeline = s.m_pipeline ∧
      t.isRunning = s.isRunning ∧ Mirrors { lag with pending := ∅ } t := by
  induction ps generalizing s lag with
  | nil =>
    have hnone : lag.pending = ∅ := by simpa using hpending
    exact ⟨s, rfl, rfl, rfl, by rw [← hnone]; exact hs⟩
  | cons p ps ih =>
    obtain ⟨hp, hn⟩ := List.nodup_cons.mp hn
    obtain ⟨t, ht, hpipeline, hrunning, hmirrors⟩ := hs.addElement (h := h) hinv hmissing
      (by rw [hpending]; exact List.mem_cons_self) (hps p List.mem_cons_self)
    obtain ⟨u, hu, hpipeline', hrunning', hmirrors'⟩ := ih hmirrors (hpipeline ▸ hinv) hmissing hn
      (rest_of_cons hp hpending) fun p' hp' => hpipeline ▸ hps p' (List.mem_cons_of_mem p hp')
    exact ⟨u, by simp [ht, hu], hpipeline'.trans hpipeline, hrunning'.trans hrunning, hmirrors'⟩

theorem Mirrors.addConnections (hs : Mirrors lag s) (hinv : s.m_pipeline.Inv)
    (hmissing : lag.missing = ∅) (hpending : lag.pending = ∅) {cs : List ConnPtr} (hn : cs.Nodup)
    (htaken : lag.taken = {c | c ∈ cs}) (hcs : ∀ c ∈ cs, s.m_pipeline.HasConnection c) :
    ∃ t, cs.foldlM PipelineScene.addConnection s = some t ∧ t.m_pipeline = s.m_pipeline ∧
      t.isRunning = s.isRunning ∧ Mirrors { lag with taken := ∅ } t := by
  induction cs generalizing s lag with
  | nil =>
    have hnone : lag.taken = ∅ := by simpa using htaken
    exact ⟨s, rfl, rfl, rfl, by rw [← hnone]; exact hs⟩
  | cons c cs ih =>
    obtain ⟨hc, hn⟩ := List.nodup_cons.mp hn
    obtain ⟨k, hk⟩ := hcs c List.mem_cons_self
    obtain ⟨out, inp, hl⟩ := hinv.linked k c hk
    have hshown (p : ElemPtr) : p ∉ lag.pending := by
      rw [hpending]
      exact Set.notMem_empty p
    obtain ⟨t, ht, hpipeline, hrunning, hmirrors⟩ := hs.addConnection hinv hmissing
      (by rw [htaken]; exact List.mem_cons_self) hk hl (hshown _) (hshown _)
    obtain ⟨u, hu, hpipeline', hrunning', hmirrors'⟩ := ih hmirrors (hpipeline ▸ hinv) hmissing
      hpending hn (rest_of_cons hc htaken) fun c' hc' =>
        hpipeline ▸ hcs c' (List.mem_cons_of_mem c hc')
    exact ⟨u, by simp [ht, hu], hpipeline'.trans hpipeline, hrunning'.trans hrunning, hmirrors'⟩

/-- A scene shows the pipeline it is given. -/
theorem setPipeline_mirrors {pipeline : Pipeline} (hinv : pipeline.Inv) (h : HashOrder Int) :
    ∃ s, setPipeline h pipeline = some s ∧ s.m_pipeline = pipeline ∧ s.isRunning = false ∧
      Mirrors (.none pipeline) s := by
  have hchildren : (valuesOf pipeline.m_children).Nodup := valuesOf_nodup fun k k' p hk hk' =>
    (hinv.child_id k' p hk').symm.trans (hinv.child_id k p hk)
  obtain ⟨s, hs, hpipeline, hrunning, hmirrors⟩ := Mirrors.addElements (h := h)
    (s := PipelineScene.new pipeline) Mirrors.new hinv rfl hchildren
    (Set.ext fun p => mem_valuesOf.symm) fun p hp => mem_valuesOf.mp hp
  obtain ⟨t, ht, hpipeline', hrunning', hmirrors'⟩ := Mirrors.addConnections hmirrors
    (hpipeline ▸ hinv) rfl rfl (valuesOf_nodup fun k k' c => hinv.connection_unique)
    (Set.ext fun c => mem_valuesOf.symm) fun c hc => hpipeline ▸ mem_valuesOf.mp hc
  refine ⟨t, ?_, hpipeline'.trans hpipeline, hrunning'.trans hrunning, hmirrors'⟩
  simp [setPipeline, hs, ht]

end Adding

end PipelineScene

end ParleVision.Gui
