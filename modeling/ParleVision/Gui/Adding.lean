import ParleVision.Gui.Mirror

namespace ParleVision.Lib

/-- Which id is found depends on the ids in use only. -/
theorem countUp_congr {α : Type u} {β : Type v} {m : QMap α} {m' : QMap β}
    (h : ∀ j : Int, j ∈ m ↔ j ∈ m') : countUp m m.size 0 = countUp m' m'.size 0 := by
  have hcount (n : Nat) (id : Int) : countUp m n id = countUp m' n id := by
    induction n generalizing id with
    | zero => rfl
    | succ n ih =>
      unfold countUp
      simp only [h, ih]
  have hkeys : m.keys.toFinset = m'.keys.toFinset := by
    ext j
    simp [h]
  have hsize : m.size = m'.size := by
    calc m.size = m.keys.length := m.length_keys.symm
      _ = m.keys.toFinset.card := (List.toFinset_card_of_nodup m.nodup_keys).symm
      _ = m'.keys.toFinset.card := by rw [hkeys]
      _ = m'.keys.length := List.toFinset_card_of_nodup m'.nodup_keys
      _ = m'.size := m'.length_keys
  rw [hsize]
  exact hcount _ _

end ParleVision.Lib

namespace ParleVision.Gui
open Lib ParleVision.Graph

namespace PipelineScene

variable {s : PipelineScene} {t : Pipeline} {lag : Lag} {isRegistered : Int → Bool}
  {h : HashOrder Int}

/-- The pipeline has more than before, of which the scene is still to be told. -/
structure Extends (lag : Lag) (s t : Pipeline) : Prop where
  child : ∀ p, t.IsChild p ∧ p ∉ lag.pending ↔ s.IsChild p
  pending : ∀ p ∈ lag.pending, (s.elems p).m_id = -1
  named : ∀ p, (s.elems p).m_id ≠ -1 → (t.elems p).m_id ≠ -1
  tcp : ∀ p, (t.elems p).isTCPServer = (s.elems p).isTCPServer
  input : ∀ r, (t.inputPin r).isSome ∧ r ∉ lag.missing ↔ (s.inputPin r).isSome
  output : ∀ r, (t.outputPin r).isSome = (s.outputPin r).isSome
  connection : ∀ (k : Int) c, c ∉ lag.taken →
    (t.m_connections[k]? = some c ↔ s.m_connections[k]? = some c)
  taken : ∀ c ∈ lag.taken, s.nextConn ≤ c
  conns : ∀ c, c < s.nextConn → t.conns c = s.conns c
  next : s.nextConn ≤ t.nextConn
  gone : ∀ p, ¬ s.IsChild p → (s.elems p).m_id ≠ -1 → p ∈ lag.gone

theorem Mirrors.extends (hs : Mirrors (.none s.m_pipeline) s) (hinv : s.m_pipeline.Inv)
    (ht : Extends lag s.m_pipeline t) : Mirrors lag { s with m_pipeline := t } := by
  have hconnection {c : ConnPtr} (hc : c ∉ lag.taken) :
      t.HasConnection c ↔ s.m_pipeline.HasConnection c :=
    exists_congr fun k => ht.connection k c hc
  constructor
  case elements =>
    intro p
    rw [ht.child, hs.elements p]
    exact and_iff_left (Set.notMem_empty p)
  case lines =>
    intro c hc
    rw [hconnection hc]
    exact hs.lines c (Set.notMem_empty c)
  case fitted =>
    constructor
    case widget =>
      intro p hchild hp
      exact hs.fitted.widget p ((ht.child p).mp ⟨hchild, hp⟩) (Set.notMem_empty p)
    case unknown =>
      intro p hp
      rw [← Option.not_isSome_iff_eq_none]
      exact fun hsome => hs.fitted.named p hsome (ht.pending p hp)
    case named => exact fun p hp => ht.named p (hs.fitted.named p hp)
    case inputs =>
      intro p w hw i
      rw [ht.input, hs.fitted.inputs p w hw i]
      exact and_iff_left (Set.notMem_empty _)
    case outputs =>
      intro p w hw i
      rw [ht.output]
      exact hs.fitted.outputs p w hw i
    case pins => exact hs.fitted.pins
  case wired =>
    constructor
    case drawn =>
      intro k c out inp hc hk hconn
      have hold := (ht.connection k c hc).mp hk
      rw [ht.conns c (hinv.allocated k c hold)] at hconn
      obtain ⟨hsource, htarget⟩ :=
        hs.wired.drawn k c out inp (Set.notMem_empty c) hold hconn
      exact ⟨hsource, htarget⟩
    case untaken =>
      intro c hc
      rw [← Option.not_isSome_iff_eq_none]
      exact fun hsome => Nat.not_lt.mpr (ht.taken c hc) (hs.wired.known c hsome)
    case listed => exact hs.wired.listed
    case left =>
      intro c line hline hgone
      have hlt := hs.wired.known c (Option.isSome_of_eq_some hline)
      have hc : c ∉ lag.taken := fun hmem => Nat.not_lt.mpr (ht.taken c hmem) hlt
      obtain ⟨hproducer, out, inp, ⟨q, hq, hends, hpin⟩, hsource, htarget, hout⟩ :=
        hs.wired.left c line hline fun hold => hgone ((hconnection hc).mpr hold)
      refine ⟨?_, out, inp, ⟨q, hq, hends, ?_⟩, hsource, htarget, ?_⟩
      · change (t.conns c).m_producer = none
        rw [ht.conns c hlt]
        exact hproducer
      · change s.pinWidgets q = ⟨inp, (t.elems inp.owner).isTCPServer⟩
        rw [ht.tcp]
        exact hpin
      · exact hout.imp (fun hmem => ht.gone _ hmem (hs.fitted.named _ hsource))
          fun hmem => ht.gone _ hmem (hs.fitted.named _ htarget)
    case known => exact fun c hc => Nat.lt_of_lt_of_le (hs.wired.known c hc) ht.next

theorem addElement_extends {s : Pipeline} (hinv : s.Inv) {p : ElemPtr}
    (hp : (s.elems p).m_id = -1) :
    Extends ⟨{q | ¬ (s.addElement p).IsChild q}, {p}, ∅, ∅⟩ s (s.addElement p) := by
  have hadd : s.canAddElement p = true := by simp [Pipeline.canAddElement, hp]
  have hchild (q : ElemPtr) : (s.addElement p).IsChild q ↔ q = p ∨ s.IsChild q := by
    have hread (k : Int) : (s.addElement p).m_children[k]? =
        if k = s.idFor p then some p else s.m_children[k]? :=
      QMap.getElem?_insert s.m_children (s.idFor p) k p
    constructor
    · rintro ⟨k, hk⟩
      rw [hread] at hk
      split at hk
      · exact .inl (Option.some.inj hk).symm
      · exact .inr ⟨k, hk⟩
    · rintro (rfl | ⟨k, hk⟩)
      · exact ⟨s.idFor q, by rw [hread, if_pos rfl]⟩
      · refine ⟨k, ?_⟩
        rw [hread, if_neg, hk]
        rintro rfl
        rw [Pipeline.idFor_free hadd] at hk
        cases hk
  have hpin (r : PinRef) : (s.addElement p).inputPin r = s.inputPin r ∧
      (s.addElement p).outputPin r = s.outputPin r := by
    by_cases hr : r.owner = p <;>
      simp [Pipeline.inputPin, Pipeline.outputPin, Pipeline.addElement, hr]
  constructor
  case child =>
    intro q
    rw [hchild]
    constructor
    · rintro ⟨he | hq, hne⟩
      · exact absurd he hne
      · exact hq
    · rintro ⟨k, hk⟩
      refine ⟨.inr ⟨k, hk⟩, ?_⟩
      rintro rfl
      exact hinv.not_child hadd k hk
  case pending =>
    rintro q rfl
    exact hp
  case named =>
    intro q hq
    have hne : q ≠ p := by
      rintro rfl
      exact hq hp
    simpa [Pipeline.addElement, hne] using hq
  case tcp =>
    intro q
    by_cases hq : q = p <;> simp [Pipeline.addElement, hq]
  case input =>
    intro r
    rw [(hpin r).1]
    exact and_iff_left (Set.notMem_empty r)
  case output => exact fun r => congrArg Option.isSome (hpin r).2
  case connection => exact fun _ _ _ => Iff.rfl
  case taken => exact fun c hc => absurd hc (Set.notMem_empty c)
  case conns => exact fun _ _ => rfl
  case next => exact Nat.le_refl _
  case gone =>
    intro q hq hid hmem
    obtain rfl | hold := (hchild q).mp hmem
    · exact hid hp
    · exact hq hold

theorem Mirrors.dropEvent (hs : Mirrors (.none s.m_pipeline) s) (hinv : s.m_pipeline.Inv)
    {p : ElemPtr} (hp : (s.m_pipeline.elems p).m_id = -1) :
    ∃ t, s.dropEvent h p = some t ∧ t.m_pipeline.Inv ∧ Mirrors (.none t.m_pipeline) t := by
  unfold PipelineScene.dropEvent
  split
  · exact ⟨s, rfl, hinv, hs⟩
  have hadd : s.m_pipeline.canAddElement p = true := by simp [Pipeline.canAddElement, hp]
  have hext := addElement_extends hinv hp
  have hinv' := hinv.addElement hadd
  have hchild : (s.m_pipeline.addElement p).IsChild p :=
    ⟨s.m_pipeline.idFor p, by
      exact (QMap.getElem?_insert s.m_pipeline.m_children (s.m_pipeline.idFor p) _ p).trans
        (if_pos rfl)⟩
  obtain ⟨t, ht, hpipeline, -, hmirrors⟩ :=
    (hs.extends hinv hext).addElement (h := h) hinv' rfl (Set.mem_singleton p) hchild
  refine ⟨t, ht, hpipeline ▸ hinv', ?_⟩
  rw [hpipeline]
  have hnone : ({p} : Set ElemPtr) \ {p} = ∅ := Set.sdiff_self
  rw [hnone] at hmirrors
  exact hmirrors

section Connecting
variable {s : Pipeline} {out inp : PinRef} {o : OutputPin} {i i' : InputPin}

/-- The elements, their ids and the pins they have are the same. -/
theorem extends_of_same {t : Pipeline} (hchildren : t.m_children = s.m_children)
    (hheader : ∀ p, t.header p = s.header p)
    (hinput : ∀ r, (t.inputPin r).isSome = (s.inputPin r).isSome)
    (houtput : ∀ r, (t.outputPin r).isSome = (s.outputPin r).isSome)
    (hconnections : t.m_connections = s.m_connections)
    (hconns : ∀ c, c < s.nextConn → t.conns c = s.conns c) (hnext : s.nextConn ≤ t.nextConn) :
    Extends (.none t) s t where
  child p := by
    rw [Pipeline.IsChild, hchildren]
    exact and_iff_left (Set.notMem_empty p)
  pending p hp := absurd hp (Set.notMem_empty p)
  named p hp := by
    rw [Pipeline.id_of_header (hheader p)]
    exact hp
  tcp p := Pipeline.tcp_of_header (hheader p)
  input r := by
    rw [hinput]
    exact and_iff_left (Set.notMem_empty r)
  output := houtput
  connection k c _ := by rw [hconnections]
  taken c hc := absurd hc (Set.notMem_empty c)
  conns := hconns
  next := hnext
  gone p hp _ := by
    change ¬ t.IsChild p
    rw [Pipeline.IsChild, hchildren]
    exact hp

/-- A pin is given its type. -/
theorem setInputPin_extends (hi : s.inputPin inp = some i) :
    Extends (.none (s.setInputPin inp i')) s (s.setInputPin inp i') := by
  refine extends_of_same rfl (fun p => Pipeline.header_setInputPin s inp p i') (fun r => ?_)
    (fun r => ?_) rfl (fun _ _ => rfl) (Nat.le_refl _)
  · rw [Pipeline.inputPin_setInputPin]
    split
    case isTrue hr => rw [hr, hi]; rfl
    case isFalse => rfl
  · rw [Pipeline.outputPin_setInputPin]

def connectedLag (s t : Pipeline) (inp : PinRef) : Lag where
  gone := {p | ¬ t.IsChild p}
  pending := ∅
  taken := {s.nextConn}
  missing := {r | (s.elems inp.owner).isTCPServer = true ∧
    r = ⟨inp.owner, (s.elems inp.owner).getNextInputPinId⟩}

/-- The pins after a connection, with the one that a TCPServerProcessor adds. -/
theorem connected_input (hi : s.inputPin inp = some i) (r : PinRef) :
    ((s.connected out inp o i').inputPin r).isSome = ((s.inputPin r).isSome ||
      ((s.elems inp.owner).isTCPServer &&
        decide (r = ⟨inp.owner, (s.elems inp.owner).getNextInputPinId⟩))) := by
  obtain ⟨htcp, hread⟩ | ⟨htcp, m, n, hn, hm, hread⟩ := s.inputPins_connected out inp o i'
  · rw [hread]
    split
    case isTrue hr => simp [hr, hi]
    case isFalse => simp [htcp]
  · obtain rfl : n = (s.elems inp.owner).getNextInputPinId := by
      rw [hn]
      refine countUp_congr fun j => ?_
      rw [hm, Std.ExtTreeMap.mem_iff_isSome_getElem?]
      change _ ↔ (s.inputPin ⟨inp.owner, j⟩).isSome
      rw [← Option.isSome_iff_ne_none, or_iff_right_iff_imp]
      rintro rfl
      exact Option.isSome_of_eq_some hi
    rw [hread]
    by_cases hr : r = ⟨inp.owner, (s.elems inp.owner).getNextInputPinId⟩
    · simp [hr, htcp]
    · rw [if_neg hr]
      split
      case isTrue hr' => simp [hr', hi]
      case isFalse => simp [hr]

theorem connected_extends (ho : s.outputPin out = some o) (hi : s.inputPin inp = some i)
    (hag : i.agreeOnType isRegistered o = some i') :
    Extends (connectedLag s (s.connected out inp o i') inp) s (s.connected out inp o i') := by
  have hchild (p : ElemPtr) : (s.connected out inp o i').IsChild p ↔ s.IsChild p := by
    unfold Pipeline.IsChild
    rw [Pipeline.connected_children]
  have hheader := s.header_connected out inp o i'
  constructor
  case child =>
    intro p
    rw [hchild]
    exact and_iff_left (Set.notMem_empty p)
  case pending => exact fun p hp => absurd hp (Set.notMem_empty p)
  case named =>
    intro p hp
    rw [Pipeline.id_of_header (hheader p)]
    exact hp
  case tcp => exact fun p => Pipeline.tcp_of_header (hheader p)
  case input =>
    intro r
    rw [connected_input hi]
    have hfree : s.inputPin ⟨inp.owner, (s.elems inp.owner).getNextInputPinId⟩ = none :=
      Std.ExtTreeMap.getElem?_eq_none (countUp_size_notMem _)
    change _ ∧ ¬ (_ ∧ _) ↔ _
    by_cases hr : r = ⟨inp.owner, (s.elems inp.owner).getNextInputPinId⟩
    · cases htcp : (s.elems inp.owner).isTCPServer <;> simp [hr, hfree]
    · simp [hr]
  case output =>
    intro r
    have hkeeps : Pipeline.Keeps isRegistered s (s.connected out inp o i') :=
      Pipeline.connected_keeps ho hi hag
    simpa using congrArg Option.isSome (hkeeps.build.output r)
  case connection =>
    intro k c hc
    rw [Pipeline.connected_connections]
    split
    case isTrue hk =>
      subst k
      refine iff_of_false (fun he => hc (Option.some.inj he).symm) ?_
      rw [s.getNewPinConnectionId_free]
      intro hnone
      cases hnone
    case isFalse => exact Iff.rfl
  case taken =>
    rintro c rfl
    exact Nat.le_refl _
  case conns =>
    intro c hc
    rw [Pipeline.connected_conns]
    exact Function.update_of_ne (Nat.ne_of_lt hc) ..
  case next =>
    have hnext : (s.connected out inp o i').nextConn = s.nextConn + 1 := by
      unfold Pipeline.connected Pipeline.onInputConnectionSet
      split <;> rfl
    rw [hnext]
    exact Nat.le_succ _
  case gone => exact fun p hp _ hmem => hp ((hchild p).mp hmem)

end Connecting

section Connect
variable {out inp : PinRef} {o : OutputPin} {i i' : InputPin}

def showConnected (s : PipelineScene) (t : Pipeline) (inp : PinRef) : Option PipelineScene :=
  let s' := { s with m_pipeline := t }
  if (s.m_pipeline.elems inp.owner).isTCPServer then
    (s'.inputPinAdded inp.owner (s.m_pipeline.elems inp.owner).getNextInputPinId).addConnection
      s.m_pipeline.nextConn
  else s'.addConnection s.m_pipeline.nextConn

/-- The widget of a TCPServerProcessor gets its new pin first. -/
theorem Mirrors.inputPinAdded {t : Pipeline}
    (hs : Mirrors (connectedLag s.m_pipeline t inp) { s with m_pipeline := t })
    (hinput : (t.inputPin ⟨inp.owner, (s.m_pipeline.elems inp.owner).getNextInputPinId⟩).isSome)
    (htcp : (s.m_pipeline.elems inp.owner).isTCPServer = true)
    (hsink : t.IsChild inp.owner) : ∃ u, { s with m_pipeline := t }.inputPinAdded inp.owner
        (s.m_pipeline.elems inp.owner).getNextInputPinId = u ∧
      u.m_pipeline = t ∧
      Mirrors { connectedLag s.m_pipeline t inp with missing := ∅ } u := by
  have hwidget := hs.fitted.widget inp.owner hsink (Set.notMem_empty _)
  have hadds := addInputPin_adds inp.owner { s with m_pipeline := t }
    (s.m_pipeline.elems inp.owner).getNextInputPinId
  refine ⟨_, rfl, ?_⟩
  unfold PipelineScene.inputPinAdded
  rw [if_pos hwidget]
  refine ⟨hadds.pipeline, hs.addsPins hadds ?_ ?_ hwidget⟩
  · ext r
    change _ ∧ _ ↔ _ ∧ _
    rw [List.mem_singleton]
    constructor
    · rintro ⟨-, rfl⟩
      exact ⟨rfl, rfl⟩
    · rintro ⟨howner, hid⟩
      refine ⟨htcp, ?_⟩
      cases r
      simp_all
  · intro i hi
    rw [List.mem_singleton.mp hi]
    exact hinput

theorem Mirrors.showConnected (hs : Mirrors (.none s.m_pipeline) s) (hinv : s.m_pipeline.Inv)
    (ho : s.m_pipeline.outputPin out = some o) (hi : s.m_pipeline.inputPin inp = some i)
    (hag : i.agreeOnType isRegistered o = some i')
    (hinv' : (s.m_pipeline.connected out inp o i').Inv) :
    ∃ t, s.showConnected (s.m_pipeline.connected out inp o i') inp = some t ∧
      t.m_pipeline = s.m_pipeline.connected out inp o i' ∧ Mirrors (.none t.m_pipeline) t := by
  obtain ⟨t, ht⟩ : ∃ t, s.m_pipeline.connected out inp o i' = t := ⟨_, rfl⟩
  have hext : Extends (connectedLag s.m_pipeline t inp) s.m_pipeline t :=
    ht ▸ connected_extends ho hi hag
  have hmirrors := hs.extends hinv hext
  have hk : t.m_connections[s.m_pipeline.getNewPinConnectionId]? = some s.m_pipeline.nextConn := by
    rw [← ht, Pipeline.connected_connections, if_pos rfl]
  have hconn : t.conns s.m_pipeline.nextConn =
      ⟨s.m_pipeline.getNewPinConnectionId, some out, some inp⟩ := by
    rw [← ht, Pipeline.connected_conns]
    exact Function.update_self ..
  rw [ht] at hinv' ⊢
  obtain ⟨out', inp', hl⟩ := hinv'.linked _ _ hk
  have hends := hconn.symm.trans hl.conn
  cases hends
  have hdone {u : PipelineScene} (hu : u.m_pipeline = t)
      (hmirrors : Mirrors { connectedLag s.m_pipeline t inp with missing := ∅ } u) :
      ∃ v, u.addConnection s.m_pipeline.nextConn = some v ∧ v.m_pipeline = t ∧
        Mirrors (.none v.m_pipeline) v := by
    obtain ⟨v, hv, hpipeline, -, hshown⟩ := hmirrors.addConnection (hu.symm ▸ hinv') rfl
      (Set.mem_singleton _) (hu.symm ▸ hk) (hu.symm ▸ hl) (Set.notMem_empty _)
      (Set.notMem_empty _)
    refine ⟨v, hv, hpipeline.trans hu, ?_⟩
    rw [hpipeline, hu]
    have hlag : (⟨{p | ¬ t.IsChild p}, ∅, {s.m_pipeline.nextConn} \ {s.m_pipeline.nextConn},
        ∅⟩ : Lag) = .none t := by
      rw [Set.sdiff_self]
      rfl
    rw [← hlag]
    exact hshown
  unfold PipelineScene.showConnected
  cases htcp : (s.m_pipeline.elems inp.owner).isTCPServer with
  | true =>
    have hinput : (t.inputPin
        ⟨inp.owner, (s.m_pipeline.elems inp.owner).getNextInputPinId⟩).isSome := by
      rw [← ht, connected_input hi]
      simp [htcp]
    obtain ⟨u, hu, hpipeline, hshown⟩ := hmirrors.inputPinAdded hinput htcp hl.sink
    obtain ⟨v, hv, hdone⟩ := hdone hpipeline hshown
    exact ⟨v, by simpa [hu] using hv, hdone⟩
  | false =>
    have hnone : (connectedLag s.m_pipeline t inp).missing = ∅ := by
      ext r
      simp [connectedLag, htcp]
    obtain ⟨v, hv, hdone⟩ := hdone (u := { s with m_pipeline := t }) rfl
      (by rw [← hnone]; exact hmirrors)
    exact ⟨v, by simpa using hv, hdone⟩

theorem Mirrors.connectPins (hs : Mirrors (.none s.m_pipeline) s) (hinv : s.m_pipeline.Inv)
    (ho : s.m_pipeline.outputPin out = some o) (hi : s.m_pipeline.inputPin inp = some i)
    (hsrc : s.m_pipeline.IsChild out.owner) (hsink : s.m_pipeline.IsChild inp.owner) :
    ∃ t, s.connectPins isRegistered out inp = some t ∧ t.m_pipeline.Inv ∧
      Mirrors (.none t.m_pipeline) t := by
  obtain ⟨e, he⟩ | ⟨hne, hun, i', hag, he⟩ := Pipeline.connectPins_cases isRegistered ho hi
  · let t := s.m_pipeline.newConnection s.m_pipeline.getNewPinConnectionId out inp
    refine ⟨{ s with m_pipeline := t }, by simp [PipelineScene.connectPins, he, t],
      hinv.newConnection _ out inp, ?_⟩
    refine hs.extends hinv (extends_of_same rfl (fun _ => rfl) (fun _ => rfl) (fun _ => rfl) rfl
      (fun c hc => ?_) (Nat.le_succ _))
    exact Function.update_of_ne (Nat.ne_of_lt hc) ..
  · have hinv' := hinv.connected ho hi hne hun hag hsrc hsink
    obtain ⟨t, ht, hpipeline, hmirrors⟩ := hs.showConnected hinv ho hi hag hinv'
    refine ⟨t, ?_, hpipeline ▸ hinv', hmirrors⟩
    rw [← ht]
    simp [PipelineScene.connectPins, he, PipelineScene.showConnected]

/-- Pins that have widgets in the scene are pins of elements of the pipeline. -/
theorem Mirrors.canClick (hs : Mirrors (.none s.m_pipeline) s) (hclick : s.CanClick out inp) :
    (∃ o, s.m_pipeline.outputPin out = some o) ∧ (∃ i, s.m_pipeline.inputPin inp = some i) ∧
      s.m_pipeline.IsChild out.owner ∧ s.m_pipeline.IsChild inp.owner := by
  obtain ⟨w, hw, hout⟩ := hclick.output
  obtain ⟨w', hw', hinp⟩ := hclick.input
  refine ⟨Option.isSome_iff_exists.mp ((hs.fitted.outputs _ w hw out.id).mp hout),
    Option.isSome_iff_exists.mp ((hs.fitted.inputs _ w' hw' inp.id).mp hinp).1,
    ((hs.elements _).mp hclick.source).1, ((hs.elements _).mp hclick.target).1⟩

theorem Mirrors.handleConnectionCreation (hs : Mirrors (.none s.m_pipeline) s)
    (hinv : s.m_pipeline.Inv) (hclick : s.CanClick out inp) :
    ∃ t, s.handleConnectionCreation isRegistered out inp = some t ∧ t.m_pipeline.Inv ∧
      Mirrors (.none t.m_pipeline) t := by
  unfold PipelineScene.handleConnectionCreation
  split
  · exact ⟨s, rfl, hinv, hs⟩
  obtain ⟨⟨o, ho⟩, ⟨i, hi⟩, hsrc, hsink⟩ := hs.canClick hclick
  by_cases hobject : inp.owner = out.owner ∨ i.m_connection ≠ none ∨
      i.agreeOnType isRegistered o = none
  · rw [Pipeline.canConnectPins_error ho hi hobject]
    exact ⟨s, rfl, hinv, hs⟩
  · simp only [not_or, not_not] at hobject
    obtain ⟨hne, hun, hag⟩ := hobject
    obtain ⟨i', hag⟩ := Option.ne_none_iff_exists'.mp hag
    obtain ⟨hpin, -⟩ := Pipeline.agreeOnType_some hag
    obtain ⟨hun', -⟩ := Pipeline.agreeOnType_again hun hag
    obtain ⟨hid, hkind⟩ := hinv.input_pin inp i hi
    have hinv' : (s.m_pipeline.setInputPin inp i').Inv := by
      refine hinv.setInputPin (fun j hj => ?_) ?_ hkind hun'
      · rw [hi] at hj
        cases hj
        exact hun
      · rw [hpin]
        exact hid
    have ho' : (s.m_pipeline.setInputPin inp i').outputPin out = some o :=
      (Pipeline.outputPin_setInputPin ..).trans ho
    have hi' : (s.m_pipeline.setInputPin inp i').inputPin inp = some i' :=
      (Pipeline.inputPin_setInputPin ..).trans (if_pos rfl)
    rw [Pipeline.canConnectPins_ok ho hi hne hun hag]
    exact (hs.extends hinv (setInputPin_extends hi)).connectPins hinv' ho' hi' hsrc hsink

/-- What connecting pins adds to a scene takes nothing away from it. -/
structure Grows (s t : PipelineScene) : Prop where
  items : s.items ⊆ t.items
  widgets : ∀ p w, s.elementWidgets p = some w → ∃ w', t.elementWidgets p = some w' ∧
    w'.outputPinWidgets = w.outputPinWidgets ∧ ∀ i ∈ w.inputPinWidgets, i ∈ w'.inputPinWidgets

theorem Grows.refl (s : PipelineScene) : Grows s s :=
  ⟨Finset.Subset.refl _, fun _ w hw => ⟨w, hw, rfl, fun _ => id⟩⟩

theorem Grows.trans {s t u : PipelineScene} (h : Grows s t) (h' : Grows t u) : Grows s u := by
  refine ⟨h.items.trans h'.items, fun p w hw => ?_⟩
  obtain ⟨w', hw', hout, hin⟩ := h.widgets p w hw
  obtain ⟨w'', hw'', hout', hin'⟩ := h'.widgets p w' hw'
  exact ⟨w'', hw'', hout'.trans hout, fun i hi => hin' i (hin i hi)⟩

theorem Grows.canClick {s t : PipelineScene} (h : Grows s t) (hclick : s.CanClick out inp) :
    t.CanClick out inp := by
  obtain ⟨w, hw, hout⟩ := hclick.output
  obtain ⟨w', hw', hinp⟩ := hclick.input
  obtain ⟨v, hv, hsame, -⟩ := h.widgets _ w hw
  obtain ⟨v', hv', -, hmore⟩ := h.widgets _ w' hw'
  exact ⟨h.items hclick.source, h.items hclick.target, ⟨v, hv, hsame ▸ hout⟩,
    ⟨v', hv', hmore _ hinp⟩⟩

theorem modifyWidget_grows (s : PipelineScene) (p : ElemPtr)
    {f : PipelineElementWidget → PipelineElementWidget}
    (hout : ∀ w, (f w).outputPinWidgets = w.outputPinWidgets)
    (hin : ∀ w, ∀ i ∈ w.inputPinWidgets, i ∈ (f w).inputPinWidgets) :
    Grows s (s.modifyWidget p f) := by
  refine ⟨Finset.Subset.refl _, fun q w hw => ?_⟩
  by_cases hq : q = p
  · subst q
    exact ⟨f w, by simp [modifyWidget, hw], hout w, hin w⟩
  · exact ⟨w, by simpa [modifyWidget, hq] using hw, rfl, fun _ => id⟩

theorem inputPinAdded_grows (s : PipelineScene) (p : ElemPtr) (id : Int) :
    Grows s (s.inputPinAdded p id) := by
  unfold inputPinAdded
  split
  · have hgrows := s.modifyWidget_grows p
      (f := fun w => { w with inputPinWidgets := w.inputPinWidgets.insert id s.nextPinWidget })
      (fun _ => rfl) fun w i hi => Std.ExtTreeMap.mem_insert.mpr (.inr hi)
    exact ⟨hgrows.items, hgrows.widgets⟩
  · exact .refl s

theorem addLine_grows (s : PipelineScene) (p : ElemPtr) (c : ConnPtr) : Grows s (s.addLine p c) :=
  s.modifyWidget_grows p (fun _ => rfl) fun _ _ => id

theorem addConnection_grows {s t : PipelineScene} {c : ConnPtr} (h : s.addConnection c = some t) :
    Grows s t := by
  unfold addConnection at h
  split at h
  case h_2 => cases h
  split at h
  case h_2 => cases h
  dsimp only at h
  split at h
  case isTrue => cases h
  cases Option.some.inj h
  refine Grows.trans ?_ ((addLine_grows ..).trans (addLine_grows ..))
  exact ⟨Finset.subset_insert .., fun _ w hw => ⟨w, hw, rfl, fun _ => id⟩⟩

theorem connectPins_grows {s t : PipelineScene}
    (h : s.connectPins isRegistered out inp = some t) : Grows s t := by
  have hsame (pipeline : Pipeline) : Grows s { s with m_pipeline := pipeline } :=
    ⟨Finset.Subset.refl _, fun _ w hw => ⟨w, hw, rfl, fun _ => id⟩⟩
  unfold PipelineScene.connectPins at h
  split at h
  case h_1 => cases h
  case h_2 pipeline _ _ =>
    cases Option.some.inj h
    exact hsame pipeline
  case h_3 pipeline _ _ =>
    dsimp only at h
    split at h
    case isTrue =>
      exact (hsame pipeline).trans ((inputPinAdded_grows ..).trans (addConnection_grows h))
    case isFalse => exact (hsame pipeline).trans (addConnection_grows h)

theorem handleConnectionCreation_grows {s t : PipelineScene}
    (h : s.handleConnectionCreation isRegistered out inp = some t) : Grows s t := by
  have hsame (pipeline : Pipeline) : Grows s { s with m_pipeline := pipeline } :=
    ⟨Finset.Subset.refl _, fun _ w hw => ⟨w, hw, rfl, fun _ => id⟩⟩
  unfold PipelineScene.handleConnectionCreation at h
  split at h
  case isTrue =>
    cases Option.some.inj h
    exact .refl s
  split at h
  case h_1 => cases h
  case h_2 pipeline _ =>
    cases Option.some.inj h
    exact hsame pipeline
  case h_3 pipeline _ => exact (hsame pipeline).trans (connectPins_grows h)

/-- The line is let go over one pin widget after the other. -/
theorem Mirrors.createEach (hs : Mirrors (.none s.m_pipeline) s) (hinv : s.m_pipeline.Inv)
    {targets : List PinRef} (hclick : ∀ inp ∈ targets, s.CanClick out inp) :
    ∃ t, targets.foldlM (fun s inp => s.handleConnectionCreation isRegistered out inp) s = some t ∧
      t.m_pipeline.Inv ∧ Mirrors (.none t.m_pipeline) t := by
  induction targets generalizing s with
  | nil => exact ⟨s, rfl, hinv, hs⟩
  | cons inp targets ih =>
    obtain ⟨u, hu, hinv', hs'⟩ : ∃ u, s.handleConnectionCreation isRegistered out inp = some u ∧
        u.m_pipeline.Inv ∧ Mirrors (.none u.m_pipeline) u :=
      hs.handleConnectionCreation hinv (hclick inp List.mem_cons_self)
    have hgrows := handleConnectionCreation_grows hu
    obtain ⟨t, ht, hdone⟩ := ih hs' hinv' fun inp' hinp' =>
      hgrows.canClick (hclick inp' (List.mem_cons_of_mem _ hinp'))
    exact ⟨t, by simp [hu, ht], hdone⟩

theorem Mirrors.mouseReleaseEvent (hs : Mirrors (.none s.m_pipeline) s) (hinv : s.m_pipeline.Inv)
    {targets : List PinRef}
    (hclick : ∀ out, s.line = some out → ∀ inp ∈ targets, s.CanClick out inp) :
    ∃ t, s.mouseReleaseEvent isRegistered targets = some t ∧ t.m_pipeline.Inv ∧
      Mirrors (.none t.m_pipeline) t := by
  unfold PipelineScene.mouseReleaseEvent
  split
  case h_1 => exact ⟨s, rfl, hinv, hs⟩
  case h_2 out hline =>
    have heach : ∃ t, targets.foldlM (fun s inp => s.handleConnectionCreation isRegistered out inp) s
        = some t ∧ t.m_pipeline.Inv ∧ Mirrors (.none t.m_pipeline) t :=
      hs.createEach hinv (hclick out hline)
    obtain ⟨t, ht, hinv', hs'⟩ := heach
    exact ⟨{ t with line := none }, by simp [ht], hinv', hs'.aside t.isRunning none⟩

end Connect

end PipelineScene

end ParleVision.Gui
