import ParleVision.Gui.Adding

namespace ParleVision.Graph
open Lib

namespace Pipeline

variable {s t : Pipeline} {k : Int} {c : ConnPtr} {inp : PinRef}

theorem Unlinks.isChild (h : s.Unlinks t k c inp) (p : ElemPtr) : t.IsChild p ↔ s.IsChild p := by
  unfold IsChild
  rw [h.children]

/-- No other connection goes. -/
theorem Unlinks.connection (h : s.Unlinks t k c inp) (hinv : s.Inv)
    (hk : s.m_connections[k]? = some c) (k' : Int) (c' : ConnPtr) :
    t.m_connections[k']? = some c' ↔ s.m_connections[k']? = some c' ∧ c' ≠ c := by
  rw [h.connections, QMap.getElem?_erase]
  split
  case isTrue he =>
    subst k'
    refine iff_of_false (fun hnone => ?_) ?_
    · cases hnone
    · rintro ⟨hc, hne⟩
      rw [hk] at hc
      exact hne (Option.some.inj hc).symm
  case isFalse hne =>
    refine (and_iff_left_of_imp fun hc => ?_).symm
    rintro rfl
    exact hne (hinv.connection_unique hk hc)

theorem Unlinks.hasConnection (h : s.Unlinks t k c inp) (hinv : s.Inv)
    (hk : s.m_connections[k]? = some c) (c' : ConnPtr) :
    t.HasConnection c' ↔ s.HasConnection c' ∧ c' ≠ c := by
  unfold HasConnection
  simp only [h.connection hinv hk, exists_and_right]

/-- Two connections do not end at the same pin. -/
theorem Inv.consumer_unique (hinv : s.Inv) {k' : Int} {c' : ConnPtr} {out out' : PinRef}
    (hl : s.Linked k c out inp) (hk' : s.m_connections[k']? = some c')
    (hconn : s.conns c' = ⟨k', some out', some inp⟩) : c' = c := by
  obtain ⟨-, i, -, -, hi, hic, -⟩ := hl.pins
  obtain ⟨out'', inp'', hl'⟩ := hinv.linked k' c' hk'
  have hends := hconn.symm.trans hl'.conn
  cases hends
  obtain ⟨-, i', -, -, hi', hic', -⟩ := hl'.pins
  rw [hi] at hi'
  cases hi'
  exact Option.some.inj (hic'.symm.trans hic)

end Pipeline

end ParleVision.Graph

namespace ParleVision.Gui
open Lib ParleVision.Graph

namespace PipelineScene

structure RemovesPin (inp : PinRef) (q : PinWidgetPtr) (removed : Bool) (s t : PipelineScene) :
    Prop where
  connectionLines : t.connectionLines = s.connectionLines
  next : t.nextPinWidget = s.nextPinWidget
  widgets : ∀ p, t.elementWidgets p = (s.elementWidgets p).map fun w =>
    if removed = true ∧ p = inp.owner then
      { w with inputPinWidgets := w.inputPinWidgets.erase inp.id } else w
  pins : ∀ q', t.pinWidgets q' = if removed = true ∧ q' = q then ⟨inp, true⟩ else s.pinWidgets q'

section Unlinking
variable {s t : PipelineScene} {lag : Lag} {k : Int} {c : ConnPtr} {out inp : PinRef}
  {q : PinWidgetPtr} {removed : Bool}

theorem RemovesPin.widget (h : RemovesPin inp q removed s t) {p : ElemPtr}
    {w : PipelineElementWidget} (hw : s.elementWidgets p = some w) :
    t.elementWidgets p = some (if removed = true ∧ p = inp.owner then
      { w with inputPinWidgets := w.inputPinWidgets.erase inp.id } else w) := by
  rw [h.widgets, hw]
  rfl

theorem RemovesPin.isSome (h : RemovesPin inp q removed s t) (p : ElemPtr) :
    (t.elementWidgets p).isSome = (s.elementWidgets p).isSome := by
  rw [h.widgets, Option.isSome_map]

theorem RemovesPin.of_widget (h : RemovesPin inp q removed s t) {p : ElemPtr}
    {w' : PipelineElementWidget} (hw' : t.elementWidgets p = some w') :
    ∃ w, s.elementWidgets p = some w ∧ w'.lines = w.lines ∧
      w'.outputPinWidgets = w.outputPinWidgets ∧ ∀ i : Int, w'.inputPinWidgets[i]? =
        if removed = true ∧ (⟨p, i⟩ : PinRef) = inp then none else w.inputPinWidgets[i]? := by
  rw [h.widgets] at hw'
  obtain ⟨w, hw, rfl⟩ := Option.map_eq_some_iff.mp hw'
  refine ⟨w, hw, ?_⟩
  by_cases hp : removed = true ∧ p = inp.owner
  · rw [if_pos hp]
    refine ⟨rfl, rfl, fun i => ?_⟩
    obtain ⟨hremoved, rfl⟩ := hp
    rw [QMap.getElem?_erase]
    cases inp
    simp [hremoved]
  · rw [if_neg hp]
    refine ⟨rfl, rfl, fun i => ?_⟩
    rw [if_neg]
    rintro ⟨hremoved, rfl⟩
    exact hp ⟨hremoved, rfl⟩

/-- The pin of the connection has a widget. -/
theorem Mirrors.pinWidget (hs : Mirrors lag s) (hpending : lag.pending = ∅)
    (hmissing : lag.missing = ∅) (hl : s.m_pipeline.Linked k c out inp) :
    ∃ w q, s.elementWidgets inp.owner = some w ∧ w.inputPinWidgets[inp.id]? = some q := by
  obtain ⟨-, i, -, -, hi, -⟩ := hl.pins
  have hp : inp.owner ∉ lag.pending := by
    rw [hpending]
    exact Set.notMem_empty _
  obtain ⟨w, hw⟩ := Option.isSome_iff_exists.mp (hs.fitted.widget _ hl.sink hp)
  have hmem : inp.id ∈ w.inputPinWidgets := by
    rw [hs.fitted.inputs _ w hw inp.id, hmissing]
    exact ⟨Option.isSome_of_eq_some hi, Set.notMem_empty _⟩
  rw [Std.ExtTreeMap.mem_iff_isSome_getElem?] at hmem
  obtain ⟨q, hq⟩ := Option.isSome_iff_exists.mp hmem
  exact ⟨w, q, hw, hq⟩

/-- The slot of a TCPServerProcessor's widget runs, or nothing does. -/
theorem disconnect_removes {p : Pipeline} {w : PipelineElementWidget}
    (hconn : s.m_pipeline.conns c = ⟨k, some out, some inp⟩)
    (hp : s.m_pipeline.disconnect c = some p) (hw : s.elementWidgets inp.owner = some w)
    (hq : w.inputPinWidgets[inp.id]? = some q) (hpin : s.pinWidgets q = ⟨inp, false⟩) :
    ∃ t, s.disconnect c = some t ∧ t.m_pipeline = p ∧ t.isRunning = s.isRunning ∧
      t.items = s.items ∧ RemovesPin inp q (s.m_pipeline.elems inp.owner).isTCPServer s t := by
  unfold PipelineScene.disconnect
  simp only [hconn, hp, Option.bind_eq_bind, Option.bind_some]
  cases htcp : (s.m_pipeline.elems inp.owner).isTCPServer with
  | false =>
    refine ⟨{ s with m_pipeline := p }, rfl, rfl, rfl, rfl, rfl, rfl, fun p' => ?_, fun q' => ?_⟩
    · simp
    · simp
  | true =>
    simp only [if_true, inputPinRemoved, hw, hq]
    refine ⟨_, rfl, rfl, rfl, rfl, rfl, rfl, fun p' => ?_, fun q' => ?_⟩
    · by_cases hp' : p' = inp.owner
      · simp [modifyWidget, hp']
      · simp [modifyWidget, hp']
    · by_cases hq' : q' = q
      · simp [hq', hpin]
      · simp [hq']

/-- The widgets after a pin was removed. -/
theorem Fitted.removesPin {p : Pipeline} (hs : Fitted ∅ ∅ s)
    (hp : s.m_pipeline.Unlinks p k c inp)
    (h : RemovesPin inp q (s.m_pipeline.elems inp.owner).isTCPServer s t)
    (hpipeline : t.m_pipeline = p) (hpin : s.pinWidgets q = ⟨inp, false⟩) : Fitted ∅ ∅ t := by
  subst p
  constructor
  case widget =>
    intro p' hchild hp'
    rw [h.isSome]
    exact hs.widget p' ((hp.isChild p').mp hchild) hp'
  case unknown => exact fun p' hp' => absurd hp' (Set.notMem_empty p')
  case named =>
    intro p' hsome
    rw [Pipeline.id_of_header (hp.header p')]
    exact hs.named p' (h.isSome p' ▸ hsome)
  case inputs =>
    intro p' w' hw' i
    obtain ⟨w, hw, -, -, hread⟩ := h.of_widget hw'
    have hold := hs.inputs p' w hw i
    rw [Std.ExtTreeMap.mem_iff_isSome_getElem?] at hold ⊢
    rw [hread, hp.input]
    by_cases hi : (⟨p', i⟩ : PinRef) = inp
    · cases htcp : (s.m_pipeline.elems inp.owner).isTCPServer
      · simpa [hi] using hold
      · simp [hi]
    · simpa [hi] using hold
  case outputs =>
    intro p' w' hw' i
    obtain ⟨w, hw, -, houtputs, -⟩ := h.of_widget hw'
    rw [houtputs, hp.output]
    exact hs.outputs p' w hw i
  case pins =>
    intro p' w' i q' hw' hq'
    obtain ⟨w, hw, -, -, hread⟩ := h.of_widget hw'
    rw [hread] at hq'
    split at hq'
    · cases hq'
    rename_i hi
    obtain ⟨hlt, halive⟩ := hs.pins p' w i q' hw hq'
    rw [h.next, h.pins, if_neg]
    · exact ⟨hlt, halive⟩
    · -- it would be the widget of the pin that was removed
      rintro ⟨hremoved, rfl⟩
      exact hi ⟨hremoved, congrArg InputPinWidget.m_inputPin (halive.symm.trans hpin)⟩

/-- The lines after a connection was disconnected: its line is left, if it was not taken. -/
theorem Wired.removesPin {gone : Set ElemPtr} {taken : Set ConnPtr} {p : Pipeline}
    (hs : Wired gone taken s) (hfitted : Fitted ∅ ∅ s) (hinv : s.m_pipeline.Inv)
    (hk : s.m_pipeline.m_connections[k]? = some c) (hl : s.m_pipeline.Linked k c out inp)
    (hp : s.m_pipeline.Unlinks p k c inp)
    (h : RemovesPin inp q (s.m_pipeline.elems inp.owner).isTCPServer s t)
    (hpipeline : t.m_pipeline = p) {w : PipelineElementWidget}
    (hw : s.elementWidgets inp.owner = some w) (hq : w.inputPinWidgets[inp.id]? = some q)
    (hgone : c ∈ taken ∨ out.owner ∈ gone ∨ inp.owner ∈ gone) : Wired gone taken t := by
  subst p
  obtain ⟨hlt, hpin⟩ := hfitted.pins _ w inp.id q hw hq
  constructor
  case drawn =>
    intro k' c' out' inp' hc' hk' hconn
    obtain ⟨hold, hne⟩ := (hp.connection hinv hk k' c').mp hk'
    rw [hp.others c' hne] at hconn
    obtain ⟨⟨v, hv, hin⟩, v', q', hv', hin', hq', hline⟩ := hs.drawn k' c' out' inp' hc' hold hconn
    have hinp : inp' ≠ inp := by
      rintro rfl
      exact hne (hinv.consumer_unique hl hold hconn)
    have hkept {p' : ElemPtr} {v : PipelineElementWidget} (hv : s.elementWidgets p' = some v) :
        ∃ v', t.elementWidgets p' = some v' ∧ v'.lines = v.lines ∧
          ∀ i : Int, (⟨p', i⟩ : PinRef) ≠ inp → v'.inputPinWidgets[i]? = v.inputPinWidgets[i]? := by
      obtain ⟨v₀, hv₀, hlines, -, hread⟩ := h.of_widget (h.widget hv)
      rw [hv] at hv₀
      cases hv₀
      exact ⟨_, h.widget hv, hlines, fun i hi => by rw [hread, if_neg fun he => hi he.2]⟩
    obtain ⟨u, hu, hlines, -⟩ := hkept hv
    obtain ⟨u', hu', hlines', hread'⟩ := hkept hv'
    refine ⟨⟨u, hu, hlines ▸ hin⟩, u', q', hu', hlines' ▸ hin', ?_, h.connectionLines ▸ hline⟩
    rw [hread' inp'.id hinp, hq']
  case untaken =>
    rw [h.connectionLines]
    exact hs.untaken
  case listed =>
    intro p' v' c' hv' hc'
    obtain ⟨v, hv, hlines, -⟩ := h.of_widget hv'
    obtain ⟨out', q', hline, hlt', howner⟩ := hs.listed p' v c' hv (hlines ▸ hc')
    refine ⟨out', q', h.connectionLines ▸ hline, h.next ▸ hlt', ?_⟩
    rw [h.pins]
    split
    case isTrue hq' =>
      rw [hq'.2, hpin] at howner
      exact howner
    case isFalse => exact howner
  case left =>
    intro c' line hline hnot
    rw [h.connectionLines] at hline
    by_cases hc' : c' = c
    · subst c'
      have hdrawn := hs.drawn k c out inp (fun hmem => by
        rw [hs.untaken c hmem] at hline
        cases hline) hk hl.conn
      obtain ⟨⟨v, hv, -⟩, v', q', hv', -, hq', hline'⟩ := hdrawn
      rw [hw] at hv'
      cases hv'
      obtain rfl : q = q' := Option.some.inj (hq.symm.trans hq')
      refine ⟨hp.forgotten, out, inp, ⟨q, h.next ▸ hlt, ?_, ?_⟩, ?_, ?_, ?_⟩
      · exact Option.some.inj (hline.symm.trans hline')
      · rw [h.pins, Pipeline.tcp_of_header (hp.header _)]
        cases (s.m_pipeline.elems inp.owner).isTCPServer with
        | true => simp
        | false => simpa using hpin
      · exact h.isSome _ ▸ Option.isSome_of_eq_some hv
      · exact h.isSome _ ▸ Option.isSome_of_eq_some hw
      · refine hgone.resolve_left fun hmem => ?_
        rw [hs.untaken c hmem] at hline
        cases hline
    · have hold : ¬ s.m_pipeline.HasConnection c' :=
        fun hmem => hnot ((hp.hasConnection hinv hk c').mpr ⟨hmem, hc'⟩)
      obtain ⟨hproducer, out', inp', ⟨q', hlt', hends, hpin'⟩, hsource, htarget, hout⟩ :=
        hs.left c' line hline hold
      refine ⟨?_, out', inp', ⟨q', h.next ▸ hlt', hends, ?_⟩, ?_, ?_, hout⟩
      · rw [hp.others c' hc']
        exact hproducer
      · rw [h.pins, if_neg, hpin', Pipeline.tcp_of_header (hp.header _)]
        -- of a server it was deleted long ago, and that of the connection was not
        rintro ⟨htcp, rfl⟩
        rw [hpin] at hpin'
        obtain ⟨rfl, hfalse⟩ := InputPinWidget.mk.inj hpin'
        rw [htcp] at hfalse
        cases hfalse
      · exact h.isSome _ ▸ hsource
      · exact h.isSome _ ▸ htarget
  case known =>
    rw [h.connectionLines, hp.nextConn]
    exact hs.known

/-- The line leaves the scene, if the scene still knows it. -/
theorem handleRemoveConnection_eq (s : PipelineScene) (c : ConnPtr) :
    s.handleRemoveConnection c = { s with items :=
      if (s.connectionLines c).isSome then s.items.erase (.line c) else s.items } := by
  unfold handleRemoveConnection
  split <;> rfl

/-- The scene follows the pipeline in disconnecting a connection. -/
theorem Mirrors.threadUnsafeDisconnect (hs : Mirrors lag s) (hinv : s.m_pipeline.Inv)
    (hpending : lag.pending = ∅) (hmissing : lag.missing = ∅)
    (hk : s.m_pipeline.m_connections[k]? = some c)
    (hgone : c ∈ lag.taken ∨ ∃ p ∈ lag.gone, s.m_pipeline.Touches c p) :
    ∃ t inp, s.threadUnsafeDisconnect k = some t ∧ t.isRunning = s.isRunning ∧
      s.m_pipeline.threadUnsafeDisconnect k = some t.m_pipeline ∧ t.m_pipeline.Inv ∧
      s.m_pipeline.Unlinks t.m_pipeline k c inp ∧ Mirrors lag t := by
  obtain ⟨out, inp, hl⟩ := hinv.linked k c hk
  obtain ⟨p, hp, hsame, hinv', hun⟩ := hinv.unlinks hk hl
  obtain ⟨w, q, hw, hq⟩ := hs.pinWidget hpending hmissing hl
  obtain ⟨-, hpin⟩ := hs.fitted.pins _ w inp.id q hw hq
  obtain ⟨t, ht, hpipeline, hrunning, hitems, hremoves⟩ :=
    disconnect_removes hl.conn hp hw hq hpin
  have hfitted : Fitted ∅ ∅ s := by
    have hold := hs.fitted
    rw [hpending, hmissing] at hold
    exact hold
  have hends : c ∈ lag.taken ∨ out.owner ∈ lag.gone ∨ inp.owner ∈ lag.gone := by
    refine hgone.imp_right ?_
    rintro ⟨p', hmem, r, rfl, hr | hr⟩ <;> rw [hl.conn] at hr <;> cases hr
    · exact .inl hmem
    · exact .inr hmem
  let p' : Pipeline := { p with m_connections := s.m_pipeline.m_connections.erase k }
  have hstep : s.threadUnsafeDisconnect k =
      some ({ t with m_pipeline := p' }.handleRemoveConnection c) := by
    simp [PipelineScene.threadUnsafeDisconnect, hk, ht, hpipeline, hsame, p']
  rw [handleRemoveConnection_eq] at hstep
  refine ⟨_, inp, hstep, hrunning, ?_, hinv', hun, ?_⟩
  · simp [Pipeline.threadUnsafeDisconnect, hk, hp, hsame, p']
  constructor
  case elements =>
    intro p''
    have hchild := hs.elements p''
    rw [← hun.isChild, ← hitems] at hchild
    change (_ ∈ if (t.connectionLines c).isSome then _ else _) ↔ _
    rw [← hchild]
    split <;> simp
  case lines =>
    intro c' hc'
    change (_ ∈ if (t.connectionLines c).isSome then _ else _) ↔ p'.HasConnection c'
    rw [hun.hasConnection hinv hk, hremoves.connectionLines, hitems]
    by_cases he : c' = c
    · subst c'
      obtain ⟨-, w', q', hw', hin', hq', hline⟩ := hs.wired.drawn k c out inp hc' hk hl.conn
      simp [hline]
    · rw [← hs.lines c' hc']
      split <;> simp [he]
  case fitted =>
    rw [hpending, hmissing]
    exact hfitted.removesPin hun { hremoves with } rfl hpin
  case wired =>
    exact hs.wired.removesPin hfitted hinv hk hl hun { hremoves with } rfl hw hq hends

end Unlinking

/-- Connections of the element went, and no others; the scene still shows the pipeline. -/
structure Follows (p : ElemPtr) (gone : Set ElemPtr) (s t : PipelineScene) : Prop where
  running : t.isRunning = s.isRunning
  inv : t.m_pipeline.Inv
  mirrors : Mirrors ⟨gone, ∅, ∅, ∅⟩ t
  children : t.m_pipeline.m_children = s.m_pipeline.m_children
  header : ∀ p', t.m_pipeline.header p' = s.m_pipeline.header p'
  less : ∀ (k : Int) c, t.m_pipeline.m_connections[k]? = some c →
    s.m_pipeline.m_connections[k]? = some c ∧ t.m_pipeline.conns c = s.m_pipeline.conns c
  kept : ∀ (k : Int) c, s.m_pipeline.m_connections[k]? = some c → ¬ s.m_pipeline.Touches c p →
    t.m_pipeline.m_connections[k]? = some c

section Follows
variable {p : ElemPtr} {gone : Set ElemPtr} {s t u : PipelineScene} {h : HashOrder Int}

theorem Follows.refl (hinv : s.m_pipeline.Inv) (hs : Mirrors ⟨gone, ∅, ∅, ∅⟩ s) :
    Follows p gone s s where
  running := rfl
  inv := hinv
  mirrors := hs
  children := rfl
  header _ := rfl
  less _ _ hk := ⟨hk, rfl⟩
  kept _ _ hk _ := hk

theorem Follows.trans (hst : Follows p gone s t) (htu : Follows p gone t u) :
    Follows p gone s u where
  running := htu.running.trans hst.running
  inv := htu.inv
  mirrors := htu.mirrors
  children := htu.children.trans hst.children
  header p' := (htu.header p').trans (hst.header p')
  less k c hk := by
    obtain ⟨hk', hconn'⟩ := htu.less k c hk
    obtain ⟨hk'', hconn⟩ := hst.less k c hk'
    exact ⟨hk'', hconn'.trans hconn⟩
  kept k c hk hnot := by
    have hk' := hst.kept k c hk hnot
    refine htu.kept k c hk' ?_
    unfold Pipeline.Touches
    rw [(hst.less k c hk').2]
    exact hnot

/-- One connection of the element goes. -/
theorem Mirrors.cut (hs : Mirrors ⟨gone, ∅, ∅, ∅⟩ s) (hinv : s.m_pipeline.Inv) (hp : p ∈ gone)
    {k : Int} {c : ConnPtr} (hk : s.m_pipeline.m_connections[k]? = some c)
    (htouch : s.m_pipeline.Touches c p) :
    ∃ t, s.threadUnsafeDisconnect k = some t ∧
      s.m_pipeline.threadUnsafeDisconnect k = some t.m_pipeline ∧ Follows p gone s t ∧
      ∀ c', t.m_pipeline.HasConnection c' ↔ s.m_pipeline.HasConnection c' ∧ c' ≠ c := by
  obtain ⟨t, inp, ht, hrunning, hpipeline, hinv', hun, hmirrors⟩ :=
    hs.threadUnsafeDisconnect hinv rfl rfl hk (.inr ⟨p, hp, htouch⟩)
  refine ⟨t, ht, hpipeline, ⟨hrunning, hinv', hmirrors, hun.children, hun.header, ?_, ?_⟩,
    hun.hasConnection hinv hk⟩
  · intro k' c' hk'
    obtain ⟨hold, hne⟩ := (hun.connection hinv hk k' c').mp hk'
    exact ⟨hold, hun.others c' hne⟩
  · intro k' c' hk' hnot
    refine (hun.connection hinv hk k' c').mpr ⟨hk', ?_⟩
    rintro rfl
    exact hnot htouch

theorem Mirrors.disconnectInputs (hs : Mirrors ⟨gone, ∅, ∅, ∅⟩ s) (hinv : s.m_pipeline.Inv)
    (hp : p ∈ gone) (is : List Int) :
    ∃ t, disconnectInputs p is s = some t ∧
      Pipeline.disconnectInputs p is s.m_pipeline = some t.m_pipeline ∧ Follows p gone s t := by
  induction is generalizing s with
  | nil => exact ⟨s, rfl, rfl, .refl hinv hs⟩
  | cons i is ih =>
    unfold PipelineScene.disconnectInputs Pipeline.disconnectInputs
    cases hc : (s.m_pipeline.inputPin ⟨p, i⟩).bind InputPin.m_connection with
    | none => exact ih hs hinv
    | some c =>
      obtain ⟨pin, hpin, hpc⟩ := Option.bind_eq_some_iff.mp hc
      obtain ⟨k, hk, hconsumer⟩ := hinv.input_listed _ pin c hpin hpc
      obtain ⟨out, inp, hl⟩ := hinv.linked k c hk
      obtain ⟨t, ht, hpipeline, hcut, -⟩ := hs.cut hinv hp hk ⟨⟨p, i⟩, rfl, .inr hconsumer⟩
      obtain ⟨u, hu, hpipeline', hrest⟩ := ih hcut.mirrors hcut.inv
      refine ⟨u, ?_, ?_, hcut.trans hrest⟩
      · simp [hl.conn, ht, hu]
      · simp [hl.conn, hpipeline, hpipeline']

theorem Mirrors.disconnectEach (hs : Mirrors ⟨gone, ∅, ∅, ∅⟩ s) (hinv : s.m_pipeline.Inv)
    (hp : p ∈ gone) {cs : List ConnPtr} (hn : cs.Nodup)
    (hcs : ∀ c ∈ cs, s.m_pipeline.HasConnection c ∧ s.m_pipeline.Touches c p) :
    ∃ t, disconnectEach cs s = some t ∧
      Pipeline.disconnectEach cs s.m_pipeline = some t.m_pipeline ∧ Follows p gone s t := by
  induction cs generalizing s with
  | nil => exact ⟨s, rfl, rfl, .refl hinv hs⟩
  | cons c cs ih =>
    obtain ⟨hc, hn⟩ := List.nodup_cons.mp hn
    obtain ⟨⟨k, hk⟩, htouch⟩ := hcs c List.mem_cons_self
    obtain ⟨out, inp, hl⟩ := hinv.linked k c hk
    obtain ⟨t, ht, hpipeline, hcut, hleft⟩ := hs.cut hinv hp hk htouch
    have hrest : ∀ c' ∈ cs, t.m_pipeline.HasConnection c' ∧ t.m_pipeline.Touches c' p := by
      intro c' hc'
      obtain ⟨hold, htouch'⟩ := hcs c' (List.mem_cons_of_mem c hc')
      have hmem := (hleft c').mpr ⟨hold, ne_of_mem_of_not_mem hc' hc⟩
      obtain ⟨k', hk'⟩ := hmem
      refine ⟨⟨k', hk'⟩, ?_⟩
      unfold Pipeline.Touches
      rw [(hcut.less k' c' hk').2]
      exact htouch'
    obtain ⟨u, hu, hpipeline', hrest⟩ := ih hcut.mirrors hcut.inv hn hrest
    refine ⟨u, ?_, ?_, hcut.trans hrest⟩
    · simp [PipelineScene.disconnectEach, hl.conn, ht, hu]
    · simp [Pipeline.disconnectEach, hl.conn, hpipeline, hpipeline']

theorem Mirrors.disconnectOutputs (hs : Mirrors ⟨gone, ∅, ∅, ∅⟩ s) (hinv : s.m_pipeline.Inv)
    (hp : p ∈ gone) (is : List Int) :
    ∃ t, disconnectOutputs p is s = some t ∧
      Pipeline.disconnectOutputs p is s.m_pipeline = some t.m_pipeline ∧ Follows p gone s t := by
  induction is generalizing s with
  | nil => exact ⟨s, rfl, rfl, .refl hinv hs⟩
  | cons i is ih =>
    obtain ⟨cs, hcs⟩ : ∃ cs,
        ((s.m_pipeline.outputPin ⟨p, i⟩).map OutputPin.m_connections).getD [] = cs := ⟨_, rfl⟩
    have hlisted : cs.Nodup ∧
        ∀ c ∈ cs, s.m_pipeline.HasConnection c ∧ s.m_pipeline.Touches c p := by
      rw [← hcs]
      cases ho : s.m_pipeline.outputPin ⟨p, i⟩ with
      | none => exact ⟨List.nodup_nil, fun c hc => absurd hc List.not_mem_nil⟩
      | some o =>
        refine ⟨hinv.nodup _ o ho, fun c hc => ?_⟩
        obtain ⟨k, hk, hproducer⟩ := hinv.output_listed _ o c ho hc
        exact ⟨⟨k, hk⟩, ⟨p, i⟩, rfl, .inl hproducer⟩
    obtain ⟨t, ht, hpipeline, hcut⟩ := hs.disconnectEach hinv hp hlisted.1 hlisted.2
    obtain ⟨u, hu, hpipeline', hrest⟩ := ih hcut.mirrors hcut.inv
    refine ⟨u, ?_, ?_, hcut.trans hrest⟩
    · simp [PipelineScene.disconnectOutputs, hcs, ht, hu]
    · simp [Pipeline.disconnectOutputs, hcs, hpipeline, hpipeline']

theorem Mirrors.removeConnectionsForElement (hs : Mirrors ⟨gone, ∅, ∅, ∅⟩ s)
    (hinv : s.m_pipeline.Inv) (hp : p ∈ gone) :
    ∃ t, s.removeConnectionsForElement h p = some t ∧
      s.m_pipeline.removeConnectionsForElement h p = some t.m_pipeline ∧
      Follows p gone s t := by
  obtain ⟨t, ht, hpipeline, hcut⟩ : ∃ t, s.disconnectInputPins h p = some t ∧
      s.m_pipeline.disconnectInputPins h p = some t.m_pipeline ∧ Follows p gone s t := by
    unfold PipelineScene.disconnectInputPins Pipeline.disconnectInputPins
    cases (s.m_pipeline.elems p).kind with
    | processor => exact hs.disconnectInputs hinv hp _
    | producer => exact ⟨s, rfl, rfl, .refl hinv hs⟩
  obtain ⟨u, hu, hpipeline', hrest⟩ := hcut.mirrors.disconnectOutputs hcut.inv hp
    (h.order (t.m_pipeline.elems p).m_outputPins.keys)
  refine ⟨u, ?_, ?_, hcut.trans hrest⟩
  · simp [PipelineScene.removeConnectionsForElement, ht, hu]
  · simp [Pipeline.removeConnectionsForElement, hpipeline, hpipeline']

end Follows

section Remove
variable {p : ElemPtr} {c : ConnPtr} {gone gone' pending : Set ElemPtr} {taken : Set ConnPtr}
  {missing : Set PinRef} {s t : PipelineScene} {h : HashOrder Int}

structure Removed (p : ElemPtr) (s t : Pipeline) : Prop where
  child : ∀ q, t.IsChild q ↔ s.IsChild q ∧ q ≠ p
  connection : ∀ c, t.HasConnection c ↔ s.HasConnection c ∧ ¬ s.Touches c p
  conns : ∀ c, t.HasConnection c → t.conns c = s.conns c

/-- An element that may go has no connections any more. -/
theorem Follows.removed {u : Pipeline} (hst : Follows p gone s t)
    (hiso : t.m_pipeline.Isolated p) (hchild : ∀ q, u.IsChild q ↔ t.m_pipeline.IsChild q ∧ q ≠ p)
    (hconnections : u.m_connections = t.m_pipeline.m_connections)
    (hconns : u.conns = t.m_pipeline.conns) : Removed p s.m_pipeline u := by
  have hhas (c : ConnPtr) : u.HasConnection c ↔ t.m_pipeline.HasConnection c := by
    unfold Pipeline.HasConnection
    rw [hconnections]
  constructor
  case child =>
    intro q
    rw [hchild]
    unfold Pipeline.IsChild
    rw [hst.children]
  case connection =>
    intro c
    rw [hhas]
    constructor
    · rintro ⟨k, hk⟩
      obtain ⟨hold, hconn⟩ := hst.less k c hk
      refine ⟨⟨k, hold⟩, ?_⟩
      obtain ⟨out, inp, hl⟩ := hst.inv.linked k c hk
      obtain ⟨o, i, ho, hc, hi, hic, -⟩ := hl.pins
      rintro ⟨r, rfl, hr⟩
      rw [← hconn, hl.conn] at hr
      obtain hr | hr := hr
      · cases hr
        rw [hiso.output out.id o ho] at hc
        cases hc
      · cases hr
        rw [hiso.input inp.id i hi] at hic
        cases hic
    · rintro ⟨⟨k, hk⟩, hnot⟩
      exact ⟨k, hst.kept k c hk hnot⟩
  case conns =>
    intro c hc
    obtain ⟨k, hk⟩ := (hhas c).mp hc
    rw [hconns]
    exact (hst.less k c hk).2

/-- The scene forgets an element that has left the pipeline. -/
theorem Mirrors.dropElement {u : Pipeline} (hs : Mirrors ⟨gone, ∅, ∅, ∅⟩ s)
    (hchild : ∀ q, u.IsChild q ↔ s.m_pipeline.IsChild q ∧ q ≠ p)
    (hconnections : u.m_connections = s.m_pipeline.m_connections)
    (hconns : u.conns = s.m_pipeline.conns) (hnext : u.nextConn = s.m_pipeline.nextConn)
    (helems : u.elems = s.m_pipeline.elems) (hgone : ∀ q ∈ gone, ¬ u.IsChild q) :
    Mirrors (.none u) { s with m_pipeline := u, items := s.items.erase (.element p) } := by
  constructor
  case elements =>
    intro q
    change _ ∈ s.items.erase _ ↔ u.IsChild q ∧ q ∉ ∅
    rw [Finset.mem_erase, hs.elements q, hchild]
    constructor
    · rintro ⟨hne, hq, hnot⟩
      refine ⟨⟨hq, ?_⟩, hnot⟩
      rintro rfl
      exact hne rfl
    · rintro ⟨⟨hq, hne⟩, hnot⟩
      exact ⟨fun he => hne (GraphicsItem.element.inj he), hq, hnot⟩
  case lines =>
    intro c hc
    change _ ∈ s.items.erase _ ↔ u.HasConnection c
    unfold Pipeline.HasConnection
    rw [Finset.mem_erase, hs.lines c hc, hconnections]
    exact and_iff_right (by simp)
  case fitted =>
    constructor
    case widget => exact fun q hq hnot => hs.fitted.widget q ((hchild q).mp hq).1 hnot
    case unknown => exact hs.fitted.unknown
    case named => exact helems ▸ hs.fitted.named
    case inputs =>
      unfold Pipeline.inputPin
      rw [helems]
      exact hs.fitted.inputs
    case outputs =>
      unfold Pipeline.outputPin
      rw [helems]
      exact hs.fitted.outputs
    case pins => exact hs.fitted.pins
  case wired =>
    exact hs.wired.congr rfl rfl rfl rfl hconnections hconns hnext helems hgone

theorem Mirrors.removeElement (hs : Mirrors (.none s.m_pipeline) s) (hinv : s.m_pipeline.Inv)
    (hchild : s.m_pipeline.IsChild p) :
    ∃ t, s.removeElement h p = some t ∧ t.isRunning = s.isRunning ∧ t.m_pipeline.Inv ∧
      Mirrors (.none t.m_pipeline) t ∧ Removed p s.m_pipeline t.m_pipeline := by
  obtain ⟨id, hid⟩ := hchild
  have hm_id := hinv.child_id id p hid
  let gone : Set ElemPtr := {q | ¬ s.m_pipeline.IsChild q ∨ q = p}
  have hleaving : Mirrors ⟨gone, ∅, ∅, ∅⟩ s :=
    { hs with wired := hs.wired.congr rfl rfl rfl rfl rfl rfl rfl rfl fun q hq => .inl hq }
  obtain ⟨u, hu, hpipeline, hcut⟩ :=
    hleaving.removeConnectionsForElement (h := h) hinv (Or.inr rfl : p ∈ gone)
  obtain ⟨v, hv, -, -, hiso⟩ := hinv.removeConnectionsForElement h p
  obtain rfl : u.m_pipeline = v := Option.some.inj (hpipeline.symm.trans hv)
  obtain ⟨t, ht, hinv', (_ : Pipeline.Keeps (fun _ => true) _ _)⟩ := hinv.removeElement h id
  simp only [Pipeline.removeElement, hid, hpipeline, Option.bind_eq_bind, Option.bind_some,
    Option.some.injEq] at ht
  have hchildren (q : ElemPtr) : t.IsChild q ↔ u.m_pipeline.IsChild q ∧ q ≠ p := by
    rw [← ht]
    constructor
    · rintro ⟨k, hk⟩
      obtain ⟨hne, hold⟩ := QMap.of_erase hk
      refine ⟨⟨k, hold⟩, ?_⟩
      rintro rfl
      rw [hcut.children] at hold
      exact hne ((hinv.child_id k q hold).symm.trans hm_id)
    · rintro ⟨⟨k, hk⟩, hne⟩
      exact ⟨k, QMap.erase_stored (hcut.children ▸ hid) hk hne⟩
  have hsame : t.elems = u.m_pipeline.elems ∧ t.conns = u.m_pipeline.conns ∧
      t.m_connections = u.m_pipeline.m_connections ∧ t.nextConn = u.m_pipeline.nextConn := by
    rw [← ht]
    exact ⟨rfl, rfl, rfl, rfl⟩
  obtain ⟨helems, hconns, hconnections, hnext⟩ := hsame
  have hremoved : Removed p s.m_pipeline t := hcut.removed hiso hchildren hconnections hconns
  have hwidget : (u.elementWidgets p).isSome :=
    hcut.mirrors.fitted.widget p ⟨id, hcut.children ▸ hid⟩ (Set.notMem_empty p)
  have hstep : s.removeElement h p =
      some { u with m_pipeline := t, items := u.items.erase (.element p) } := by
    unfold PipelineScene.removeElement pipelineRemoveElement
    simp only [hm_id, hid, hu, Option.bind_eq_bind, Option.bind_some, handleRemoveElement, hwidget,
      if_true, ht]
  refine ⟨_, hstep, hcut.running, hinv', ?_, hremoved⟩
  refine hcut.mirrors.dropElement hchildren hconnections hconns hnext helems ?_
  rintro q (hq | rfl) hmem
  · exact hq ((hremoved.child q).mp hmem).1
  · exact ((hremoved.child q).mp hmem).2 rfl

end Remove

section RemoveLine
variable {c : ConnPtr} {out inp : PinRef} {k : Int} {gone : Set ElemPtr} {s t : PipelineScene}

theorem mem_atEnds_filter {p : ElemPtr} {c' : ConnPtr} {l : List ConnPtr} :
    c' ∈ atEnds out inp (List.filter (· ≠ c)) p l ↔
      c' ∈ l ∧ (c' = c → ¬ (p = out.owner ∨ p = inp.owner)) := by
  unfold atEnds
  split
  case isTrue hp =>
    simp only [List.mem_filter, decide_eq_true_eq, hp, not_true, imp_false]
  case isFalse hp => simp [hp]

def takeLine (s : PipelineScene) (c : ConnPtr) (out inp : PinRef) : PipelineScene :=
  ({ s with connectionLines := Function.update s.connectionLines c none }.removeLine out.owner
    c).removeLine inp.owner c

theorem Mirrors.takeLine (hs : Mirrors ⟨gone, ∅, ∅, ∅⟩ s)
    (hk : s.m_pipeline.m_connections[k]? = some c) (hl : s.m_pipeline.Linked k c out inp) :
    Mirrors ⟨gone, ∅, {c}, ∅⟩ (s.takeLine c out inp) := by
  have hrel : Relists (atEnds out inp (List.filter (· ≠ c)))
      { s with connectionLines := Function.update s.connectionLines c none }
      (s.takeLine c out inp) := modifyWidgets_relists _ hl.distinct
  have hlines {c' : ConnPtr} (hne : c' ≠ c) :
      (s.takeLine c out inp).connectionLines c' = s.connectionLines c' :=
    Function.update_of_ne hne ..
  have hnone : (s.takeLine c out inp).connectionLines c = none := Function.update_self ..
  have hother {c' : ConnPtr} {line : ConnectionLine}
      (hline : (s.takeLine c out inp).connectionLines c' = some line) :
      c' ≠ c ∧ s.connectionLines c' = some line := by
    have hne : c' ≠ c := by
      rintro rfl
      rw [hnone] at hline
      cases hline
    exact ⟨hne, (hlines hne).symm.trans hline⟩
  have hfitted : Fitted ∅ ∅
      { s with connectionLines := Function.update s.connectionLines c none } := { hs.fitted with }
  constructor
  case elements => exact hs.elements
  case lines => exact fun c' _ => hs.lines c' (Set.notMem_empty c')
  case fitted => exact hfitted.relists hrel
  case wired =>
    constructor
    case drawn =>
      intro k' c' out' inp' hc' hk' hconn
      obtain ⟨⟨w, hw, hin⟩, w', q, hw', hin', hq, hline⟩ :=
        hs.wired.drawn k' c' out' inp' (Set.notMem_empty c') hk' hconn
      have hkept (p : ElemPtr) {l : List ConnPtr} (hmem : c' ∈ l) :
          c' ∈ atEnds out inp (List.filter (· ≠ c)) p l :=
        mem_atEnds_filter.mpr ⟨hmem, fun he => absurd he hc'⟩
      exact ⟨⟨_, hrel.widget hw, hkept _ hin⟩, _, q, hrel.widget hw', hkept _ hin', hq,
        (hlines hc').trans hline⟩
    case untaken =>
      rintro c' rfl
      exact hnone
    case listed =>
      intro p w' c' hw' hc'
      obtain ⟨w, hw, rfl⟩ := hrel.of_widget hw'
      obtain ⟨hmem, hends⟩ := mem_atEnds_filter.mp hc'
      obtain ⟨out', q, hline, hlt, howner⟩ := hs.wired.listed p w c' hw hmem
      refine ⟨out', q, ?_, hlt, howner⟩
      rw [hlines, hline]
      rintro rfl
      -- the lists of other elements do not have the line
      obtain ⟨-, v, q', hv, -, hq', hline'⟩ :=
        hs.wired.drawn k c' out inp (Set.notMem_empty c') hk hl.conn
      rw [hline] at hline'
      cases hline'
      rw [(hs.fitted.pins _ v inp.id q hv hq').2] at howner
      exact hends rfl howner
    case left =>
      intro c' line hline hnot
      obtain ⟨hproducer, out', inp', hleft⟩ := hs.wired.left c' line (hother hline).2 hnot
      have hbare : Leftover { s with connectionLines := Function.update s.connectionLines c none }
          gone line out' inp' := { hleft with }
      exact ⟨hproducer, out', inp', hbare.relists hrel⟩
    case known =>
      intro c' hc'
      obtain ⟨line, hline⟩ := Option.isSome_iff_exists.mp hc'
      exact hs.wired.known c' (Option.isSome_of_eq_some (hother hline).2)

/-- At last the line is deleted. -/
theorem Mirrors.deleteLine (hs : Mirrors ⟨gone, ∅, {c}, ∅⟩ s)
    (hc : ¬ s.m_pipeline.HasConnection c) :
    Mirrors ⟨gone, ∅, ∅, ∅⟩ { s with items := s.items.erase (.line c) } where
  elements p := by
    change _ ∈ s.items.erase _ ↔ _
    rw [Finset.mem_erase, hs.elements p]
    exact and_iff_right (by simp)
  lines c' _ := by
    change _ ∈ s.items.erase _ ↔ _
    rw [Finset.mem_erase]
    by_cases he : c' = c
    · subst c'
      exact iff_of_false (fun hmem => hmem.1 rfl) hc
    · rw [hs.lines c' he]
      exact and_iff_right fun hline => he (GraphicsItem.line.inj hline)
  fitted := { hs.fitted with }
  wired := by
    have hwired : Wired gone {c} { s with items := s.items.erase (.line c) } :=
      hs.wired.congr rfl rfl rfl rfl rfl rfl rfl rfl fun _ hq => hq
    refine { hwired with drawn := ?_, untaken := fun _ hc' => absurd hc' (Set.notMem_empty _) }
    intro k c' out inp _ hk hconn
    refine hwired.drawn k c' out inp ?_ hk hconn
    rintro rfl
    exact hc ⟨k, hk⟩

theorem Mirrors.removeConnection (hs : Mirrors (.none s.m_pipeline) s) (hinv : s.m_pipeline.Inv)
    (hc : s.m_pipeline.HasConnection c) :
    ∃ t, s.removeConnection c = some t ∧ t.isRunning = s.isRunning ∧ t.m_pipeline.Inv ∧
      Mirrors (.none t.m_pipeline) t ∧
      (∀ p, t.m_pipeline.IsChild p ↔ s.m_pipeline.IsChild p) ∧
      (∀ c', t.m_pipeline.HasConnection c' ↔ s.m_pipeline.HasConnection c' ∧ c' ≠ c) ∧
      ∀ c', c' ≠ c → t.m_pipeline.conns c' = s.m_pipeline.conns c' := by
  obtain ⟨k, hk⟩ := hc
  obtain ⟨out, inp, hl⟩ := hinv.linked k c hk
  obtain ⟨⟨w, hw, -⟩, w', q, hw', -, -, hline⟩ :=
    hs.wired.drawn k c out inp (Set.notMem_empty c) hk hl.conn
  obtain ⟨t, inp', ht, hrunning, -, hinv', hun, hmirrors⟩ :=
    (hs.takeLine hk hl).threadUnsafeDisconnect hinv rfl rfl hk (.inl (Set.mem_singleton c))
  have hhas := hun.hasConnection hinv hk
  have hgone : ¬ t.m_pipeline.HasConnection c := fun hmem => ((hhas c).mp hmem).2 rfl
  have hstep : s.removeConnection c = some { t with items := t.items.erase (.line c) } := by
    unfold PipelineScene.removeConnection
    rw [if_neg (by simp [hline])]
    simp only [hl.conn, hw, hw', Option.bind_eq_bind]
    change ((s.takeLine c out inp).threadUnsafeDisconnect (s.m_pipeline.conns c).m_id).bind _ = _
    rw [hl.conn, ht]
    rfl
  refine ⟨_, hstep, hrunning, hinv', ?_, hun.isChild, hhas, hun.others⟩
  have hlag : (⟨{p | ¬ s.m_pipeline.IsChild p}, ∅, ∅, ∅⟩ : Lag) = .none t.m_pipeline := by
    unfold Lag.none
    simp only [hun.isChild]
    rfl
  change Mirrors (.none t.m_pipeline) _
  rw [← hlag]
  exact hmirrors.deleteLine hgone

/-- A line whose connection is gone is not one that can be removed. -/
theorem Mirrors.removeConnection_gone (hs : Mirrors (.none s.m_pipeline) s)
    (hc : ¬ s.m_pipeline.HasConnection c) : s.removeConnection c = none := by
  unfold PipelineScene.removeConnection
  split
  case isTrue => rfl
  case isFalse hsome =>
    obtain ⟨line, hline⟩ := Option.ne_none_iff_exists'.mp (by simpa using hsome)
    obtain ⟨hproducer, -⟩ := hs.wired.left c line hline hc
    rw [hproducer]

end RemoveLine

end PipelineScene

end ParleVision.Gui
