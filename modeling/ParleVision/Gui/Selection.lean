import ParleVision.Gui.Removing

namespace ParleVision.Gui
open Lib ParleVision.Graph

namespace PipelineScene

variable {s t : PipelineScene} {isRegistered : Int → Bool} {h : HashOrder Int}

/-- No element comes before a line that ends at it. -/
def LinesFirst (s : Pipeline) (items : List GraphicsItem) : Prop :=
  items.Pairwise fun item item' =>
    ∀ p c, item = .element p → item' = .line c → ¬ s.Touches c p

def Present (s : Pipeline) : GraphicsItem → Prop
  | .element p => s.IsChild p
  | .line c => s.HasConnection c

/-- A line whose connection is gone cannot be removed, whatever comes before it. -/
theorem Mirrors.removeAll_gone (hs : Mirrors (.none s.m_pipeline) s) (hinv : s.m_pipeline.Inv)
    {items : List GraphicsItem} (hn : items.Nodup)
    (hchildren : ∀ p, .element p ∈ items → s.m_pipeline.IsChild p) {c : ConnPtr}
    (hc : .line c ∈ items) (hgone : ¬ s.m_pipeline.HasConnection c) :
    items.foldlM (remove h) s = none := by
  induction items generalizing s with
  | nil => exact absurd hc List.not_mem_nil
  | cons item items ih =>
    obtain ⟨hitem, hnodup⟩ := List.nodup_cons.mp hn
    rw [List.foldlM_cons]
    cases item with
    | element p =>
      obtain ⟨t, ht, -, hinv', hmirrors, hremoved⟩ :=
        hs.removeElement (h := h) hinv (hchildren p List.mem_cons_self)
      rw [remove, ht]
      refine ih hmirrors hinv' hnodup (fun q hq => ?_) ?_ fun hmem => ?_
      · refine (hremoved.child q).mpr ⟨hchildren q (List.mem_cons_of_mem _ hq), ?_⟩
        rintro rfl
        exact hitem hq
      · exact (List.mem_cons.mp hc).resolve_left GraphicsItem.noConfusion
      · exact hgone ((hremoved.connection c).mp hmem).1
    | line c' =>
      by_cases hc' : s.m_pipeline.HasConnection c'
      · obtain ⟨t, ht, -, hinv', hmirrors, hchild, hhas, -⟩ := hs.removeConnection hinv hc'
        rw [remove, ht]
        have hne : c ≠ c' := by
          rintro rfl
          exact hgone hc'
        refine ih hmirrors hinv' hnodup (fun q hq => ?_) ?_ fun hmem => hgone ((hhas c).mp hmem).1
        · exact (hchild q).mpr (hchildren q (List.mem_cons_of_mem _ hq))
        · exact (List.mem_cons.mp hc).resolve_left fun he => hne (GraphicsItem.line.inj he)
      · rw [remove, hs.removeConnection_gone hc']
        rfl

/-- The first item may be removed first, and what comes later touches what it touched. -/
theorem linesFirst_cons {p p' : Pipeline} {item : GraphicsItem} {items : List GraphicsItem}
    (htouch : ∀ q c, .element q ∈ items → .line c ∈ items → (p'.Touches c q ↔ p.Touches c q))
    (hfirst : ∀ q c, item = .element q → .line c ∈ items → ¬ p.Touches c q) :
    LinesFirst p (item :: items) ↔ LinesFirst p' items := by
  unfold LinesFirst
  rw [List.pairwise_cons, and_iff_right]
  · refine List.Pairwise.iff_of_mem fun {x y} hx hy => ?_
    refine forall₄_congr fun q c hq hc => ?_
    subst hq hc
    rw [htouch q c hx hy]
  · rintro item' hmem q c hq rfl
    exact hfirst q c hq hmem

/-- The selection is removed, unless an element takes a line with it that comes later. -/
theorem Mirrors.removeAll (hs : Mirrors (.none s.m_pipeline) s) (hinv : s.m_pipeline.Inv)
    {items : List GraphicsItem} (hn : items.Nodup)
    (hpresent : ∀ item ∈ items, Present s.m_pipeline item) :
    (LinesFirst s.m_pipeline items → ∃ t, items.foldlM (remove h) s = some t ∧
      t.m_pipeline.Inv ∧ Mirrors (.none t.m_pipeline) t) ∧
    (¬ LinesFirst s.m_pipeline items → items.foldlM (remove h) s = none) := by
  induction items generalizing s with
  | nil => exact ⟨fun _ => ⟨s, rfl, hinv, hs⟩, fun hnot => absurd List.Pairwise.nil hnot⟩
  | cons item items ih =>
    obtain ⟨hitem, hnodup⟩ := List.nodup_cons.mp hn
    have hhead := hpresent item List.mem_cons_self
    have hrest : ∀ item' ∈ items, Present s.m_pipeline item' :=
      fun item' hmem => hpresent item' (List.mem_cons_of_mem item hmem)
    -- what comes after an item that takes no line with it is as it was
    have hdone {t : PipelineScene} (ht : s.remove h item = some t) (hinv' : t.m_pipeline.Inv)
        (hmirrors : Mirrors (.none t.m_pipeline) t)
        (hkept : ∀ item' ∈ items, Present t.m_pipeline item')
        (htouch : ∀ p c, .element p ∈ items → .line c ∈ items →
          (t.m_pipeline.Touches c p ↔ s.m_pipeline.Touches c p))
        (hfirst : ∀ p c, item = .element p → .line c ∈ items → ¬ s.m_pipeline.Touches c p) :
        (LinesFirst s.m_pipeline (item :: items) → ∃ t,
          (item :: items).foldlM (remove h) s = some t ∧ t.m_pipeline.Inv ∧
            Mirrors (.none t.m_pipeline) t) ∧
        (¬ LinesFirst s.m_pipeline (item :: items) →
          (item :: items).foldlM (remove h) s = none) := by
      obtain ⟨hgood, hbad⟩ := ih hmirrors hinv' hnodup hkept
      rw [linesFirst_cons htouch hfirst, List.foldlM_cons, ht]
      exact ⟨hgood, hbad⟩
    cases item with
    | element p =>
      obtain ⟨t, ht, -, hinv', hmirrors, hremoved⟩ := hs.removeElement (h := h) hinv hhead
      have hchild {q : ElemPtr} (hq : .element q ∈ items) : t.m_pipeline.IsChild q := by
        refine (hremoved.child q).mpr ⟨hrest _ hq, ?_⟩
        rintro rfl
        exact hitem hq
      by_cases htaken : ∃ c, .line c ∈ items ∧ s.m_pipeline.Touches c p
      · obtain ⟨c, hc, htouch⟩ := htaken
        have hnone : (GraphicsItem.element p :: items).foldlM (remove h) s = none := by
          rw [List.foldlM_cons, remove, ht]
          refine hmirrors.removeAll_gone hinv' hnodup (fun q hq => hchild hq) hc fun hmem => ?_
          exact ((hremoved.connection c).mp hmem).2 htouch
        refine ⟨fun hfirst => ?_, fun _ => hnone⟩
        exact absurd htouch (List.rel_of_pairwise_cons hfirst hc p c rfl rfl)
      · have hhas {c : ConnPtr} (hc : .line c ∈ items) : t.m_pipeline.HasConnection c :=
          (hremoved.connection c).mpr ⟨hrest (.line c) hc, fun htouch => htaken ⟨c, hc, htouch⟩⟩
        refine hdone ht hinv' hmirrors (fun item' hmem => ?_) (fun q c _ hc => ?_) ?_
        · cases item' with
          | element q => exact hchild hmem
          | line c => exact hhas hmem
        · unfold Pipeline.Touches
          rw [hremoved.conns c (hhas hc)]
        · rintro q c hq hc
          cases hq
          exact fun htouch => htaken ⟨c, hc, htouch⟩
    | line c =>
      obtain ⟨t, ht, -, hinv', hmirrors, hchild, hhas, hconns⟩ := hs.removeConnection hinv hhead
      have hne {c' : ConnPtr} (hc' : .line c' ∈ items) : c' ≠ c := by
        rintro rfl
        exact hitem hc'
      refine hdone ht hinv' hmirrors (fun item' hmem => ?_) (fun q c' _ hc' => ?_) ?_
      · cases item' with
        | element q => exact (hchild q).mpr (hrest (.element q) hmem)
        | line c' => exact (hhas c').mpr ⟨hrest (.line c') hmem, hne hmem⟩
      · unfold Pipeline.Touches
        rw [hconns c' (hne hc')]
      · intro q c' hq
        cases hq

def KeepsLine (s : PipelineScene) (p : ElemPtr) (out inp : PinRef) : Prop :=
  ∃ w c q, s.elementWidgets p = some w ∧ c ∈ w.lines ∧ ¬ s.m_pipeline.HasConnection c ∧
    s.connectionLines c = some ⟨some out, some q⟩ ∧ (s.pinWidgets q).m_inputPin = inp

theorem Mirrors.canRead_drawn (hs : Mirrors (.none s.m_pipeline) s) {c : ConnPtr}
    {out inp : PinRef} (hd : s.Drawn c out inp) :
    ∃ q, s.connectionLines c = some ⟨some out, some q⟩ ∧ s.canRead ⟨some out, some q⟩ = true := by
  obtain ⟨-, w, q, hw, -, hq, hline⟩ := hd
  refine ⟨q, hline, ?_⟩
  simp [canRead, (hs.fitted.pins _ w inp.id q hw hq).2]

/-- The other element is the one that was removed. -/
theorem Mirrors.keepsLine (hs : Mirrors (.none s.m_pipeline) s) {p : ElemPtr} {out inp : PinRef}
    (hp : s.m_pipeline.IsChild p) (hkeeps : s.KeepsLine p out inp) :
    p = out.owner ∧ ¬ s.m_pipeline.IsChild inp.owner ∨
      p = inp.owner ∧ ¬ s.m_pipeline.IsChild out.owner := by
  obtain ⟨w, c, q, hw, hc, hgone, hline, rfl⟩ := hkeeps
  obtain ⟨out', q', hline', -, howner⟩ := hs.wired.listed p w c hw hc
  rw [hline] at hline'
  cases hline'
  obtain ⟨-, out', inp', ⟨q', -, hends, hpin⟩, -, -, hout⟩ := hs.wired.left c _ hline hgone
  cases hends
  rw [hpin] at howner ⊢
  obtain rfl | rfl := howner
  · exact .inl ⟨rfl, hout.resolve_left fun hnot => hnot hp⟩
  · exact .inr ⟨rfl, hout.resolve_right fun hnot => hnot hp⟩

theorem Mirrors.itemChange (hs : Mirrors (.none s.m_pipeline) s) (hinv : s.m_pipeline.Inv)
    {p : ElemPtr} (hp : s.m_pipeline.IsChild p) :
    s.itemChange p = none ↔ ∃ out inp, s.KeepsLine p out inp ∧
      (s.m_pipeline.elems inp.owner).isTCPServer = true := by
  obtain ⟨w, hw⟩ := Option.isSome_iff_exists.mp (hs.fitted.widget p hp (Set.notMem_empty p))
  have hread : s.itemChange p = none ↔
      ∃ c ∈ w.lines, (s.connectionLines c).any s.canRead = false := by
    unfold PipelineScene.itemChange
    simp only [hw]
    split
    case isTrue hall =>
      refine iff_of_false (Option.some_ne_none _) ?_
      rintro ⟨c, hc, hno⟩
      rw [List.all_eq_true.mp hall c hc] at hno
      cases hno
    case isFalse hall => simpa using hall
  rw [hread]
  constructor
  · rintro ⟨c, hc, hno⟩
    obtain ⟨out, q, hline, -, -⟩ := hs.wired.listed p w c hw hc
    have hgone : ¬ s.m_pipeline.HasConnection c := by
      rintro ⟨k, hk⟩
      obtain ⟨out', inp', hl⟩ := hinv.linked k c hk
      obtain ⟨q', hline', hyes⟩ := hs.canRead_drawn
        (hs.wired.drawn k c out' inp' (Set.notMem_empty c) hk hl.conn)
      rw [hline', Option.any_some, hyes] at hno
      cases hno
    obtain ⟨-, out', inp', ⟨q', -, hends, hpin⟩, -⟩ := hs.wired.left c _ hline hgone
    cases hends
    refine ⟨out, inp', ⟨w, c, q, hw, hc, hgone, hline, by rw [hpin]⟩, ?_⟩
    simpa [hline, canRead, hpin] using hno
  · rintro ⟨out, inp, ⟨w', c, q, hw', hc, hgone, hline, rfl⟩, htcp⟩
    obtain rfl : w = w' := Option.some.inj (hw.symm.trans hw')
    obtain ⟨-, out', inp', ⟨q', -, hends, hpin⟩, -⟩ := hs.wired.left c _ hline hgone
    cases hends
    rw [hpin] at htcp
    exact ⟨c, hc, by simp [hline, canRead, hpin, htcp]⟩

theorem Mirrors.canPaint (hs : Mirrors (.none s.m_pipeline) s) (hinv : s.m_pipeline.Inv)
    {item : GraphicsItem} (hitem : item ∈ s.items) : s.canPaint item = true := by
  cases item with
  | element p => rfl
  | line c =>
    obtain ⟨k, hk⟩ := (hs.lines c (Set.notMem_empty c)).mp hitem
    obtain ⟨out, inp, hl⟩ := hinv.linked k c hk
    obtain ⟨q, hline, hread⟩ := hs.canRead_drawn
      (hs.wired.drawn k c out inp (Set.notMem_empty c) hk hl.conn)
    simp [PipelineScene.canPaint, hline, hread]

/-- The scene shows what is in the pipeline, and nothing else. -/
structure Shows (s : PipelineScene) : Prop where
  consistent : s.m_pipeline.Consistent
  elements : ∀ p, .element p ∈ s.items ↔ s.m_pipeline.IsChild p
  lines : ∀ c, .line c ∈ s.items ↔ s.m_pipeline.HasConnection c
  /-- the pins of an element have their widgets -/
  pins : ∀ p, s.m_pipeline.IsChild p → ∃ w, s.elementWidgets p = some w ∧
    (∀ i, i ∈ w.inputPinWidgets ↔ (s.m_pipeline.inputPin ⟨p, i⟩).isSome) ∧
    ∀ i, i ∈ w.outputPinWidgets ↔ (s.m_pipeline.outputPin ⟨p, i⟩).isSome
  /-- a line ends at the widgets of its pins, and they are there -/
  drawn : ∀ (k : Int) c out inp, s.m_pipeline.m_connections[k]? = some c →
    s.m_pipeline.conns c = ⟨k, some out, some inp⟩ → s.Drawn c out inp ∧ s.canPaint (.line c)
  /-- a line that is kept is that of an element which was removed -/
  kept : ∀ p out inp, s.m_pipeline.IsChild p → s.KeepsLine p out inp →
    p = out.owner ∧ ¬ s.m_pipeline.IsChild inp.owner ∨
      p = inp.owner ∧ ¬ s.m_pipeline.IsChild out.owner

theorem Mirrors.shows (hs : Mirrors (.none s.m_pipeline) s) (hinv : s.m_pipeline.Inv) :
    s.Shows where
  consistent := hinv.consistent
  elements p := (hs.elements p).trans (and_iff_left (Set.notMem_empty p))
  lines c := hs.lines c (Set.notMem_empty c)
  pins p hp := by
    obtain ⟨w, hw⟩ := Option.isSome_iff_exists.mp (hs.fitted.widget p hp (Set.notMem_empty p))
    refine ⟨w, hw, fun i => ?_, hs.fitted.outputs p w hw⟩
    exact (hs.fitted.inputs p w hw i).trans (and_iff_left (Set.notMem_empty _))
  drawn k c out inp hk hconn := by
    refine ⟨hs.wired.drawn k c out inp (Set.notMem_empty c) hk hconn, hs.canPaint hinv ?_⟩
    exact (hs.lines c (Set.notMem_empty c)).mpr ⟨k, hk⟩
  kept _ _ _ hp hkeeps := hs.keepsLine hp hkeeps

/-- A selection with an element before one of its lines is deleted, or an element is moved that
was connected to a TCPServerProcessor, or was one, when the other end was removed. -/
def Crashes (s : PipelineScene) : SceneEvent → Prop
  | .deleteSelected selectedItems =>
    s.isRunning = false ∧ ¬ LinesFirst s.m_pipeline selectedItems
  | .move p => ∃ out inp, s.KeepsLine p out inp ∧
    (s.m_pipeline.elems inp.owner).isTCPServer = true
  | .drop _ | .press _ | .release _ | .paint | .setRunning _ => False

theorem Mirrors.step (hs : Mirrors (.none s.m_pipeline) s) (hinv : s.m_pipeline.Inv)
    {event : SceneEvent} (hallowed : s.Allowed event) :
    (s.step isRegistered h event = none ↔ s.Crashes event) ∧
      ∀ t, s.step isRegistered h event = some t →
        t.m_pipeline.Inv ∧ Mirrors (.none t.m_pipeline) t := by
  have hdone {result : Option PipelineScene} (hsome : ∃ t, result = some t ∧ t.m_pipeline.Inv ∧
      Mirrors (.none t.m_pipeline) t) : (result = none ↔ False) ∧
        ∀ t, result = some t → t.m_pipeline.Inv ∧ Mirrors (.none t.m_pipeline) t := by
    obtain ⟨t, rfl, hinv', hmirrors⟩ := hsome
    refine ⟨iff_of_false (Option.some_ne_none _) id, fun t' ht' => ?_⟩
    cases ht'
    exact ⟨hinv', hmirrors⟩
  cases event with
  | drop p => exact hdone (hs.dropEvent hinv hallowed)
  | press out => exact hdone ⟨_, rfl, hinv, hs.aside s.isRunning (some out)⟩
  | release targets => exact hdone (hs.mouseReleaseEvent hinv hallowed)
  | setRunning isRunning => exact hdone ⟨_, rfl, hinv, hs.aside isRunning s.line⟩
  | paint =>
    refine hdone ⟨s, ?_, hinv, hs⟩
    change (if _ then some s else none) = some s
    rw [if_pos]
    exact fun item hitem => hs.canPaint hinv hitem
  | move p =>
    have hp := ((hs.elements p).mp hallowed).1
    refine ⟨hs.itemChange hinv hp, fun t ht => ?_⟩
    obtain rfl : s = t := by
      change s.itemChange p = some t at ht
      unfold PipelineScene.itemChange at ht
      split at ht
      · cases ht
      · split at ht
        · exact Option.some.inj ht
        · cases ht
    exact ⟨hinv, hs⟩
  | deleteSelected selectedItems =>
    obtain ⟨hn, hshown⟩ := hallowed
    have hpresent : ∀ item ∈ selectedItems, Present s.m_pipeline item := by
      intro item hmem
      cases item with
      | element p => exact ((hs.elements p).mp (hshown _ hmem)).1
      | line c => exact (hs.lines c (Set.notMem_empty c)).mp (hshown _ hmem)
    change (s.deleteSelected h selectedItems = none ↔ _ ∧ _) ∧
      ∀ t, s.deleteSelected h selectedItems = some t → _
    unfold PipelineScene.deleteSelected
    cases hrunning : s.isRunning with
    | true =>
      rw [if_pos rfl]
      refine ⟨iff_of_false (Option.some_ne_none _) fun hand => Bool.noConfusion hand.1, ?_⟩
      rintro t ⟨⟩
      exact ⟨hinv, hs⟩
    | false =>
      rw [if_neg Bool.false_ne_true]
      obtain ⟨hgood, hbad⟩ := hs.removeAll (h := h) hinv hn hpresent
      by_cases hfirst : LinesFirst s.m_pipeline selectedItems
      · obtain ⟨t, ht, hinv', hmirrors⟩ := hgood hfirst
        rw [ht]
        refine ⟨iff_of_false (Option.some_ne_none _) fun hand => hand.2 hfirst, ?_⟩
        rintro t' ⟨⟩
        exact ⟨hinv', hmirrors⟩
      · rw [hbad hfirst]
        exact ⟨iff_of_true rfl ⟨rfl, hfirst⟩, fun t ht => by cases ht⟩

/-- A scene that is given a pipeline shows it whatever the user does, as long as a line is let go
while the element it was drawn from is still in the scene. There are two ways in which it reads what
was deleted. -/
theorem scene_shows (isRegistered : Int → Bool) (h : HashOrder Int) {elems : ElemPtr → Element}
    (he : ∀ p, (elems p).Constructed) (m_changed : Bool) {es : List Edit}
    (ha : Pipeline.AllowedRun isRegistered h es (.new elems m_changed)) :
    ∃ pipeline s₀, Pipeline.edits isRegistered h es (.new elems m_changed) = some pipeline ∧
      setPipeline h pipeline = some s₀ ∧
      ∀ s, Reaches (step isRegistered h) Allowed s₀ s → s.Shows ∧
        ∀ event, s.Allowed event → (s.step isRegistered h event = none ↔ s.Crashes event) := by
  obtain ⟨pipeline, hedits, hinv, -⟩ := (Pipeline.Inv.new he m_changed).edits h ha
  obtain ⟨s₀, hs₀, rfl, -, hmirrors⟩ := setPipeline_mirrors hinv h
  refine ⟨_, s₀, hedits, hs₀, fun s hr => ?_⟩
  have hgood : s.m_pipeline.Inv ∧ Mirrors (.none s.m_pipeline) s := by
    refine hr.invariant (I := fun s => s.m_pipeline.Inv ∧ Mirrors (.none s.m_pipeline) s)
      ⟨hinv, hmirrors⟩ fun s event t hs hallowed ht => ?_
    exact (hs.2.step hs.1 hallowed).2 t ht
  exact ⟨hgood.2.shows hgood.1, fun event hallowed => (hgood.2.step hgood.1 hallowed).1⟩

def connectAndDelete : List SceneEvent :=
  [.drop 0, .drop 1, .press ⟨0, 0⟩, .release [⟨1, 0⟩], .move 1, .deleteSelected [.element 0]]

/-- The processor cannot be moved any more. -/
theorem scene_shows_moved :
    ∃ s : PipelineScene, s.Shows ∧ s.Allowed (.move 1) ∧ s.Crashes (.move 1) := by
  have hempty :
      Pipeline.AllowedRun (fun _ => true) (.ascending Int) []
        (.new Pipeline.sourceAndTcpServer false) := trivial
  obtain ⟨pipeline, s₀, hedits, hs₀, hall⟩ :=
    scene_shows (fun _ => true) (.ascending Int) Pipeline.sourceAndTcpServer_constructed false hempty
  cases hedits
  have hend : ((setPipeline (.ascending Int) (.new Pipeline.sourceAndTcpServer false)).bind fun s =>
      run (guarded (step (fun _ => true) (.ascending Int)) Allowed) s connectAndDelete).map
      (fun s => (decide (.element 1 ∈ s.items),
        (s.step (fun _ => true) (.ascending Int) (.move 1)).isNone)) = some (true, true) := by
    decide +kernel
  rw [hs₀, Option.bind_some] at hend
  obtain ⟨s, hs, hview⟩ := Option.map_eq_some_iff.mp hend
  obtain ⟨hitem, hnone⟩ := Prod.mk.inj hview
  obtain ⟨hshows, hcrashes⟩ := hall s (.of_guarded_run hs)
  have hallowed : s.Allowed (.move 1) := of_decide_eq_true hitem
  exact ⟨s, hshows, hallowed, (hcrashes _ hallowed).mp (Option.isNone_iff_eq_none.mp hnone)⟩

end PipelineScene

end ParleVision.Gui
