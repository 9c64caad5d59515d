import ParleVision.Loader.FailedLoad

namespace ParleVision.Loader
open Lib ParleVision.Graph

/-- A pipeline that is edited, and the files it is loaded from and saved to. -/
structure Session (P : Type) where
  pipeline : Pipeline P
  files : String → File

inductive Call (P : Type) where
  | edit (e : Edit)
  /-- a setter of the element, with what its properties are afterwards -/
  | setProperty (p : ElemPtr) (props : P)
  | load (filename : String)
  | save (canOpen : Bool)
  | saveAs (filename : String) (canOpen : Bool)

def Call.saves : Call P → Bool
  | .save _ | .saveAs _ _ => true
  | .edit _ | .setProperty _ _ | .load _ => false

namespace Session

def new (elems : ElemPtr → Element) (m_changed : Bool) (props : ElemPtr → P) (nextElem : ElemPtr)
    (files : String → File) : Session P :=
  ⟨⟨.new elems m_changed, props, nextElem, ""⟩, files⟩

section Runs
variable (R : Registry P) (h : HashOrder Int)

/-- One call and what it returns, true where it returns nothing. -/
def call (σ : Session P) : Call P → Option (Session P × Bool)
  | .edit e => (σ.pipeline.edit R.isRegistered h e).map fun g =>
      (⟨{ σ.pipeline with toPipeline := g }, σ.files⟩, true)
  | .setProperty p props =>
    some (⟨{ σ.pipeline with props := Function.update σ.pipeline.props p props }, σ.files⟩, true)
  | .load filename => (σ.pipeline.load R σ.files filename).map fun r => (⟨r.1, σ.files⟩, r.2)
  | .save canOpen =>
    let r := σ.pipeline.save R σ.files canOpen
    some (⟨r.1, r.2.1⟩, r.2.2)
  | .saveAs filename canOpen =>
    let r := σ.pipeline.saveAs R σ.files canOpen filename
    some (⟨r.1, r.2.1⟩, r.2.2)

def calls : List (Call P) → Session P → Option (Session P)
  | [], σ => some σ
  | c :: cs, σ => (σ.call R h c).bind fun r => calls cs r.1

def Allowed (σ : Session P) : Call P → Prop
  | .edit e => σ.pipeline.Allowed e
  | .setProperty _ _ | .load _ | .save _ | .saveAs _ _ => True

def EachCall (Q : Session P → Call P → Prop) : List (Call P) → Session P → Prop
  | [], _ => True
  | c :: cs, σ => Q σ c ∧ ∀ σ' b, σ.call R h c = some (σ', b) → EachCall Q cs σ'

def AllowedRun : List (Call P) → Session P → Prop := EachCall R h Allowed

/-- The file with the pipeline's file name holds the pipeline. -/
def Written (σ : Session P) : Prop :=
  ∃ doc, σ.pipeline.serialize R = some doc ∧ σ.files σ.pipeline.m_filename = .document doc

def Marks (σ : Session P) : Call P → Prop
  | .edit (.addElement _) | .edit .clear => True
  | .edit (.removeElement id) => id ∈ σ.pipeline.m_children
  | .load filename => σ.pipeline.isEmpty = true ∧ ∃ x xs ys,
      σ.files filename = .document ⟨x :: xs, ys⟩ ∧ R.construct x.name ≠ none
  | .edit (.connectPins _ _) | .edit (.pinConnectionDisconnect _) | .setProperty _ _ | .save _
  | .saveAs _ _ => False

/-- Afterwards a file holds the pipeline if and only if one did before. -/
def Harmless (σ : Session P) : Call P → Prop
  | .edit (.removeElement id) => id ∉ σ.pipeline.m_children
  | .edit (.connectPins out inp) => inp.owner = out.owner ∨
      ∀ o i, σ.pipeline.outputPin out = some o → σ.pipeline.inputPin inp = some i →
        i.m_connection ≠ none ∨ i.agreeOnType R.isRegistered o = none
  | .edit (.pinConnectionDisconnect id) => id ∉ σ.pipeline.m_connections
  | .setProperty p props => R.texts (σ.pipeline.elems p).className props =
      R.texts (σ.pipeline.elems p).className (σ.pipeline.props p)
  | .load filename => σ.pipeline.isEmpty = false ∨ σ.files filename = .document ⟨[], []⟩
  | .save _ => True
  | .saveAs filename _ => σ.files filename = σ.files σ.pipeline.m_filename
  | .edit (.addElement _) | .edit .clear => False

/-- The flag is set already, the call sets it, or it need not be set. -/
def Covered (σ : Session P) (c : Call P) : Prop :=
  σ.pipeline.m_changed = true ∨ σ.Marks R c ∨ σ.Harmless R c

def CoveredRun : List (Call P) → Session P → Prop := EachCall R h (Covered R)

end Runs

theorem mapM_congr_option {f g : α → Option β} {l : List α} (h : ∀ a ∈ l, f a = g a) :
    l.mapM f = l.mapM g := by
  induction l with
  | nil => rfl
  | cons a l ih =>
    rw [List.mapM_cons, List.mapM_cons, h a (by simp), ih fun b hb => h b (by simp [hb])]

theorem serialize_congr {R : Registry P} {s t : Pipeline P} (hp : t.m_children = s.m_children)
    (hc : t.m_connections = s.m_connections)
    (hx : ∀ p, t.serializeElement R p = s.serializeElement R p)
    (hy : ∀ (k : Int) c, s.m_connections[k]? = some c →
      serializeConnection t.toPipeline c = serializeConnection s.toPipeline c) :
    t.serialize R = s.serialize R := by
  unfold Pipeline.serialize
  have hys : (valuesOf s.m_connections).mapM (serializeConnection t.toPipeline) =
      (valuesOf s.m_connections).mapM (serializeConnection s.toPipeline) := by
    apply mapM_congr_option
    intro c hm
    obtain ⟨k, hk⟩ := mem_valuesOf.mp hm
    exact hy k c hk
  rw [hp, hc, mapM_congr_option fun p _ => hx p, hys]

section Load
variable {R : Registry P} {s : Pipeline P}

theorem parseElement_changed (x : XmlElement) (hc : s.m_changed = true) :
    (s.parseElement R x).1.m_changed = true := by
  rcases s.parseElement_cases R x with
    ⟨-, hstep⟩ | ⟨e, props, -, ⟨-, -, hstep⟩ | ⟨-, hstep⟩⟩
  · rw [hstep]
    exact hc
  · rw [hstep]
    exact hc
  · rw [hstep]
    rfl

theorem parseElements_changed (xs : List XmlElement) (hc : s.m_changed = true) :
    (Pipeline.parseElements R xs s).1.m_changed = true := by
  induction xs generalizing s with
  | nil => exact hc
  | cons x xs ih =>
    have hx := parseElement_changed (R := R) x hc
    unfold Pipeline.parseElements
    split
    · rename_i t hstep
      rw [hstep] at hx
      exact ih hx
    · rename_i t e hstep
      rw [hstep] at hx
      exact hx

theorem parseConnection_changed {y : XmlConnection} {t : Pipeline P}
    {r : Except Pipeline.LoadError Unit} (hstep : s.parseConnection R y = some (t, r))
    (hc : s.m_changed = true) : t.m_changed = true := by
  by_cases h : ∃ out inp o i i', Pipeline.Connectable R s y out inp o i i'
  · obtain ⟨out, inp, o, i, i', hcon⟩ := h
    rw [Pipeline.parseConnection_ok hcon] at hstep
    cases hstep
    obtain ⟨-, hag⟩ := Graph.Pipeline.agreeOnType_again hcon.free hcon.type
    refine (Graph.Pipeline.connected_keeps ?_ ?_ hag).changed hc
    · exact (Graph.Pipeline.outputPin_setInputPin s.toPipeline inp out i').trans hcon.output
    · exact (Graph.Pipeline.inputPin_setInputPin s.toPipeline inp inp i').trans (if_pos rfl)
  · obtain ⟨e, he⟩ := Pipeline.parseConnection_error fun out inp o i i' hcon =>
      h ⟨out, inp, o, i, i', hcon⟩
    rw [he] at hstep
    cases hstep
    exact hc

theorem parseConnections_changed {ys : List XmlConnection} {t : Pipeline P}
    {r : Except Pipeline.LoadError Unit}
    (hrun : Pipeline.parseConnections R ys s = some (t, r)) (hc : s.m_changed = true) :
    t.m_changed = true := by
  induction ys generalizing s with
  | nil =>
    cases hrun
    exact hc
  | cons y ys ih =>
    unfold Pipeline.parseConnections at hrun
    split at hrun
    · cases hrun
    · rename_i s' hstep
      exact ih hrun (parseConnection_changed hstep hc)
    · rename_i s' e hstep
      cases hrun
      exact parseConnection_changed hstep hc

theorem deserialize_changed {doc : Document} {t : Pipeline P}
    {r : Except Pipeline.LoadError Unit} (hrun : s.deserialize R doc = some (t, r))
    (hc : (Pipeline.parseElements R doc.elements s).1.m_changed = true) : t.m_changed = true := by
  unfold Pipeline.deserialize at hrun
  split at hrun
  · rename_i s' e hstep
    rw [hstep] at hc
    cases hrun
    exact hc
  · rename_i s' hstep
    rw [hstep] at hc
    exact parseConnections_changed hrun hc

/-- The first element of a document sets the flag when it can be made. -/
theorem parseElements_marks (hempty : s.m_children = ∅) {x : XmlElement} (xs : List XmlElement)
    (hx : R.construct x.name ≠ none) :
    (Pipeline.parseElements R (x :: xs) s).1.m_changed = true := by
  rcases s.parseElement_cases R x with
    ⟨hnone, -⟩ | ⟨e, props, -, ⟨-, hused, -⟩ | ⟨-, hstep⟩⟩
  · exact absurd hnone hx
  · simp [hempty] at hused
  · simp only [Pipeline.parseElements, hstep]
    exact parseElements_changed xs rfl

end Load

section Steps
variable {R : Registry P} {h : HashOrder Int} {σ σ' : Session P} {b : Bool}

/-- While the flag is clear the file is up to date. -/
def Tracked (R : Registry P) (σ : Session P) : Prop :=
  σ.pipeline.m_changed = false → σ.Written R

theorem Tracked.of_changed (hc : σ.pipeline.m_changed = true) : σ.Tracked R := by
  intro hf
  rw [hc] at hf
  cases hf

/-- Another pipeline with the same texts, file name and files. -/
theorem Tracked.congr (hσ : σ.Tracked R)
    (hn : σ'.files σ'.pipeline.m_filename = σ.files σ.pipeline.m_filename)
    (hx : σ'.pipeline.serialize R = σ.pipeline.serialize R)
    (hc : σ.pipeline.m_changed = true → σ'.pipeline.m_changed = true) : σ'.Tracked R := by
  intro hfalse
  have hclear : σ.pipeline.m_changed = false := by
    by_contra hne
    rw [hc (by simpa using hne)] at hfalse
    cases hfalse
  obtain ⟨doc, hdoc, hfile⟩ := hσ hclear
  exact ⟨doc, hx.trans hdoc, hn.trans hfile⟩

/-- A save writes the file and clears the flag, or returns what the flag says. -/
theorem save_cases {s t : Pipeline P} {files files' : String → File} {canOpen : Bool}
    (hs : s.save R files canOpen = (t, files', b)) :
    (s.m_changed = false ∧ t = s ∧ files' = files) ∨
    (s.m_changed = true ∧ b = false ∧ t = s) ∨
    (∃ doc, s.serialize R = some doc ∧ t = { s with m_changed := false } ∧
      files' = Function.update files s.m_filename (.document doc)) := by
  unfold Pipeline.save at hs
  cases hc : s.m_changed with
  | false =>
    rw [hc] at hs
    cases hs
    exact .inl ⟨rfl, rfl, rfl⟩
  | true =>
    rw [hc, if_pos rfl] at hs
    cases canOpen with
    | false =>
      cases hs
      exact .inr (.inl ⟨rfl, rfl, rfl⟩)
    | true =>
      simp only [Pipeline.serializeFile, not_true_eq_false, if_false] at hs
      cases hdoc : s.serialize R with
      | none =>
        rw [hdoc] at hs
        cases hs
        exact .inr (.inl ⟨rfl, rfl, rfl⟩)
      | some doc =>
        rw [hdoc] at hs
        cases hs
        exact .inr (.inr ⟨doc, rfl, rfl, rfl⟩)

theorem save_inv {s t : Pipeline P} {files files' : String → File} {canOpen : Bool}
    (hi : s.toPipeline.Inv) (hs : s.save R files canOpen = (t, files', b)) :
    t.toPipeline.Inv := by
  rcases save_cases hs with ⟨-, rfl, -⟩ | ⟨-, -, rfl⟩ | ⟨doc, -, rfl, -⟩
  · exact hi
  · exact hi
  · exact hi.setChanged false

theorem Tracked.save (hσ : σ.Tracked R) {canOpen : Bool} {t : Pipeline P}
    {files : String → File} (hs : σ.pipeline.save R σ.files canOpen = (t, files, b)) :
    Tracked R ⟨t, files⟩ ∧ (b = true → Written R ⟨t, files⟩) := by
  rcases save_cases hs with ⟨hc, rfl, rfl⟩ | ⟨hc, rfl, rfl⟩ | ⟨doc, hdoc, rfl, rfl⟩
  · exact ⟨hσ, fun _ => hσ hc⟩
  · exact ⟨.of_changed hc, fun hf => by cases hf⟩
  · have hw : Written R ⟨{ σ.pipeline with m_changed := false },
        Function.update σ.files σ.pipeline.m_filename (.document doc)⟩ :=
      ⟨doc, hdoc, Function.update_self _ _ _⟩
    exact ⟨fun _ => hw, fun _ => hw⟩

theorem load_tracked (hR : R.Sound) (hi : σ.pipeline.toPipeline.Inv) (filename : String) :
    ∃ t b, σ.pipeline.load R σ.files filename = some (t, b) ∧ t.toPipeline.Inv ∧
      (σ.Tracked R → σ.Covered R (.load filename) → Tracked R ⟨t, σ.files⟩) := by
  by_cases hempty : σ.pipeline.isEmpty = true
  swap
  · exact ⟨σ.pipeline, false, by simp [Pipeline.load, hempty], hi, fun hσ _ => hσ⟩
  have hchildren : σ.pipeline.m_children = ∅ := Std.ExtTreeMap.isEmpty_iff.mp hempty
  obtain ⟨s, hs⟩ : ∃ s : Pipeline P, s = { σ.pipeline with m_filename := filename } := ⟨_, rfl⟩
  have hsound : s.Sound R := by
    subst hs
    exact ⟨hi, by simp [hchildren], by simp [hchildren]⟩
  have hchanged : s.m_changed = σ.pipeline.m_changed := by rw [hs]
  have hsempty : s.m_children = ∅ := by
    rw [hs]
    exact hchildren
  unfold Pipeline.load
  rw [if_neg (by simp [hempty]), ← hs]
  unfold Pipeline.deserializeFile
  have hsame : σ.Covered R (.load filename) → (∀ doc, σ.files filename ≠ .document doc) →
      Tracked R ⟨s, σ.files⟩ := by
    rintro (hc | ⟨-, x, xs, ys, hfile, -⟩ | hf | hfile) hno
    · exact .of_changed (hchanged.trans hc)
    · exact absurd hfile (hno _)
    · rw [hempty] at hf
      cases hf
    · exact absurd hfile (hno _)
  cases hfile : σ.files filename with
  | missing => exact ⟨s, false, rfl, hsound.inv, fun _ hc => hsame hc (by simp [hfile])⟩
  | unreadable => exact ⟨s, false, rfl, hsound.inv, fun _ hc => hsame hc (by simp [hfile])⟩
  | document doc =>
    obtain ⟨t, r, hrun, ht⟩ : ∃ t r, s.deserialize R doc = some (t, r) ∧ t.toPipeline.Inv := by
      rcases hsound.deserialize hR doc with ⟨t, hrun, ht⟩ | ⟨-, -, t, e, hrun, -, ht, -⟩
      · exact ⟨t, _, hrun, ht.inv⟩
      · exact ⟨t, _, hrun, ht.inv⟩
    refine ⟨t, r.isOk, ?_, ht, ?_⟩
    · dsimp only
      rw [hrun]
      cases r <;> rfl
    rintro - (hc | ⟨-, x, xs, ys, hdoc, hx⟩ | hf | hdoc)
    · exact .of_changed
        (deserialize_changed hrun (parseElements_changed _ (hchanged.trans hc)))
    · rw [hfile] at hdoc
      cases hdoc
      exact .of_changed (deserialize_changed hrun (parseElements_marks hsempty xs hx))
    · rw [hempty] at hf
      cases hf
    · -- the file says that there is nothing, and there is nothing
      rw [hfile] at hdoc
      cases hdoc
      cases hrun
      intro _
      refine ⟨⟨[], []⟩, ?_, ?_⟩
      · simp [Pipeline.serialize, hsempty, hsound.inv.no_connections hsempty]
      · rw [hs]
        exact hfile

/-- An edit that sets the flag. -/
theorem edit_marks {e : Edit} {t : Graph.Pipeline}
    (he : σ.pipeline.edit R.isRegistered h e = some t) (hm : σ.Marks R (.edit e)) :
    t.m_changed = true := by
  cases e with
  | addElement p =>
    cases he
    rfl
  | removeElement id =>
    obtain ⟨p, hp⟩ := Option.isSome_iff_exists.mp (Std.ExtTreeMap.mem_iff_isSome_getElem?.mp hm)
    simp only [Graph.Pipeline.edit, Graph.Pipeline.removeElement, hp, Option.bind_eq_bind,
      Option.bind_eq_some_iff] at he
    obtain ⟨s, -, he⟩ := he
    cases he
    rfl
  | clear =>
    simp only [Graph.Pipeline.edit, Graph.Pipeline.clear, Option.bind_eq_bind,
      Option.bind_eq_some_iff] at he
    obtain ⟨s, -, s', -, he⟩ := he
    cases he
    rfl
  | connectPins out inp => cases hm
  | pinConnectionDisconnect id => cases hm

/-- An edit that need not set it. -/
theorem edit_harmless (hi : σ.pipeline.toPipeline.Inv) {e : Edit} {t : Graph.Pipeline}
    (ha : σ.pipeline.Allowed e) (he : σ.pipeline.edit R.isRegistered h e = some t)
    (hm : σ.Harmless R (.edit e)) :
    Pipeline.serialize R { σ.pipeline with toPipeline := t } = σ.pipeline.serialize R ∧
      t.m_changed = σ.pipeline.m_changed := by
  cases e with
  | addElement p => cases hm
  | removeElement id =>
    have hnone := Std.ExtTreeMap.getElem?_eq_none hm
    simp only [Graph.Pipeline.edit, Graph.Pipeline.removeElement, hnone] at he
    cases he
    exact ⟨rfl, rfl⟩
  | clear => cases hm
  | connectPins out inp =>
    obtain ⟨⟨o, ho⟩, ⟨i, hin⟩, -, -⟩ := ha
    have hbad : inp.owner = out.owner ∨ i.m_connection ≠ none ∨
        i.agreeOnType R.isRegistered o = none := by
      rcases hm with hown | hm
      · exact .inl hown
      · exact .inr (hm o i ho hin)
    obtain ⟨e, hconnect⟩ := Graph.Pipeline.connectPins_error ho hin hbad
    simp only [Graph.Pipeline.edit, hconnect, Option.map_some] at he
    cases he
    refine ⟨serialize_congr rfl rfl (fun _ => rfl) ?_, rfl⟩
    intro k c hk
    have hne : c ≠ σ.pipeline.nextConn := Nat.ne_of_lt (hi.allocated k c hk)
    simp [serializeConnection, Graph.Pipeline.newConnection, hne, Graph.Pipeline.inputPin,
      Graph.Pipeline.outputPin]
  | pinConnectionDisconnect id =>
    have hnone := Std.ExtTreeMap.getElem?_eq_none hm
    rw [Graph.Pipeline.edit, Graph.Pipeline.pinConnectionDisconnect,
      Graph.Pipeline.threadUnsafeDisconnect_unknown hnone] at he
    cases he
    exact ⟨rfl, rfl⟩

/-- Every call of a covered run keeps the flag right, and a save that succeeds has saved. -/
theorem Tracked.call (hR : R.Sound) (hi : σ.pipeline.toPipeline.Inv) {c : Call P}
    (ha : σ.Allowed c) : ∃ σ' b, σ.call R h c = some (σ', b) ∧ σ'.pipeline.toPipeline.Inv ∧
      (σ.Tracked R → σ.Covered R c → σ'.Tracked R ∧ (c.saves = true → b = true → σ'.Written R)) := by
  cases c with
  | edit e =>
    obtain ⟨t, ht, hi', hk⟩ : ∃ t, σ.pipeline.edit R.isRegistered h e = some t ∧ t.Inv ∧
      Graph.Pipeline.Keeps R.isRegistered σ.pipeline.toPipeline t := hi.edit h ha
    refine ⟨⟨{ σ.pipeline with toPipeline := t }, σ.files⟩, true, by simp [Session.call, ht], hi', ?_⟩
    rintro hσ (hc | hm | hm)
    · exact ⟨.of_changed (hk.changed hc), fun hf => by cases hf⟩
    · exact ⟨.of_changed (edit_marks ht hm), fun hf => by cases hf⟩
    · obtain ⟨hx, hc⟩ := edit_harmless hi ha ht hm
      exact ⟨hσ.congr rfl hx hc.trans, fun hf => by cases hf⟩
  | setProperty p props =>
    refine ⟨_, true, rfl, hi, ?_⟩
    rintro hσ (hc | hm | hm)
    · exact ⟨.of_changed hc, fun hf => by cases hf⟩
    · cases hm
    · refine ⟨hσ.congr rfl ?_ id, fun hf => by cases hf⟩
      refine serialize_congr rfl rfl ?_ (fun _ _ _ => rfl)
      intro q
      by_cases hq : q = p
      · subst q
        have hm' : R.texts (σ.pipeline.elems p).className props = _ := hm
        simp [Pipeline.serializeElement, hm']
      · simp [Pipeline.serializeElement, hq]
  | load filename =>
    obtain ⟨t, b, ht, hi', htracked⟩ := load_tracked hR hi filename
    refine ⟨⟨t, σ.files⟩, b, by simp [Session.call, ht], hi', ?_⟩
    exact fun hσ hc => ⟨htracked hσ hc, fun hf => by cases hf⟩
  | save canOpen =>
    obtain ⟨t, files, b, hs⟩ : ∃ t files b, σ.pipeline.save R σ.files canOpen = (t, files, b) :=
      ⟨_, _, _, rfl⟩
    refine ⟨⟨t, files⟩, b, by simp [Session.call, hs], save_inv hi hs, ?_⟩
    intro hσ _
    obtain ⟨htracked, hwritten⟩ := hσ.save hs
    exact ⟨htracked, fun _ => hwritten⟩
  | saveAs filename canOpen =>
    obtain ⟨s, hs⟩ : ∃ s : Pipeline P, s = if σ.pipeline.m_filename ≠ filename then
      { σ.pipeline with m_filename := filename } else σ.pipeline := ⟨_, rfl⟩
    have hs' : s = { σ.pipeline with m_filename := filename } := by
      rw [hs]
      split
      · rfl
      · rename_i hname
        rw [not_not] at hname
        rw [← hname]
    obtain ⟨t, files, b, hsave⟩ : ∃ t files b, s.save R σ.files canOpen = (t, files, b) :=
      ⟨_, _, _, rfl⟩
    have hi' : s.toPipeline.Inv := by
      rw [hs']
      exact hi
    refine ⟨⟨t, files⟩, b, ?_, save_inv hi' hsave, ?_⟩
    · simp [Session.call, Pipeline.saveAs, ← hs, hsave]
    intro hσ hc
    have hσ' : Tracked R ⟨s, σ.files⟩ := by
      rw [hs']
      rcases hc with hc | hm | hm
      · exact .of_changed hc
      · cases hm
      · exact hσ.congr hm rfl id
    obtain ⟨htracked, hwritten⟩ := hσ'.save hsave
    exact ⟨htracked, fun _ => hwritten⟩

end Steps

/-- Calls that a save may come after: the flag is set, or the file is up to date. -/
theorem Tracked.calls {R : Registry P} (hR : R.Sound) {h : HashOrder Int} {cs : List (Call P)}
    {σ : Session P} (hi : σ.pipeline.toPipeline.Inv) (ha : AllowedRun R h cs σ)
    (hσ : σ.Tracked R) (hc : CoveredRun R h cs σ) :
    ∃ σ', Session.calls R h cs σ = some σ' ∧ σ'.pipeline.toPipeline.Inv ∧ σ'.Tracked R := by
  induction cs generalizing σ with
  | nil => exact ⟨σ, rfl, hi, hσ⟩
  | cons c cs ih =>
    obtain ⟨σ₁, b, hstep, hi₁, htracked⟩ := Tracked.call (h := h) hR hi ha.1
    obtain ⟨σ', hrun, hi', hσ'⟩ := ih hi₁ (ha.2 σ₁ b hstep) (htracked hσ hc.1).1 (hc.2 σ₁ b hstep)
    exact ⟨σ', by simp [Session.calls, hstep, hrun], hi', hσ'⟩

theorem Inv.calls {R : Registry P} (hR : R.Sound) {h : HashOrder Int} {cs : List (Call P)}
    {σ : Session P} (hi : σ.pipeline.toPipeline.Inv) (ha : AllowedRun R h cs σ) :
    ∃ σ', Session.calls R h cs σ = some σ' ∧ σ'.pipeline.toPipeline.Inv := by
  induction cs generalizing σ with
  | nil => exact ⟨σ, rfl, hi⟩
  | cons c cs ih =>
    obtain ⟨σ₁, b, hstep, hi₁, -⟩ := Tracked.call (h := h) hR hi ha.1
    obtain ⟨σ', hrun, hi'⟩ := ih hi₁ (ha.2 σ₁ b hstep)
    exact ⟨σ', by simp [Session.calls, hstep, hrun], hi'⟩

end Session

end ParleVision.Loader
