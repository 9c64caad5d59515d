import ParleVision.Loader.Save
import ParleVision.Properties.Setters

namespace ParleVision.Loader
open Lib ParleVision.Graph

abbrev Disk : Type := String → Option String

/-- All getters give a text, and no connection has lost a pin. -/
def Pipeline.Writable (R : Registry P) (s : Pipeline P) : Prop :=
  (∀ p ∈ valuesOf s.m_children, (R.texts (s.elems p).className (s.props p)).isSome) ∧
    ∀ c ∈ valuesOf s.m_connections, (serializeConnection s.toPipeline c).isSome

namespace Disk
section
variable (R : Registry P) (toString : Document → String) (disk : Disk) (canOpen : Bool)

/-- `PipelineLoader::serialize` to a file: it is opened, which empties it, before the document
is built. -/
def serialize (s : Pipeline P) : Disk × Bool :=
  if ¬ canOpen then (disk, false)
  else
    let disk := Function.update disk s.m_filename (some "")
    match s.serialize R with
    | none => (disk, false)
    | some doc => (Function.update disk s.m_filename (some (toString doc)), true)

def save (s : Pipeline P) : Pipeline P × Disk × Bool :=
  if s.m_changed then
    match serialize R toString disk canOpen s with
    | (disk, true) => ({ s with m_changed := false }, disk, true)
    | (disk, false) => (s, disk, false)
  else (s, disk, true)

def saveAs (filename : String) (s : Pipeline P) : Pipeline P × Disk × Bool :=
  let s := if s.m_filename ≠ filename then { s with m_filename := filename } else s
  save R toString disk canOpen s

end

def view (parse : String → Document) (disk : Disk) (filename : String) : File :=
  match disk filename with
  | none => .missing
  | some text => .document (parse text)

theorem view_update (parse : String → Document) (disk : Disk) (filename text : String) :
    view parse (Function.update disk filename (some text)) =
      Function.update (view parse disk) filename (.document (parse text)) := by
  funext name
  unfold view
  by_cases hname : name = filename
  · subst hname
    rw [Function.update_self, Function.update_self]
  · rw [Function.update_of_ne hname, Function.update_of_ne hname]

section
variable {R : Registry P} {toString : Document → String} {parse : String → Document}

/-- Seen as documents this is the save of the other modules. -/
theorem view_save (hparse : ∀ doc, parse (toString doc) = doc) (hempty : parse "" = ⟨[], []⟩)
    (disk : Disk) (canOpen : Bool) (s : Pipeline P) :
    s.save R (view parse disk) canOpen =
      ((save R toString disk canOpen s).1, view parse (save R toString disk canOpen s).2.1,
        (save R toString disk canOpen s).2.2) := by
  unfold Pipeline.save save
  by_cases hchanged : s.m_changed
  · rw [if_pos hchanged, if_pos hchanged]
    unfold Pipeline.serializeFile serialize
    cases canOpen with
    | false => rfl
    | true =>
      cases hdoc : s.serialize R with
      | none => simp [view_update, hempty]
      | some doc => simp [view_update, hparse]
  · rw [if_neg hchanged, if_neg hchanged]

end

theorem mapM_isSome_iff {f : α → Option β} (l : List α) :
    (l.mapM f).isSome ↔ ∀ a ∈ l, (f a).isSome := by
  induction l with
  | nil => simp
  | cons a l ih =>
    rw [List.mapM_cons, List.forall_mem_cons, ← ih]
    cases f a with
    | none => simp
    | some b => cases l.mapM f <;> simp

theorem serialize_isSome_iff (R : Registry P) (s : Pipeline P) :
    (s.serialize R).isSome ↔ s.Writable R := by
  have helements := mapM_isSome_iff (f := s.serializeElement R) (valuesOf s.m_children)
  have hconnections :=
    mapM_isSome_iff (f := serializeConnection s.toPipeline) (valuesOf s.m_connections)
  have htexts : ∀ p, (s.serializeElement R p).isSome =
      (R.texts (s.elems p).className (s.props p)).isSome := by
    intro p
    unfold Pipeline.serializeElement
    rw [Option.isSome_map]
  simp only [htexts] at helements
  unfold Pipeline.Writable
  rw [← helements, ← hconnections]
  unfold Pipeline.serialize
  cases (valuesOf s.m_children).mapM (s.serializeElement R) with
  | none => simp
  | some elements =>
    cases (valuesOf s.m_connections).mapM (serializeConnection s.toPipeline) <;> simp

theorem save_keeps (R : Registry P) (toString : Document → String) (disk : Disk) (canOpen : Bool)
    (s : Pipeline P) :
    ((save R toString disk canOpen s).2.2 = false →
        (save R toString disk canOpen s).2.1 s.m_filename = disk s.m_filename) ↔
      (s.m_changed = true → canOpen = true → ¬ s.Writable R → disk s.m_filename = some "") := by
  unfold save
  by_cases hchanged : s.m_changed = true
  case neg =>
    rw [if_neg hchanged]
    exact iff_of_true (fun h => by cases h) (fun h => absurd h hchanged)
  rw [if_pos hchanged]
  unfold serialize
  cases canOpen with
  | false => exact iff_of_true (fun _ => rfl) (fun _ h => by cases h)
  | true =>
    rw [← serialize_isSome_iff]
    cases hdoc : s.serialize R with
    | none => simp [hchanged, eq_comm]
    | some doc => simp

/-- A failed save keeps the file unless it was opened and a getter throws: then nothing is left
of it. -/
theorem failed_save_keeps (R : Registry P) (toString : Document → String) (disk : Disk)
    (canOpen : Bool) (s : Pipeline P) :
    (((save R toString disk canOpen s).2.2 = false →
        (save R toString disk canOpen s).2.1 s.m_filename = disk s.m_filename) ↔
      (s.m_changed = true → canOpen = true → ¬ s.Writable R → disk s.m_filename = some "")) ∧
    ∀ filename, (((saveAs R toString disk canOpen filename s).2.2 = false →
        (saveAs R toString disk canOpen filename s).2.1 filename = disk filename) ↔
      (s.m_changed = true → canOpen = true → ¬ s.Writable R → disk filename = some "")) := by
  refine ⟨save_keeps R toString disk canOpen s, fun filename => ?_⟩
  have hsave := save_keeps R toString disk canOpen { s with m_filename := filename }
  unfold saveAs
  split
  · exact hsave
  · rename_i hsame
    obtain rfl : s.m_filename = filename := not_not.mp hsame
    exact hsave

def enumElement : Registry Properties.Enum where
  isRegistered _ := true
  construct _ := none
  texts _ e := e.getSelectedItemName.map fun name => [("method", name)]
  setProperty _ e _ _ := e

/-- The enum of the only element has no items; the file was saved before. -/
theorem failed_save_loses : ∃ σ,
    Session.calls enumElement (.ascending Int) [.edit (.addElement 0)]
      (.new (fun _ => Graph.Pipeline.source 5) false (fun _ => ⟨0, []⟩) 1 fun _ => .missing) =
        some σ ∧
    ¬ ((saveAs enumElement (fun _ => "") (fun _ => some "<pipeline/>") true "a.plv"
        σ.pipeline).2.2 = false →
      (saveAs enumElement (fun _ => "") (fun _ => some "<pipeline/>") true "a.plv"
        σ.pipeline).2.1 "a.plv" = some "<pipeline/>") := by
  refine ⟨_, rfl, fun hkept => ?_⟩
  have hlost : some "" = some "<pipeline/>" := hkept rfl
  simp at hlost

end Disk

end ParleVision.Loader
