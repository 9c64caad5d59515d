import ParleVision.Lib.Run
import Mathlib.Data.Finset.Card
import Mathlib.Algebra.Order.Ring.Int
import Mathlib.Tactic.Common

namespace ParleVision.Core
open Lib

structure PipelineElementFactory (C : Type) where
  /-- a null pointer where a constructor was taken away -/
  m_elementConstructors : List (Option C)
  m_nameIdMapping : String → Option Nat

inductive RegistryCall (C : Type) where
  | registerElement (constructor : C)
  | unregisterElement (name : String)

namespace PipelineElementFactory
variable {C : Type}

def empty : PipelineElementFactory C := ⟨[], fun _ => none⟩

/-- `elementId`; nothing when `at` is out of range. -/
def elementId (s : PipelineElementFactory C) (name : String) : Option Int :=
  match s.m_nameIdMapping name with
  | none => some (-1)
  | some id => s.m_elementConstructors[id]?.map fun plec => if plec.isSome then id else -1

/-- `construct( name )`: null, or a new instance from a constructor; nothing when it calls
`construct` on a null pointer. -/
def constructNamed (s : PipelineElementFactory C) (name : String) : Option (Option C) :=
  match s.m_nameIdMapping name with
  | none => some none
  | some id =>
    match s.m_elementConstructors[id]? with
    | some (some plec) => some (some plec)
    | _ => none

/-- `construct( id )`; nothing when `at` is out of range. -/
def construct (s : PipelineElementFactory C) (id : Int) : Option (Option C) :=
  if id < 0 ∨ s.m_elementConstructors.length < id then some none
  else s.m_elementConstructors[id.toNat]?

/-- The constructor of a registered name is deleted; nothing when `at` is out of range. -/
def unregisterElement (s : PipelineElementFactory C) (name : String) :
    Option (PipelineElementFactory C) :=
  match s.m_nameIdMapping name with
  | none => some s
  | some id =>
    match s.m_elementConstructors[id]? with
    | none => none
    | some _ => some { s with m_elementConstructors := s.m_elementConstructors.set id none }

section Names
variable (getClassName : C → String)

/-- A name that is known already makes it `return false`. -/
def registerElement (s : PipelineElementFactory C) (constructor : C) :
    PipelineElementFactory C × Int :=
  if (s.m_nameIdMapping (getClassName constructor)).isSome then (s, 0)
  else
    (⟨s.m_elementConstructors ++ [some constructor],
      Function.update s.m_nameIdMapping (getClassName constructor)
        (some s.m_elementConstructors.length)⟩,
      s.m_elementConstructors.length)

def step (s : PipelineElementFactory C) : RegistryCall C → Option (PipelineElementFactory C)
  | .registerElement constructor => some (s.registerElement getClassName constructor).1
  | .unregisterElement name => s.unregisterElement name

end Names

end PipelineElementFactory

namespace RegistryCall
variable {C : Type} (getClassName : C → String)

/-- The constructors registered under a name after a call. -/
def register (registered : String → Option C) : RegistryCall C → String → Option C
  | .registerElement constructor =>
    match registered (getClassName constructor) with
    | some _ => registered
    | none => Function.update registered (getClassName constructor) (some constructor)
  | .unregisterElement name => Function.update registered name none

def registered (calls : List (RegistryCall C)) : String → Option C :=
  calls.foldl (register getClassName) fun _ => none

def name? : RegistryCall C → Option String
  | .registerElement constructor => some (getClassName constructor)
  | .unregisterElement _ => none

def names (calls : List (RegistryCall C)) : List String := calls.filterMap (name? getClassName)

/-- The name was unregistered after it had been registered. -/
def Gone (calls : List (RegistryCall C)) (name : String) : Prop :=
  Sometime (fun earlier call => call = .unregisterElement name ∧
    name ∈ names getClassName earlier) calls

variable {getClassName}

theorem registered_register (calls : List (RegistryCall C)) (constructor : C) (name : String) :
    registered getClassName (calls ++ [.registerElement constructor]) name =
      if name = getClassName constructor ∧ registered getClassName calls name = none then
        some constructor
      else registered getClassName calls name := by
  have hconcat : registered getClassName (calls ++ [.registerElement constructor]) =
      register getClassName (registered getClassName calls) (.registerElement constructor) := by
    unfold registered
    rw [List.foldl_append]
    rfl
  rw [hconcat]
  cases hknown : registered getClassName calls (getClassName constructor) with
  | some plec =>
    simp only [register, hknown]
    rw [if_neg]
    rintro ⟨rfl, hnone⟩
    rw [hknown] at hnone
    cases hnone
  | none =>
    simp only [register, hknown]
    by_cases hname : name = getClassName constructor
    · rw [hname, Function.update_self, if_pos ⟨rfl, hknown⟩]
    · rw [Function.update_of_ne hname, if_neg (fun h => hname h.1)]

theorem registered_unregister (calls : List (RegistryCall C)) (name name' : String) :
    registered getClassName (calls ++ [.unregisterElement name]) name' =
      if name' = name then none else registered getClassName calls name' := by
  unfold registered
  rw [List.foldl_append]
  exact Function.update_apply _ name none name'

theorem names_register (calls : List (RegistryCall C)) (constructor : C) :
    names getClassName (calls ++ [.registerElement constructor]) =
      names getClassName calls ++ [getClassName constructor] := by
  unfold names
  rw [List.filterMap_append]
  rfl

theorem mem_names_register (calls : List (RegistryCall C)) (constructor : C) (name : String) :
    name ∈ names getClassName (calls ++ [.registerElement constructor]) ↔
      name ∈ names getClassName calls ∨ name = getClassName constructor := by
  rw [names_register, List.mem_append, List.mem_singleton]

theorem names_unregister (calls : List (RegistryCall C)) (name : String) :
    names getClassName (calls ++ [.unregisterElement name]) = names getClassName calls := by
  unfold names
  rw [List.filterMap_append]
  simp [name?]

theorem gone_register (calls : List (RegistryCall C)) (constructor : C) (name : String) :
    Gone getClassName (calls ++ [.registerElement constructor]) name ↔
      Gone getClassName calls name := by
  unfold Gone
  rw [sometime_concat]
  simp

theorem gone_unregister (calls : List (RegistryCall C)) (name name' : String) :
    Gone getClassName (calls ++ [.unregisterElement name]) name' ↔
      Gone getClassName calls name' ∨ name = name' ∧ name' ∈ names getClassName calls := by
  unfold Gone
  rw [sometime_concat]
  simp

theorem gone_names {calls : List (RegistryCall C)} {name : String}
    (h : Gone getClassName calls name) : name ∈ names getClassName calls := by
  obtain ⟨earlier, call, later, rfl, -, hmem⟩ := h
  unfold names at hmem ⊢
  rw [List.filterMap_append]
  exact List.mem_append_left _ hmem

/-- A name that was never registered is not registered. -/
theorem registered_unknown (calls : List (RegistryCall C)) (name : String)
    (h : name ∉ names getClassName calls) : registered getClassName calls name = none := by
  induction calls using List.reverseRecOn with
  | nil => rfl
  | append_singleton calls call ih =>
    cases call with
    | registerElement constructor =>
      rw [mem_names_register, not_or] at h
      rw [registered_register, if_neg (fun hname => h.2 hname.1)]
      exact ih h.1
    | unregisterElement name' =>
      rw [names_unregister] at h
      rw [registered_unregister, ih h, ite_self]

end RegistryCall

namespace PipelineElementFactory
open RegistryCall
variable {C : Type} {getClassName : C → String} {calls : List (RegistryCall C)}
  {s s' : PipelineElementFactory C}

/-- Each name that was ever registered has a place of its own in the list, which is null once the
name was unregistered. -/
structure Tracks (getClassName : C → String) (calls : List (RegistryCall C))
    (s : PipelineElementFactory C) : Prop where
  known : ∀ name, (∃ id, s.m_nameIdMapping name = some id) ↔ name ∈ names getClassName calls
  gone : ∀ name id, s.m_nameIdMapping name = some id → Gone getClassName calls name →
    s.m_elementConstructors[id]? = some none
  present : ∀ name id, s.m_nameIdMapping name = some id → ¬ Gone getClassName calls name →
    ∃ plec, s.m_elementConstructors[id]? = some (some plec) ∧
      registered getClassName calls name = some plec
  different : ∀ name name' id, s.m_nameIdMapping name = some id →
    s.m_nameIdMapping name' = some id → name = name'
  covered : ∀ id < s.m_elementConstructors.length, ∃ name, s.m_nameIdMapping name = some id
  size : s.m_elementConstructors.length = (names getClassName calls).toFinset.card

theorem Tracks.empty : Tracks getClassName [] (empty : PipelineElementFactory C) where
  known name := by simp [PipelineElementFactory.empty, names]
  gone _ _ h := by cases h
  present _ _ h := by cases h
  different _ _ _ h := by cases h
  covered id h := absurd h (Nat.not_lt_zero id)
  size := rfl

theorem Tracks.lt (h : Tracks getClassName calls s) {name : String} {id : Nat}
    (hid : s.m_nameIdMapping name = some id) : id < s.m_elementConstructors.length := by
  by_cases hgone : Gone getClassName calls name
  · exact (List.getElem?_eq_some_iff.mp (h.gone name id hid hgone)).1
  · obtain ⟨plec, hplec, -⟩ := h.present name id hid hgone
    exact (List.getElem?_eq_some_iff.mp hplec).1

/-- A name that is known keeps its constructor. -/
theorem Tracks.register_known (h : Tracks getClassName calls s) {constructor : C}
    (hmem : getClassName constructor ∈ names getClassName calls) :
    Tracks getClassName (calls ++ [.registerElement constructor]) s := by
  have hnames : ∀ name, name ∈ names getClassName (calls ++ [.registerElement constructor]) ↔
      name ∈ names getClassName calls := by
    intro name
    rw [mem_names_register]
    constructor
    · rintro (hname | rfl)
      · exact hname
      · exact hmem
    · exact .inl
  refine ⟨fun name => ?_, fun name id hid hgone => ?_, fun name id hid hgone => ?_, h.different,
    h.covered, ?_⟩
  · rw [h.known, hnames]
  · rw [gone_register] at hgone
    exact h.gone name id hid hgone
  · rw [gone_register] at hgone
    obtain ⟨plec, hplec, hreg⟩ := h.present name id hid hgone
    refine ⟨plec, hplec, ?_⟩
    rw [registered_register, if_neg, hreg]
    simp [hreg]
  · rw [h.size]
    congr 1
    ext name
    rw [List.mem_toFinset, List.mem_toFinset, hnames]

/-- A new one gets the next place of the list. -/
theorem Tracks.register_new (h : Tracks getClassName calls s) {constructor : C}
    (hnone : s.m_nameIdMapping (getClassName constructor) = none) :
    Tracks getClassName (calls ++ [.registerElement constructor])
      ⟨s.m_elementConstructors ++ [some constructor],
        Function.update s.m_nameIdMapping (getClassName constructor)
          (some s.m_elementConstructors.length)⟩ := by
  have hmem : getClassName constructor ∉ names getClassName calls := by
    rw [← h.known]
    simp [hnone]
  have hlookup : ∀ name id, Function.update s.m_nameIdMapping (getClassName constructor)
      (some s.m_elementConstructors.length) name = some id →
      (name = getClassName constructor ∧ id = s.m_elementConstructors.length) ∨
        (name ≠ getClassName constructor ∧ s.m_nameIdMapping name = some id) := by
    intro name id hid
    by_cases hname : name = getClassName constructor
    · subst hname
      rw [Function.update_self] at hid
      exact .inl ⟨rfl, (Option.some.inj hid).symm⟩
    · rw [Function.update_of_ne hname] at hid
      exact .inr ⟨hname, hid⟩
  refine ⟨fun name => ?_, fun name id hid hgone => ?_, fun name id hid hgone => ?_,
    fun name name' id hid hid' => ?_, fun id hid => ?_, ?_⟩
  · rw [mem_names_register]
    dsimp only
    by_cases hname : name = getClassName constructor
    · subst hname
      rw [Function.update_self]
      simp
    · rw [Function.update_of_ne hname, h.known]
      simp [hname]
  · rw [gone_register] at hgone
    rcases hlookup name id hid with ⟨rfl, -⟩ | ⟨-, hold⟩
    · exact absurd (gone_names hgone) hmem
    · rw [List.getElem?_append_left (h.lt hold)]
      exact h.gone name id hold hgone
  · rw [gone_register] at hgone
    rw [registered_register]
    rcases hlookup name id hid with ⟨rfl, rfl⟩ | ⟨hname, hold⟩
    · refine ⟨constructor, by simp, ?_⟩
      rw [if_pos ⟨rfl, registered_unknown calls _ hmem⟩]
    · obtain ⟨plec, hplec, hreg⟩ := h.present name id hold hgone
      refine ⟨plec, ?_, ?_⟩
      · rw [List.getElem?_append_left (h.lt hold)]
        exact hplec
      · rw [if_neg (fun hn => hname hn.1), hreg]
  · rcases hlookup name id hid with ⟨rfl, rfl⟩ | ⟨hname, hold⟩
    · rcases hlookup name' _ hid' with ⟨rfl, -⟩ | ⟨-, hold'⟩
      · rfl
      · exact absurd (h.lt hold') (lt_irrefl _)
    · rcases hlookup name' id hid' with ⟨rfl, rfl⟩ | ⟨-, hold'⟩
      · exact absurd (h.lt hold) (lt_irrefl _)
      · exact h.different name name' id hold hold'
  · dsimp only at hid ⊢
    rw [List.length_append, List.length_singleton] at hid
    by_cases hlast : id = s.m_elementConstructors.length
    · subst hlast
      exact ⟨getClassName constructor, Function.update_self ..⟩
    · obtain ⟨name, hname⟩ := h.covered id (by omega)
      refine ⟨name, ?_⟩
      rw [Function.update_of_ne, hname]
      rintro rfl
      rw [hnone] at hname
      cases hname
  · have hset : (names getClassName (calls ++ [.registerElement constructor])).toFinset =
        insert (getClassName constructor) (names getClassName calls).toFinset := by
      ext name
      simp [names_register]
    rw [hset, Finset.card_insert_of_notMem (by simpa using hmem), ← h.size, List.length_append,
      List.length_singleton]

theorem Tracks.registerElement (h : Tracks getClassName calls s) (constructor : C) :
    Tracks getClassName (calls ++ [.registerElement constructor])
      (s.registerElement getClassName constructor).1 := by
  unfold PipelineElementFactory.registerElement
  split
  case isTrue hknown => exact h.register_known ((h.known _).mp (Option.isSome_iff_exists.mp hknown))
  case isFalse hnew => exact h.register_new (by simpa using hnew)

theorem Tracks.unregisterElement (h : Tracks getClassName calls s) (name : String) :
    ∃ s', s.unregisterElement name = some s' ∧
      Tracks getClassName (calls ++ [.unregisterElement name]) s' := by
  unfold PipelineElementFactory.unregisterElement
  cases hname : s.m_nameIdMapping name with
  | none =>
    have hmem : name ∉ names getClassName calls := by
      rw [← h.known]
      simp [hname]
    have hgone : ∀ name', Gone getClassName (calls ++ [.unregisterElement name]) name' ↔
        Gone getClassName calls name' := by
      intro name'
      rw [gone_unregister, or_iff_left]
      rintro ⟨rfl, hin⟩
      exact hmem hin
    refine ⟨s, rfl, fun name' => ?_, fun name' id hid hg => ?_, fun name' id hid hg => ?_,
      h.different, h.covered, ?_⟩
    · rw [names_unregister, h.known]
    · exact h.gone name' id hid ((hgone name').mp hg)
    · obtain ⟨plec, hplec, hreg⟩ := h.present name' id hid (fun h' => hg ((hgone name').mpr h'))
      refine ⟨plec, hplec, ?_⟩
      rw [registered_unregister, if_neg, hreg]
      rintro rfl
      rw [hname] at hid
      cases hid
    · rw [names_unregister, h.size]
  | some id =>
    have hlt := h.lt hname
    have hmem : name ∈ names getClassName calls := (h.known name).mp ⟨id, hname⟩
    dsimp only
    rw [List.getElem?_eq_getElem hlt]
    refine ⟨_, rfl, fun name' => ?_, fun name' id' hid hg => ?_, fun name' id' hid hg => ?_,
      h.different, fun id' hid => ?_, ?_⟩
    · rw [names_unregister, h.known]
    · by_cases hsame : id' = id
      · subst hsame
        simp [hlt]
      · rw [gone_unregister] at hg
        rw [List.getElem?_set_ne (Ne.symm hsame)]
        refine h.gone name' id' hid (hg.resolve_right ?_)
        rintro ⟨rfl, -⟩
        rw [hname] at hid
        exact hsame (Option.some.inj hid).symm
    · rw [gone_unregister, not_or] at hg
      obtain ⟨plec, hplec, hreg⟩ := h.present name' id' hid hg.1
      have hother : name' ≠ name := by
        rintro rfl
        exact hg.2 ⟨rfl, hmem⟩
      refine ⟨plec, ?_, ?_⟩
      · rw [List.getElem?_set_ne, hplec]
        rintro rfl
        exact hother (h.different name' name id hid hname)
      · rw [registered_unregister, if_neg hother, hreg]
    · rw [List.length_set] at hid
      exact h.covered id' hid
    · rw [List.length_set, names_unregister, h.size]

/-- No call of these two fails. -/
theorem tracks_run (calls : List (RegistryCall C)) :
    ∃ s, run (step getClassName) empty calls = some s ∧ Tracks getClassName calls s := by
  induction calls using List.reverseRecOn with
  | nil => exact ⟨empty, rfl, .empty⟩
  | append_singleton calls call ih =>
    obtain ⟨s, hs, h⟩ := ih
    rw [run_concat, hs]
    cases call with
    | registerElement constructor => exact ⟨_, rfl, h.registerElement constructor⟩
    | unregisterElement name => exact h.unregisterElement name

/-- The constructor that instances are made from for this id. -/
def Identifies (s : PipelineElementFactory C) (id : Int) (constructor : C) : Prop :=
  0 ≤ id ∧ s.construct id = some (some constructor)

theorem Tracks.known_of_not_gone (h : Tracks getClassName calls s) {name : String} {plec : C}
    (hreg : registered getClassName calls name = some plec)
    (hgone : ¬ Gone getClassName calls name) :
    ∃ id, s.m_nameIdMapping name = some id ∧
      s.m_elementConstructors[id]? = some (some plec) := by
  have hmem : name ∈ names getClassName calls := by
    by_contra hnot
    rw [registered_unknown calls name hnot] at hreg
    cases hreg
  obtain ⟨id, hid⟩ := (h.known name).mpr hmem
  obtain ⟨plec', hplec, hreg'⟩ := h.present name id hid hgone
  rw [hreg] at hreg'
  cases hreg'
  exact ⟨id, hid, hplec⟩

theorem Tracks.elementId_gone (h : Tracks getClassName calls s) {name : String}
    (hgone : Gone getClassName calls name) : s.elementId name = some (-1) := by
  obtain ⟨id, hid⟩ := (h.known name).mpr (gone_names hgone)
  unfold elementId
  rw [hid]
  dsimp only
  rw [h.gone name id hid hgone]
  rfl

theorem Tracks.elementId_none (h : Tracks getClassName calls s) {name : String}
    (hreg : registered getClassName calls name = none) : s.elementId name = some (-1) := by
  cases hid : s.m_nameIdMapping name with
  | none =>
    unfold elementId
    rw [hid]
  | some id =>
    apply h.elementId_gone
    by_contra hgone
    obtain ⟨plec, -, hplec⟩ := h.present name id hid hgone
    rw [hreg] at hplec
    cases hplec

theorem Tracks.elementId_some (h : Tracks getClassName calls s) {name : String} {plec : C}
    (hreg : registered getClassName calls name = some plec)
    (hgone : ¬ Gone getClassName calls name) :
    ∃ id : Nat, s.elementId name = some (id : Int) ∧
      s.m_elementConstructors[id]? = some (some plec) := by
  obtain ⟨id, hid, hplec⟩ := h.known_of_not_gone hreg hgone
  refine ⟨id, ?_, hplec⟩
  unfold elementId
  rw [hid]
  dsimp only
  rw [hplec]
  rfl

theorem construct_lt {id : Nat} (h : id < s.m_elementConstructors.length) :
    s.construct id = s.m_elementConstructors[id]? := by
  unfold construct
  rw [if_neg (by omega), Int.toNat_natCast]

inductive Query (C : Type) where
  | registerElement (constructor : C)
  | elementId (name : String)
  | constructNamed (name : String)
  | construct (id : Int)

def Right (getClassName : C → String) (registered : String → Option C)
    (s : PipelineElementFactory C) : Query C → Prop
  | .registerElement constructor =>
    match registered (getClassName constructor) with
    | some _ => s.registerElement getClassName constructor = (s, -1)
    | none =>
      (s.registerElement getClassName constructor).1.elementId (getClassName constructor) =
        some (s.registerElement getClassName constructor).2 ∧
      (s.registerElement getClassName constructor).1.Identifies
        (s.registerElement getClassName constructor).2 constructor
  | .elementId name =>
    match registered name with
    | some plec => ∃ id, s.elementId name = some id ∧ s.Identifies id plec
    | none => s.elementId name = some (-1)
  | .constructNamed name => s.constructNamed name = some (registered name)
  | .construct id =>
    (∀ name plec, registered name = some plec → s.elementId name = some id → 0 ≤ id →
      s.construct id = some (some plec)) ∧
    ((∀ name plec, registered name = some plec → s.elementId name ≠ some id) →
      s.construct id = some none)

def RightWhen (getClassName : C → String) (calls : List (RegistryCall C)) : Query C → Prop
  | .registerElement constructor => getClassName constructor ∉ names getClassName calls
  | .elementId name => registered getClassName calls name = none ∨ ¬ Gone getClassName calls name
  | .constructNamed name => ¬ Gone getClassName calls name
  | .construct id => id ≠ (names getClassName calls).toFinset.card

theorem Tracks.right_registerElement (h : Tracks getClassName calls s) (constructor : C) :
    Right getClassName (registered getClassName calls) s (.registerElement constructor) ↔
      getClassName constructor ∉ names getClassName calls := by
  by_cases hmem : getClassName constructor ∈ names getClassName calls
  · refine iff_of_false (fun hright => ?_) (not_not.mpr hmem)
    have hsame : s.registerElement getClassName constructor = (s, 0) := by
      unfold PipelineElementFactory.registerElement
      rw [if_pos (Option.isSome_iff_exists.mpr ((h.known _).mpr hmem))]
    unfold Right at hright
    dsimp only at hright
    cases hreg : registered getClassName calls (getClassName constructor) with
    | some plec =>
      rw [hreg, hsame] at hright
      cases hright
    | none =>
      rw [hreg, hsame] at hright
      dsimp only at hright
      rw [h.elementId_none hreg] at hright
      cases hright.1
  · refine iff_of_true ?_ hmem
    have hreg := registered_unknown calls _ hmem
    have hnone : s.m_nameIdMapping (getClassName constructor) = none := by
      cases hid : s.m_nameIdMapping (getClassName constructor) with
      | none => rfl
      | some id => exact absurd ((h.known _).mp ⟨id, hid⟩) hmem
    unfold Right
    dsimp only
    rw [hreg]
    unfold PipelineElementFactory.registerElement
    rw [hnone]
    simp [PipelineElementFactory.elementId, Identifies, construct]

theorem Tracks.right_elementId (h : Tracks getClassName calls s) (name : String) :
    Right getClassName (registered getClassName calls) s (.elementId name) ↔
      registered getClassName calls name = none ∨ ¬ Gone getClassName calls name := by
  unfold Right
  dsimp only
  cases hreg : registered getClassName calls name with
  | none => exact iff_of_true (h.elementId_none hreg) (.inl rfl)
  | some plec =>
    by_cases hgone : Gone getClassName calls name
    · refine iff_of_false ?_ (by simp [hgone])
      rintro ⟨id, hid, hle, -⟩
      rw [h.elementId_gone hgone] at hid
      cases hid
      omega
    · refine iff_of_true ?_ (.inr hgone)
      obtain ⟨id, hid, hplec⟩ := h.elementId_some hreg hgone
      refine ⟨id, hid, by omega, ?_⟩
      rw [construct_lt (List.getElem?_eq_some_iff.mp hplec).1, hplec]

theorem Tracks.right_constructNamed (h : Tracks getClassName calls s) (name : String) :
    Right getClassName (registered getClassName calls) s (.constructNamed name) ↔
      ¬ Gone getClassName calls name := by
  unfold Right
  dsimp only
  unfold constructNamed
  by_cases hgone : Gone getClassName calls name
  · -- the null pointer is found
    obtain ⟨id, hid⟩ := (h.known name).mpr (gone_names hgone)
    refine iff_of_false (fun hright => ?_) (not_not.mpr hgone)
    rw [hid] at hright
    dsimp only at hright
    rw [h.gone name id hid hgone] at hright
    cases hright
  · refine iff_of_true ?_ hgone
    cases hid : s.m_nameIdMapping name with
    | none =>
      have hmem : name ∉ names getClassName calls := by
        rw [← h.known]
        simp [hid]
      rw [registered_unknown calls name hmem]
    | some id =>
      obtain ⟨plec, hplec, hreg⟩ := h.present name id hid hgone
      dsimp only
      rw [hplec, hreg]

theorem Tracks.right_construct (h : Tracks getClassName calls s) (id : Int) :
    Right getClassName (registered getClassName calls) s (.construct id) ↔
      id ≠ (names getClassName calls).toFinset.card := by
  unfold Right
  dsimp only
  rw [← h.size]
  -- no name has an id that is not in the list
  have hlt : ∀ name plec, registered getClassName calls name = some plec →
      s.elementId name = some id → 0 ≤ id → id < s.m_elementConstructors.length ∧
        s.construct id = some (some plec) := by
    intro name plec hreg hid hle
    have hgone : ¬ Gone getClassName calls name := by
      intro hgone
      rw [h.elementId_gone hgone] at hid
      cases hid
      omega
    obtain ⟨id', hid', hplec⟩ := h.elementId_some hreg hgone
    rw [hid] at hid'
    cases hid'
    have hlt := (List.getElem?_eq_some_iff.mp hplec).1
    exact ⟨by omega, by rw [construct_lt hlt, hplec]⟩
  by_cases hsize : id = s.m_elementConstructors.length
  · subst hsize
    refine iff_of_false (fun hright => ?_) (not_not.mpr rfl)
    have hnull := hright.2 fun name plec hreg hid => by
      obtain ⟨hlt, -⟩ := hlt name plec hreg hid (by omega)
      omega
    simp [construct] at hnull
  · refine iff_of_true ⟨fun name plec hreg hid hle => (hlt name plec hreg hid hle).2, ?_⟩ hsize
    intro hnone
    by_cases hrange : id < 0 ∨ s.m_elementConstructors.length < id
    · unfold construct
      rw [if_pos hrange]
    · obtain ⟨id, rfl⟩ : ∃ n : Nat, id = n := ⟨id.toNat, by omega⟩
      have hid : id < s.m_elementConstructors.length := by omega
      obtain ⟨name, hname⟩ := h.covered id hid
      rw [construct_lt hid]
      by_cases hgone : Gone getClassName calls name
      · exact h.gone name id hname hgone
      · obtain ⟨plec, hplec, hreg⟩ := h.present name id hname hgone
        refine absurd ?_ (hnone name plec hreg)
        unfold elementId
        rw [hname]
        dsimp only
        rw [hplec]
        rfl

/-- The calls that change the registry never fail. An answer is wrong for a name that was
unregistered, for a name that is registered already, and for the first id that is not used. -/
theorem answers_right (getClassName : C → String) (calls : List (RegistryCall C)) :
    ∃ s, run (step getClassName) empty calls = some s ∧
      ∀ query, Right getClassName (registered getClassName calls) s query ↔
        RightWhen getClassName calls query := by
  obtain ⟨s, hs, h⟩ := @tracks_run C getClassName calls
  refine ⟨s, hs, fun query => ?_⟩
  cases query with
  | registerElement constructor => exact h.right_registerElement constructor
  | elementId name => exact h.right_elementId name
  | constructNamed name => exact h.right_constructNamed name
  | construct id => exact h.right_construct id

def reload : List (RegistryCall String) :=
  [.registerElement "plv::Average", .unregisterElement "plv::Average",
    .registerElement "plv::Average"]

theorem not_registered_again :
    ¬ ∀ (calls : List (RegistryCall String)) (s : PipelineElementFactory String),
      run (step id) empty calls = some s →
        ∀ query, Right id (registered id calls) s query := by
  intro hall
  obtain ⟨s, hs, hid⟩ : ∃ s, run (step id) empty reload = some s ∧
      s.elementId "plv::Average" = some (-1) := ⟨_, rfl, rfl⟩
  have hreg : registered id reload "plv::Average" = some "plv::Average" := rfl
  have hright := hall reload s hs (.elementId "plv::Average")
  simp only [Right, hreg] at hright
  obtain ⟨id, hid', hle, -⟩ := hright
  rw [hid] at hid'
  cases hid'
  omega

end PipelineElementFactory

end ParleVision.Core
