import ParleVision.Lib.Run
import Mathlib.Data.Set.Card
import Mathlib.Tactic.Common

namespace ParleVision.Core
open Lib

structure RefCounted (Loc : Type) where
  m_referenceCount : Int
  members : List Loc

structure RefPtr (Obj : Type) where
  m_ptr : Option Obj
  /-- it is destroyed with the object that it is a member of -/
  member : Bool

/-- What the calls that are running have still to do. -/
inductive Action (Obj Loc : Type) where
  | dec (o : Obj)
  | destroy (l : Loc)
  /-- the end of `set` -/
  | put (l : Loc) (obj : Option Obj)
  deriving DecidableEq

/-- All `RefPtr`s by the places where they are, and all objects that are not deleted. -/
structure Heap (Obj Loc : Type) where
  refPtrs : Loc → Option (RefPtr Obj)
  objects : Obj → Option (RefCounted Loc)
  /-- each time it happened -/
  deleted : List Obj
  todo : List (Action Obj Loc)

inductive Event (Obj Loc : Type) where
  | new (o : Obj) (members : List Loc)
  | construct (l : Loc) (ptr : Option Obj)
  | copy (l rp : Loc)
  | assign (l rp : Loc)
  | assignPtr (l : Loc) (ptr : Option Obj)
  | set (l : Loc) (obj : Option Obj)
  | destroy (l : Loc)
  | resume

namespace Heap
variable {Obj Loc : Type}

def empty : Heap Obj Loc := ⟨fun _ => none, fun _ => none, [], []⟩

/-- `dec` where the pointer is not null. -/
def release : Option Obj → List (Action Obj Loc)
  | none => []
  | some o => [.dec o]

section Calls
variable [DecidableEq Obj] [DecidableEq Loc] (s : Heap Obj Loc)

/-- Nothing where the object is not there any more. -/
def inc : Option Obj → Option (Heap Obj Loc)
  | none => some s
  | some o =>
    match s.objects o with
    | none => none
    | some r =>
      let r' := { r with m_referenceCount := r.m_referenceCount + 1 }
      some { s with objects := Function.update s.objects o (some r') }

/-- The object deletes itself below one; its members are destroyed in reverse order. -/
def dec (o : Obj) : Option (Heap Obj Loc) :=
  match s.objects o with
  | none => none
  | some r =>
    let m_referenceCount := r.m_referenceCount - 1
    if m_referenceCount < 1 then
      some { s with
        objects := Function.update s.objects o none
        deleted := o :: s.deleted
        todo := r.members.reverse.map .destroy ++ s.todo }
    else some { s with objects := Function.update s.objects o (some ⟨m_referenceCount, r.members⟩) }

def construct (l : Loc) (ptr : Option Obj) : Option (Heap Obj Loc) :=
  match s.refPtrs l with
  | some _ => none
  | none => { s with refPtrs := Function.update s.refPtrs l (some ⟨ptr, false⟩) }.inc ptr

def destroy (l : Loc) : Option (Heap Obj Loc) :=
  match s.refPtrs l with
  | none => none
  | some rp =>
    some { s with refPtrs := Function.update s.refPtrs l none, todo := release rp.m_ptr ++ s.todo }

def assignPtr (l : Loc) (ptr : Option Obj) : Option (Heap Obj Loc) :=
  match s.refPtrs l with
  | none => none
  | some rp =>
    if rp.m_ptr = ptr then some s
    else
      { s with
        refPtrs := Function.update s.refPtrs l (some { rp with m_ptr := ptr })
        todo := release rp.m_ptr ++ s.todo }.inc ptr

def put (l : Loc) (obj : Option Obj) : Option (Heap Obj Loc) :=
  match s.refPtrs l with
  | none => none
  | some rp =>
    some { s with refPtrs := Function.update s.refPtrs l (some { rp with m_ptr := obj }) }

def set (l : Loc) (obj : Option Obj) : Option (Heap Obj Loc) :=
  match s.refPtrs l with
  | none => none
  | some rp => some { s with todo := release rp.m_ptr ++ .put l obj :: s.todo }

def new (o : Obj) (members : List Loc) : Option (Heap Obj Loc) :=
  if (s.objects o).isNone ∧ o ∉ s.deleted ∧ members.Nodup ∧ ∀ l ∈ members, (s.refPtrs l).isNone then
    some { s with
      objects := Function.update s.objects o (some ⟨0, members⟩)
      refPtrs := fun l => if l ∈ members then some ⟨none, true⟩ else s.refPtrs l }
  else none

def resume : Option (Heap Obj Loc) :=
  match s.todo with
  | [] => none
  | .dec o :: todo => { s with todo }.dec o
  | .destroy l :: todo => { s with todo }.destroy l
  | .put l obj :: todo => { s with todo }.put l obj

/-- A call begins when the one before is over. -/
def call : Event Obj Loc → Option (Heap Obj Loc)
  | .new o members => s.new o members
  | .construct l ptr => s.construct l ptr
  | .copy l rp => (s.refPtrs rp).bind fun rp => s.construct l rp.m_ptr
  | .assign l rp => (s.refPtrs rp).bind fun rp => s.assignPtr l rp.m_ptr
  | .assignPtr l ptr => s.assignPtr l ptr
  | .set l obj => s.set l obj
  | .destroy l =>
    match s.refPtrs l with
    | some ⟨_, false⟩ => s.destroy l
    | _ => none
  | .resume => none

def step : Event Obj Loc → Option (Heap Obj Loc)
  | .resume => s.resume
  | e => if s.todo.isEmpty then s.call e else none

end Calls

/-- The `RefPtr`s in whose `set` an old object is being released. -/
def setting (todo : List (Action Obj Loc)) : List Loc :=
  todo.filterMap fun
    | .put l _ => some l
    | _ => none

/-- The members of deleted objects that are not destroyed yet. -/
def doomed (todo : List (Action Obj Loc)) : List Loc :=
  todo.filterMap fun
    | .destroy l => some l
    | _ => none

def PointsTo (s : Heap Obj Loc) (l : Loc) (o : Obj) : Prop :=
  ∃ rp, s.refPtrs l = some rp ∧ rp.m_ptr = some o

/-- No `RefPtr` points to a deleted object, and each object knows how many point to it. -/
structure Counted (s : Heap Obj Loc) : Prop where
  count : ∀ o r, s.objects o = some r → { l | s.PointsTo l o }.Finite ∧
    r.m_referenceCount = { l | s.PointsTo l o }.ncard
  there : ∀ l o, s.PointsTo l o → (s.objects o).isSome
  once : s.deleted.Nodup
  gone : ∀ o ∈ s.deleted, s.objects o = none

/-- The `RefPtr` that is destroyed next is the one in whose `set` this happens. -/
def DestroysItself : List (Action Obj Loc) → Prop
  | .destroy l :: todo => l ∈ setting todo
  | _ => False

instance [DecidableEq Loc] : DecidablePred (@DestroysItself Obj Loc)
  | [] => isFalse id
  | .dec _ :: _ => isFalse id
  | .destroy l :: todo => inferInstanceAs (Decidable (l ∈ setting todo))
  | .put _ _ :: _ => isFalse id

/-- `set` is given null, and what it releases does not destroy the `RefPtr` itself. -/
def Keeps (s : Heap Obj Loc) : Event Obj Loc → Prop
  | .set _ obj => obj = none
  | .resume => ¬ DestroysItself s.todo
  | _ => True

instance [DecidableEq Obj] [DecidableEq Loc] (s : Heap Obj Loc) : DecidablePred (Keeps s)
  | .set _ obj => inferInstanceAs (Decidable (obj = none))
  | .resume => inferInstanceAs (Decidable ¬ DestroysItself s.todo)
  | .new .. | .construct .. | .copy .. | .assign .. | .assignPtr .. | .destroy .. => isTrue trivial

@[simp] theorem setting_release (p : Option Obj) (todo : List (Action Obj Loc)) :
    setting (release p ++ todo) = setting todo := by
  cases p <;> rfl

@[simp] theorem doomed_release (p : Option Obj) (todo : List (Action Obj Loc)) :
    doomed (release p ++ todo) = doomed todo := by
  cases p <;> rfl

@[simp] theorem setting_destroy (ls : List Loc) (todo : List (Action Obj Loc)) :
    setting (ls.map .destroy ++ todo) = setting todo := by
  induction ls with
  | nil => rfl
  | cons l ls ih => exact ih

@[simp] theorem doomed_destroy (ls : List Loc) (todo : List (Action Obj Loc)) :
    doomed (ls.map .destroy ++ todo) = ls ++ doomed todo := by
  induction ls with
  | nil => rfl
  | cons l ls ih => exact congrArg (l :: ·) ih

def kind (s : Heap Obj Loc) (l : Loc) : Option Bool := (s.refPtrs l).map RefPtr.member

def membersOf (s : Heap Obj Loc) (o : Obj) : List Loc :=
  match s.objects o with
  | none => []
  | some r => r.members

/-- It is 0 for what is not there. -/
def refCount (s : Heap Obj Loc) (o : Obj) : Int :=
  match s.objects o with
  | none => 0
  | some r => r.m_referenceCount

section Held
variable [DecidableEq Loc] {s : Heap Obj Loc}

/-- What a `RefPtr` points to, unless it is going to give it up. -/
def held (s : Heap Obj Loc) (l : Loc) : Option Obj :=
  if l ∈ setting s.todo then none else (s.refPtrs l).bind RefPtr.m_ptr

theorem held_subset (s : Heap Obj Loc) (o : Obj) :
    { l | s.held l = some o } ⊆ { l | (s.refPtrs l).isSome } := by
  intro l hl
  unfold held at hl
  rw [Set.mem_ofPred_eq] at hl ⊢
  split at hl
  · cases hl
  · obtain ⟨rp, hrp, -⟩ := Option.bind_eq_some_iff.mp hl
    rw [hrp]
    rfl

theorem pointsTo_iff (htodo : s.todo = []) (l : Loc) (o : Obj) :
    s.PointsTo l o ↔ s.held l = some o := by
  unfold PointsTo held
  rw [htodo, if_neg (by simp [setting]), Option.bind_eq_some_iff]

end Held

section Objects
variable [DecidableEq Obj] {s s' : Heap Obj Loc} {x : Option Obj}

def one (p : Option Obj) (o : Obj) : Int := if p = some o then 1 else 0

theorem inc_some (h : s.inc x = some s') :
    s'.refPtrs = s.refPtrs ∧ s'.todo = s.todo ∧ s'.deleted = s.deleted ∧
      s'.membersOf = s.membersOf ∧ (∀ o, s.objects o = none → s'.objects o = none) ∧
      ∀ o, s'.refCount o = s.refCount o + one x o := by
  unfold inc at h
  cases x with
  | none =>
    cases h
    exact ⟨rfl, rfl, rfl, rfl, fun o ho => ho, fun o => (add_zero _).symm⟩
  | some p =>
    dsimp only at h
    cases hp : s.objects p with
    | none =>
      rw [hp] at h
      cases h
    | some r =>
      rw [hp] at h
      cases h
      refine ⟨rfl, rfl, rfl, funext fun o => ?_, fun o ho => ?_, fun o => ?_⟩
      · unfold membersOf
        by_cases ho : o = p
        · subst ho
          simp [hp]
        · simp [ho]
      · dsimp only
        rw [Function.update_of_ne, ho]
        rintro rfl
        rw [hp] at ho
        cases ho
      · unfold refCount one
        by_cases ho : o = p
        · subst ho
          simp [hp]
        · simp [ho, Ne.symm ho]

theorem dec_some {o : Obj} (h : s.dec o = some s') (hle : 1 ≤ s.refCount o) :
    s'.refPtrs = s.refPtrs ∧ (∀ o', s.objects o' = none → s'.objects o' = none) ∧
      (∀ o', s'.refCount o' = s.refCount o' - one (some o) o') ∧
      ((s.refCount o = 1 ∧ s'.deleted = o :: s.deleted ∧ s'.objects o = none ∧
          s'.membersOf = Function.update s.membersOf o [] ∧
          s'.todo = (s.membersOf o).reverse.map .destroy ++ s.todo) ∨
        (2 ≤ s.refCount o ∧ s'.deleted = s.deleted ∧ s'.membersOf = s.membersOf ∧
          s'.todo = s.todo)) := by
  unfold dec at h
  cases ho : s.objects o with
  | none =>
    rw [ho] at h
    cases h
  | some r =>
    rw [ho] at h
    have hcount : s.refCount o = r.m_referenceCount := by simp [refCount, ho]
    have hmembers : s.membersOf o = r.members := by simp [membersOf, ho]
    have hnone : ∀ x o', s.objects o' = none → Function.update s.objects o x o' = none := by
      intro x o' ho'
      rw [Function.update_of_ne, ho']
      rintro rfl
      rw [ho] at ho'
      cases ho'
    dsimp only at h
    split at h
    · cases h
      refine ⟨rfl, hnone none, fun o' => ?_, .inl ⟨by omega, rfl, by simp, funext fun o' => ?_, by
        rw [hmembers]⟩⟩
      · unfold refCount one
        by_cases hsame : o' = o
        · subst hsame
          simp only [Function.update_self, ho, ↓reduceIte]
          omega
        · simp [hsame, Ne.symm hsame]
      · unfold membersOf
        by_cases hsame : o' = o
        · subst hsame
          simp
        · simp [hsame]
    · cases h
      refine ⟨rfl, hnone _, fun o' => ?_, .inr ⟨by omega, rfl, funext fun o' => ?_, rfl⟩⟩
      · unfold refCount one
        by_cases hsame : o' = o
        · subst hsame
          simp [ho]
        · simp [hsame, Ne.symm hsame]
      · unfold membersOf
        by_cases hsame : o' = o
        · subst hsame
          simp [ho]
        · simp [hsame]

end Objects

section Balance
variable [DecidableEq Obj] [DecidableEq Loc] {s s' : Heap Obj Loc} {l : Loc} {x : Option Obj}

/-- The count without what `dec` is still to be called for. -/
def balance (s : Heap Obj Loc) (o : Obj) : Int :=
  s.refCount o - s.todo.count (Action.dec o)

structure Balanced (s : Heap Obj Loc) : Prop where
  finite : { l | (s.refPtrs l).isSome }.Finite
  count : ∀ o, s.balance o = { l | s.held l = some o }.ncard

theorem count_release (p : Option Obj) (todo : List (Action Obj Loc)) (o : Obj) :
    ((release p ++ todo).count (Action.dec o) : Int) = todo.count (Action.dec o) + one p o := by
  cases p with
  | none => simp [release, one]
  | some p =>
    unfold release one
    rw [List.singleton_append, List.count_cons]
    by_cases h : p = o <;> simp [h]

/-- One `RefPtr` points elsewhere. -/
theorem ncard_update (f : Loc → Option Obj) (o : Obj) (hfin : { l | f l = some o }.Finite) :
    ({ l' | Function.update f l x l' = some o }.ncard : Int) =
      { l' | f l' = some o }.ncard - one (f l) o + one x o := by
  have hold : ({ l' | f l' = some o }.ncard : Int) =
      ({ l' | f l' = some o } \ {l}).ncard + one (f l) o := by
    unfold one
    by_cases h : f l = some o
    · have hmem : l ∈ { l' | f l' = some o } := h
      rw [if_pos h, ← Set.ncard_sdiff_singleton_add_one hmem hfin]
      push_cast
      rfl
    · have hmem : l ∉ { l' | f l' = some o } := h
      rw [if_neg h, Set.sdiff_singleton_eq_self hmem, add_zero]
  have hrest : { l' | f l' = some o } \ {l} =
      { l' | Function.update f l x l' = some o } \ {l} := by
    ext l'
    simp only [Set.mem_sdiff, Set.mem_ofPred_eq, Set.mem_singleton_iff]
    refine and_congr_left fun hne => ?_
    rw [Function.update_of_ne hne]
  have hnew : ({ l' | Function.update f l x l' = some o }.ncard : Int) =
      ({ l' | f l' = some o } \ {l}).ncard + one x o := by
    rw [hrest]
    unfold one
    by_cases h : x = some o
    · have hmem : l ∈ { l' | Function.update f l x l' = some o } := by
        rw [Set.mem_ofPred_eq, Function.update_self, h]
      have hfin' : { l' | Function.update f l x l' = some o }.Finite := by
        refine (hfin.insert l).subset fun l' hl' => ?_
        by_cases hne : l' = l
        · exact .inl hne
        · rw [Set.mem_ofPred_eq, Function.update_of_ne hne] at hl'
          exact .inr hl'
      rw [if_pos h, ← Set.ncard_sdiff_singleton_add_one hmem hfin']
      push_cast
      rfl
    · have hmem : l ∉ { l' | Function.update f l x l' = some o } := by
        rw [Set.mem_ofPred_eq, Function.update_self]
        exact h
      rw [if_neg h, Set.sdiff_singleton_eq_self hmem, add_zero]
  omega

theorem Balanced.moved (h : Balanced s) (hfin : { l | (s'.refPtrs l).isSome }.Finite)
    (hheld : s'.held = Function.update s.held l x)
    (hbal : ∀ o, s'.balance o = s.balance o - one (s.held l) o + one x o) : Balanced s' := by
  refine ⟨hfin, fun o => ?_⟩
  rw [hbal, h.count, hheld]
  exact (ncard_update _ o (h.finite.subset (held_subset s o))).symm

end Balance

structure Owned (s : Heap Obj Loc) : Prop where
  nodup : ∀ o, (s.membersOf o).Nodup
  kind : ∀ o, ∀ l ∈ s.membersOf o, s.kind l = some true
  apart : ∀ o o' l, l ∈ s.membersOf o → l ∈ s.membersOf o' → o = o'
  doomed_nodup : (doomed s.todo).Nodup
  doomed_kind : ∀ l ∈ doomed s.todo, s.kind l = some true
  doomed_apart : ∀ l ∈ doomed s.todo, ∀ o, l ∉ s.membersOf o

theorem Owned.of_eq {s s' : Heap Obj Loc} (h : Owned s) (hmembers : s'.membersOf = s.membersOf)
    (hdoomed : doomed s'.todo = doomed s.todo)
    (hkind : ∀ l, s.kind l = some true → s'.kind l = some true) : Owned s' where
  nodup := hmembers ▸ h.nodup
  kind o l hl := hkind l (h.kind o l (hmembers ▸ hl))
  apart := hmembers ▸ h.apart
  doomed_nodup := hdoomed ▸ h.doomed_nodup
  doomed_kind l hl := hkind l (h.doomed_kind l (hdoomed ▸ hl))
  doomed_apart := hmembers ▸ hdoomed ▸ h.doomed_apart

/-- At most one `set` is running, it called all the rest, and it was given null. -/
def PutLast (todo : List (Action Obj Loc)) : Prop :=
  ∀ l obj before after, todo = before ++ .put l obj :: after → obj = none ∧ after = []

theorem PutLast.nil : PutLast ([] : List (Action Obj Loc)) := by
  intro l obj before after h
  simp at h

theorem PutLast.put (l : Loc) : PutLast ([.put l none] : List (Action Obj Loc)) := by
  intro l' obj before after h
  cases before with
  | nil =>
    cases h
    exact ⟨rfl, rfl⟩
  | cons a before => simp at h

theorem PutLast.tail {a : Action Obj Loc} {todo : List (Action Obj Loc)}
    (h : PutLast (a :: todo)) : PutLast todo :=
  fun l obj before after heq => h l obj (a :: before) after (congrArg (a :: ·) heq)

/-- What is to be done next is put in front of the rest. -/
theorem PutLast.append {next todo : List (Action Obj Loc)} (h : PutLast todo)
    (hnext : ∀ l obj, .put l obj ∉ next) : PutLast (next ++ todo) := by
  intro l obj before after heq
  rcases List.append_eq_append_iff.mp heq with ⟨mid, rfl, hs⟩ | ⟨mid, rfl, hs⟩
  · exact h l obj mid after hs
  · cases mid with
    | nil => exact h l obj [] after hs.symm
    | cons a mid =>
      cases hs
      exact absurd (by simp) (hnext l obj)

theorem put_notMem_release (p : Option Obj) (l : Loc) (obj : Option Obj) :
    .put l obj ∉ (release p : List (Action Obj Loc)) := by
  cases p <;> simp [release]

/-- What is to be done without the destructors. -/
def tasks (todo : List (Action Obj Loc)) : Nat :=
  todo.countP fun
    | .destroy _ => false
    | _ => true

theorem tasks_release (p : Option Obj) (todo : List (Action Obj Loc)) :
    tasks (release p ++ todo) ≤ tasks todo + 1 := by
  cases p with
  | none => exact Nat.le_succ _
  | some p => exact le_of_eq (List.countP_cons_of_pos rfl)

theorem tasks_destroy (ls : List Loc) (todo : List (Action Obj Loc)) :
    tasks (ls.map .destroy ++ todo) = tasks todo := by
  induction ls with
  | nil => rfl
  | cons l ls ih => exact ih

structure Sound [DecidableEq Obj] [DecidableEq Loc] (s : Heap Obj Loc) : Prop where
  balanced : Balanced s
  owned : Owned s
  setting : ∀ l ∈ setting s.todo, (s.refPtrs l).isSome
  last : PutLast s.todo
  once : s.deleted.Nodup
  gone : ∀ o ∈ s.deleted, s.objects o = none

end Heap

end ParleVision.Core
