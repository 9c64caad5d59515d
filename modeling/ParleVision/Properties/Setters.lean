import Mathlib

namespace ParleVision.Properties

structure EnumPair where
  name : String
  value : Int
deriving DecidableEq, Repr

/-- `add` gives an item the number of items as its key, so that the keys are the positions. -/
structure Enum where
  m_selectedIndex : Int
  m_items : List EnumPair
deriving DecidableEq, Repr

namespace Enum

def getItemName (e : Enum) (i : Int) : Option String :=
  if i < 0 then none else (e.m_items[i.toNat]?).map EnumPair.name

def getSelectedItemName (e : Enum) : Option String := e.getItemName e.m_selectedIndex

/-- The first item of that name is selected; another name changes nothing. -/
def setSelected (e : Enum) (selected : String) : Enum :=
  match e.m_items.findIdx? fun p => p.name == selected with
  | some i => { e with m_selectedIndex := i }
  | none => e

/-- The selected item exists and no earlier one has its name. -/
def selectsFirst (e : Enum) : Bool :=
  match e.getSelectedItemName with
  | some name => (e.m_items.findIdx? fun p => p.name == name) == some e.m_selectedIndex.toNat
  | none => false

theorem setSelected_items (e : Enum) (selected : String) :
    (e.setSelected selected).m_items = e.m_items := by
  unfold setSelected
  split <;> rfl

theorem selected_nonneg {e : Enum} {name : String} (h : e.getSelectedItemName = some name) :
    0 ≤ e.m_selectedIndex ∧ ∃ p, e.m_items[e.m_selectedIndex.toNat]? = some p ∧ p.name = name := by
  unfold getSelectedItemName getItemName at h
  split at h
  · cases h
  · rename_i hneg
    exact ⟨not_lt.mp hneg, Option.map_eq_some_iff.mp h⟩

/-- Selecting the saved name in another enum restores the saved one exactly when the
items are the same and the selected one is the first of its name. -/
theorem setSelected_eq_iff {e₀ e : Enum} {name : String} (h : e.getSelectedItemName = some name) :
    e₀.setSelected name = e ↔ e.m_items = e₀.m_items ∧ e.selectsFirst = true := by
  obtain ⟨hnn, p, hp, hname⟩ := selected_nonneg h
  have hfirst : e.selectsFirst = true ↔
      (e.m_items.findIdx? fun p => p.name == name) = some e.m_selectedIndex.toNat := by
    simp [selectsFirst, h]
  rw [hfirst]
  constructor
  · intro he
    have hitems : e.m_items = e₀.m_items := by rw [← he, setSelected_items]
    refine ⟨hitems, ?_⟩
    unfold setSelected at he
    cases hfind : e₀.m_items.findIdx? fun p => p.name == name with
    | some i =>
      rw [hfind] at he
      rw [hitems, hfind, ← he]
      simp
    | none =>
      have hall := List.findIdx?_eq_none_iff.mp hfind p
        (hitems ▸ List.mem_of_getElem? hp)
      simp [hname] at hall
  · rintro ⟨hitems, hfind⟩
    unfold setSelected
    rw [← hitems, hfind]
    exact congrArg (Enum.mk · e.m_items) (Int.toNat_of_nonneg hnn)

end Enum

/-- The property types the loader has to restore, doubles aside. -/
inductive Kind where
  | bool
  | int
  | string
  | enum
deriving DecidableEq, Repr

abbrev Kind.Value : Kind → Type
  | .bool => Bool
  | .int => Int
  | .string => String
  | .enum => Enum

/-- What `serialize` writes; nothing when the enum throws. -/
def Kind.text : (k : Kind) → k.Value → Option String
  | .bool, b => some (if b then "true" else "false")
  | .int, i => some (Int.repr i)
  | .string, s => some s
  | .enum, e => e.getSelectedItemName

/-- `compare( .., Qt::CaseInsensitive ) == 0` -/
def sameIgnoringCase (a b : String) : Bool :=
  a.toList.map Char.toLower == b.toList.map Char.toLower

/-- `convertData`, and the branch of `parseElements` for enums. -/
def Kind.convertData : (k : Kind) → k.Value → String → k.Value
  | .bool, _, data => sameIgnoringCase data "true" || data == "1"
  | .int, _, data => data.toInt?.getD 0
  | .string, _, data => data
  | .enum, stored, data => stored.setSelected data

/-- What a setter looks at besides its argument. -/
structure Env where
  /-- `QDir( directory ).exists()` -/
  dirExists : String → Bool
  /-- `getState() > PLE_UNDEFINED` -/
  initialised : Bool

inductive Setter : Kind → Type where
  | plain : Setter k
  /-- ignores what it does not accept -/
  | guarded (ok : k.Value → Bool) : Setter k
  | clamped (lo : Int) (hi : Option Int) : Setter .int
  /-- clamps, and moves an even size to an odd one -/
  | kernelSize (lo : Int) (hi : Option Int) : Setter .int
  /-- stores an existing directory with slashes -/
  | directory : Setter .string
  | unlessInitialised : Setter k

def clamp (lo : Int) (hi : Option Int) (i : Int) : Int :=
  if i < lo then lo
  else match hi with
    | some hi => if i > hi then hi else i
    | none => i

def slashes (path : String) : String :=
  String.ofList (path.toList.map fun c => if c = '\\' then '/' else c)

def Setter.set : Setter k → Env → k.Value → k.Value → k.Value
  | .plain, _, _, x => x
  | .guarded ok, _, stored, x => if ok x then x else stored
  | .clamped lo hi, _, _, i => clamp lo hi i
  | .kernelSize lo hi, _, stored, i =>
    let c := clamp lo hi i
    if c ≠ i then c else if i % 2 = 0 then (if i > stored then i + 1 else i - 1) else i
  | .directory, env, stored, path => if env.dirExists path then slashes path else stored
  | .unlessInitialised, env, stored, x => if env.initialised then stored else x

/-- The bounds make sense, and the value the constructor gives passes its own check. -/
def Setter.sound : Setter k → Option k.Value → Bool
  | .plain, _ | .unlessInitialised, _ => true
  | .guarded _, init => init.isSome
  | .clamped lo hi, init => clamp lo hi lo == lo && init.any fun i => clamp lo hi i == i
  | .kernelSize lo hi, init => clamp lo hi lo == lo && lo % 2 == 1 && hi.all (· % 2 == 1) &&
      init.any fun i => clamp lo hi i == i && i % 2 == 1
  | .directory, init => init.any fun path => slashes path == path

/-- What a setter can have stored, the value the constructor gives included. -/
def Setter.Reached : Setter k → Option k.Value → k.Value → Prop
  | .plain, _, _ | .unlessInitialised, _, _ => True
  | .guarded ok, init, x => init = some x ∨ ok x = true
  | .clamped lo hi, _, i => clamp lo hi i = i
  | .kernelSize lo hi, _, i => clamp lo hi i = i ∧ i % 2 = 1
  | .directory, _, path => slashes path = path

/-- Whether a fresh element accepts a stored value again. -/
def Setter.Restored : Setter k → Env → k.Value → k.Value → Prop
  | .directory, env, fresh, path => path = fresh ∨ env.dirExists path = true
  | .plain, _, _, _ | .guarded _, _, _, _ | .clamped _ _, _, _, _ | .kernelSize _ _, _, _, _
  | .unlessInitialised, _, _, _ => True

theorem clamp_clamp {lo : Int} {hi : Option Int} (h : clamp lo hi lo = lo) (i : Int) :
    clamp lo hi (clamp lo hi i) = clamp lo hi i := by
  cases hi with
  | none =>
    unfold clamp
    dsimp only
    split_ifs <;> omega
  | some hi =>
    unfold clamp at h ⊢
    dsimp only at h ⊢
    split_ifs at h ⊢ <;> omega

theorem slashes_slashes (path : String) : slashes (slashes path) = slashes path := by
  unfold slashes
  rw [String.toList_ofList, List.map_map]
  congr 1
  apply List.map_congr_left
  intro c _
  by_cases hc : c = '\\' <;> simp [hc]

theorem clamp_eq_iff {lo : Int} {hi : Option Int} {i : Int} :
    clamp lo hi i = i ↔ lo ≤ i ∧ ∀ h ∈ hi, i ≤ h := by
  unfold clamp
  cases hi with
  | none =>
    dsimp only
    split_ifs <;> simp <;> omega
  | some hi =>
    simp only [Option.mem_some_iff, forall_eq']
    split_ifs <;> omega

theorem clamp_cases {lo : Int} {hi : Option Int} {i : Int} (h : clamp lo hi i ≠ i) :
    clamp lo hi i = lo ∨ clamp lo hi i ∈ hi := by
  unfold clamp at h ⊢
  by_cases hlo : i < lo
  · exact .inl (if_pos hlo)
  · rw [if_neg hlo] at h ⊢
    cases hi with
    | none => exact absurd rfl h
    | some hi =>
      dsimp only at h ⊢
      split at h
      · exact .inr (by rw [if_pos ‹_›]; rfl)
      · exact absurd rfl h

/-- Odd bounds make every size odd. -/
theorem kernelSize_reached {lo : Int} {hi : Option Int} (hlo : clamp lo hi lo = lo)
    (hodd : lo % 2 = 1) (hhi : ∀ h ∈ hi, h % 2 = 1) (env : Env) (stored i : Int) {j : Int}
    (hj : (Setter.kernelSize lo hi).set env stored i = j) : clamp lo hi j = j ∧ j % 2 = 1 := by
  simp only [Setter.set] at hj
  by_cases hc : clamp lo hi i = i
  · rw [if_neg (not_not.mpr hc)] at hj
    obtain ⟨hl, hh⟩ := clamp_eq_iff.mp hc
    by_cases heven : i % 2 = 0
    · -- the neighbours of an even size are within the odd bounds
      have hj' : j = i + 1 ∨ j = i - 1 := by
        rw [if_pos heven] at hj
        split at hj
        · exact .inl hj.symm
        · exact .inr hj.symm
      refine ⟨clamp_eq_iff.mpr ⟨by omega, ?_⟩, by omega⟩
      intro h hm
      have := hh h hm
      have := hhi h hm
      omega
    · rw [if_neg heven] at hj
      subst j
      exact ⟨hc, by omega⟩
  · rw [if_pos hc] at hj
    subst j
    refine ⟨clamp_clamp hlo i, ?_⟩
    rcases clamp_cases hc with he | hm
    · rw [he]
      exact hodd
    · exact hhi _ hm

/-- A setter stores what it would store again. -/
theorem Setter.reached_set {init : Option k.Value} {setter : Setter k}
    (hs : setter.sound init = true) (env : Env) {stored : k.Value}
    (h : setter.Reached init stored) (x : k.Value) :
    setter.Reached init (setter.set env stored x) := by
  cases setter with
  | plain => trivial
  | unlessInitialised => trivial
  | guarded ok =>
    by_cases hx : ok x = true
    · simp [Setter.set, Setter.Reached, hx]
    · simpa [Setter.set, hx] using h
  | clamped lo hi =>
    simp only [Setter.sound, Bool.and_eq_true, beq_iff_eq] at hs
    exact clamp_clamp hs.1 x
  | kernelSize lo hi =>
    simp only [Setter.sound, Bool.and_eq_true, beq_iff_eq, Option.all_eq_true] at hs
    obtain ⟨⟨⟨hlo, hodd⟩, hhi⟩, -⟩ := hs
    exact kernelSize_reached hlo hodd hhi env stored x rfl
  | directory =>
    by_cases hx : env.dirExists x = true
    · simpa [Setter.set, Setter.Reached, hx] using slashes_slashes x
    · simpa [Setter.set, hx] using h

/-- The value a constructor gives is one of those. -/
theorem Setter.reached_init {init : Option k.Value} {setter : Setter k}
    (hs : setter.sound init = true) {fresh : k.Value} (hf : ∀ x, init = some x → fresh = x) :
    setter.Reached init fresh := by
  cases setter with
  | plain => trivial
  | unlessInitialised => trivial
  | guarded ok =>
    obtain ⟨x, hx⟩ := Option.isSome_iff_exists.mp hs
    exact .inl (hf x hx ▸ hx)
  | clamped lo hi =>
    simp only [Setter.sound, Bool.and_eq_true, beq_iff_eq, Option.any_eq_true] at hs
    obtain ⟨-, x, hx, hc⟩ := hs
    exact hf x hx ▸ hc
  | kernelSize lo hi =>
    simp only [Setter.sound, Bool.and_eq_true, beq_iff_eq, Option.any_eq_true] at hs
    obtain ⟨-, x, hx, hc⟩ := hs
    exact hf x hx ▸ hc
  | directory =>
    simp only [Setter.sound, Option.any_eq_true, beq_iff_eq] at hs
    obtain ⟨x, hx, hc⟩ := hs
    exact hf x hx ▸ hc

/-- Setting a stored value on a fresh element stores it, directories that are gone aside. -/
theorem Setter.set_eq_iff {init : Option k.Value} {setter : Setter k}
    (hs : setter.sound init = true) {env : Env} (hnew : env.initialised = false)
    {fresh : k.Value} (hf : ∀ x, init = some x → fresh = x) {x : k.Value}
    (h : setter.Reached init x) :
    setter.set env fresh x = x ↔ setter.Restored env fresh x := by
  cases setter with
  | plain => simp [Setter.set, Setter.Restored]
  | unlessInitialised => simp [Setter.set, Setter.Restored, hnew]
  | guarded ok =>
    simp only [Setter.set, Setter.Restored, iff_true, ite_eq_left_iff]
    intro hx
    rcases h with h | h
    · exact hf x h
    · exact absurd h hx
  | clamped lo hi =>
    simp only [Setter.set, Setter.Restored, iff_true]
    exact h
  | kernelSize lo hi =>
    obtain ⟨hc, hodd⟩ := h
    simp [Setter.set, Setter.Restored, hc, hodd]
  | directory =>
    have hx : slashes x = x := h
    by_cases hd : env.dirExists x = true
    · simp [Setter.set, Setter.Restored, hd, hx]
    · simp [Setter.set, Setter.Restored, hd, eq_comm]

end ParleVision.Properties
