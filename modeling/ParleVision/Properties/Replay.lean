import ParleVision.Properties.Setters

namespace ParleVision.Properties

/-- A property as its class declares it, with what the constructor gives it, if anything. -/
structure Property where
  name : String
  kind : Kind
  init : Option kind.Value
  setter : Setter kind

/-- A class with its bool, int, string and enum properties in the order of declaration.
A setter may first look at the other properties. -/
structure ElementType where
  className : String
  properties : List Property
  accepts : (i : Fin properties.length) →
      ((j : Fin properties.length) → (properties.get j).kind.Value) →
      (properties.get i).kind.Value → Bool := fun _ _ _ => true

namespace ElementType
variable (T : ElementType)

abbrev Index : Type := Fin T.properties.length

abbrev property (i : T.Index) : Property := T.properties.get i

abbrev Valuation : Type := (i : T.Index) → (T.property i).kind.Value

/-- Members the constructor does not initialise can hold anything. -/
def Constructed (v : T.Valuation) : Prop := ∀ i x, (T.property i).init = some x → v i = x

def set (env : Env) (i : T.Index) (v : T.Valuation) (x : (T.property i).kind.Value) :
    T.Valuation :=
  Function.update v i (if T.accepts i v x then (T.property i).setter.set env (v i) x else v i)

theorem set_self (env : Env) (i : T.Index) (v : T.Valuation) (x : (T.property i).kind.Value) :
    T.set env i v x i =
      if T.accepts i v x then (T.property i).setter.set env (v i) x else v i := by
  unfold set
  rw [Function.update_self]

/-- What setters can make of a constructed element, in whatever order and state. -/
inductive Reachable : T.Valuation → Prop where
  | constructed (v : T.Valuation) : T.Constructed v → Reachable v
  | set (env : Env) (i : T.Index) (v : T.Valuation) (x : (T.property i).kind.Value) :
      Reachable v → Reachable (T.set env i v x)

/-- The texts below `properties`, in order; nothing when a getter throws. -/
def serialize (v : T.Valuation) : Option (List (String × String)) :=
  (List.finRange T.properties.length).mapM fun i =>
    ((T.property i).kind.text (v i)).map fun text => ((T.property i).name, text)

def indexOfProperty (name : String) : Option T.Index :=
  (List.finRange T.properties.length).find? fun i => (T.property i).name == name

/-- One turn of the property loop of `parseElements`; a name that is not declared becomes a
dynamic property. -/
def setProperty (env : Env) (v : T.Valuation) (name text : String) : T.Valuation :=
  match T.indexOfProperty name with
  | none => v
  | some i => T.set env i v ((T.property i).kind.convertData (v i) text)

def restore (env : Env) (texts : List (String × String)) (v : T.Valuation) : T.Valuation :=
  texts.foldl (fun v y => T.setProperty env v y.1 y.2) v

section Replay
variable {T} {env : Env}

theorem indexOfProperty_name (hn : Function.Injective fun i => (T.property i).name)
    (i : T.Index) : T.indexOfProperty (T.property i).name = some i := by
  unfold indexOfProperty
  cases hf : (List.finRange T.properties.length).find? fun j =>
      (T.property j).name == (T.property i).name with
  | none =>
    have := List.find?_eq_none.mp hf i (List.mem_finRange i)
    simp at this
  | some j =>
    have := List.find?_some hf
    exact congrArg some (hn (by simpa using this))

/-- The saved values up to an index, the fresh ones from there on. -/
def upTo (v fresh : T.Valuation) (m : Nat) : T.Valuation :=
  fun j => if j.val < m then v j else fresh j

/-- Restoring the property `i` of `v` on an element that is fresh from there on. -/
def RestoresAt (env : Env) (v fresh : T.Valuation) (i : T.Index) : Prop :=
  ∃ text, (T.property i).kind.text (v i) = some text ∧
    T.set env i (upTo v fresh i) ((T.property i).kind.convertData (fresh i) text) i = v i

theorem upTo_succ (v fresh : T.Valuation) (i : T.Index) :
    Function.update (upTo v fresh i) i (v i) = upTo v fresh (i.val + 1) := by
  funext j
  by_cases hj : j = i
  · subst j
    simp [upTo]
  · have hval : j.val ≠ i.val := fun h => hj (Fin.ext h)
    have hiff : j.val < i.val + 1 ↔ j.val < i.val := by omega
    rw [Function.update_of_ne hj]
    simp only [upTo, hiff]

/-- A setter that restores its property restores one more. -/
theorem set_upTo {v fresh : T.Valuation} {i : T.Index} {x : (T.property i).kind.Value}
    (h : T.set env i (upTo v fresh i) x i = v i) :
    T.set env i (upTo v fresh i) x = upTo v fresh (i.val + 1) := by
  rw [set_self] at h
  unfold set
  rw [h]
  exact upTo_succ v fresh i

theorem upTo_self (v fresh : T.Valuation) (i : T.Index) : upTo v fresh i i = fresh i :=
  if_neg (Nat.lt_irrefl _)

/-- Texts of other properties leave a property alone. -/
theorem restore_other {i : T.Index} {texts : List (String × String)}
    (h : ∀ y ∈ texts, y.1 ≠ (T.property i).name) (v : T.Valuation) :
    T.restore env texts v i = v i := by
  induction texts generalizing v with
  | nil => rfl
  | cons y texts ih =>
    refine (ih (fun y hy => h y (by simp [hy])) _).trans ?_
    change T.setProperty env v y.1 y.2 i = v i
    unfold setProperty
    cases hj : T.indexOfProperty y.1 with
    | none => rfl
    | some j =>
      have hname : (T.property j).name = y.1 := by simpa using List.find?_some hj
      have hne : i ≠ j := by
        intro he
        subst he
        exact h y (by simp) hname.symm
      exact Function.update_of_ne hne _ _

theorem names_of_serialize {is : List T.Index} {v : T.Valuation}
    {texts : List (String × String)}
    (h : (is.mapM fun i => ((T.property i).kind.text (v i)).map fun text =>
      ((T.property i).name, text)) = some texts) :
    ∀ y ∈ texts, ∃ i ∈ is, y.1 = (T.property i).name := by
  induction is generalizing texts with
  | nil =>
    cases h
    simp
  | cons i is ih =>
    simp only [List.mapM_cons, Option.bind_eq_bind, Option.bind_eq_some_iff,
      Option.map_eq_some_iff, Option.pure_def] at h
    obtain ⟨-, ⟨text, -, rfl⟩, ys, hys, h⟩ := h
    cases h
    intro y hy
    rcases List.mem_cons.mp hy with rfl | hy
    · exact ⟨i, by simp, rfl⟩
    · obtain ⟨j, hj, hname⟩ := ih hys y hy
      exact ⟨j, by simp [hj], hname⟩

/-- The replay of the properties from `m` on, when those before are restored. -/
theorem restore_from_iff (hn : Function.Injective fun i => (T.property i).name)
    (v fresh : T.Valuation) (k m : Nat) (hm : m + k = T.properties.length) :
    (∃ texts, (((List.finRange T.properties.length).drop m).mapM fun i =>
        ((T.property i).kind.text (v i)).map fun text => ((T.property i).name, text)) =
          some texts ∧ T.restore env texts (upTo v fresh m) = v) ↔
      ∀ i : T.Index, m ≤ i.val → RestoresAt env v fresh i := by
  induction k generalizing m with
  | zero =>
    have hall : upTo v fresh m = v := by
      funext j
      exact if_pos (by omega)
    rw [List.drop_of_length_le (by simp; omega)]
    simp only [List.mapM_nil, Option.pure_def, Option.some.injEq, exists_eq_left']
    refine ⟨fun _ i hi => absurd i.isLt (by omega), fun _ => hall⟩
  | succ k ih =>
    have hlt : m < T.properties.length := by omega
    obtain ⟨i, hi⟩ : ∃ i : T.Index, i.val = m := ⟨⟨m, hlt⟩, rfl⟩
    have hdrop : (List.finRange T.properties.length).drop m =
        i :: (List.finRange T.properties.length).drop (m + 1) := by
      rw [List.drop_eq_getElem_cons (by simpa using hlt)]
      congr 1
      exact Fin.ext (by simp [hi])
    have hsplit : (∀ j : T.Index, m ≤ j.val → RestoresAt env v fresh j) ↔
        RestoresAt env v fresh i ∧ ∀ j : T.Index, m + 1 ≤ j.val → RestoresAt env v fresh j := by
      constructor
      · exact fun h => ⟨h i (by omega), fun j hj => h j (by omega)⟩
      · rintro ⟨h, h'⟩ j hj
        by_cases he : j = i
        · exact he ▸ h
        · have hne : j.val ≠ i.val := fun hv => he (Fin.ext hv)
          exact h' j (by omega)
    rw [hsplit, ← ih (m + 1) (by omega), hdrop]
    simp only [List.mapM_cons, Option.bind_eq_bind, Option.bind_eq_some_iff,
      Option.map_eq_some_iff, Option.pure_def, Option.some.injEq]
    -- the text of property `i` is read where it is still fresh
    have hstep : ∀ text, T.setProperty env (upTo v fresh m) (T.property i).name text =
        T.set env i (upTo v fresh i) ((T.property i).kind.convertData (fresh i) text) := by
      intro text
      unfold setProperty
      rw [indexOfProperty_name hn, hi, ← upTo_self v fresh i, hi]
    constructor
    · rintro ⟨-, ⟨-, ⟨text, htext, rfl⟩, ys, hys, rfl⟩, hres⟩
      have hlater : ∀ y ∈ ys, y.1 ≠ (T.property i).name := by
        intro y hy he
        obtain ⟨j, hj, hname⟩ := names_of_serialize hys y hy
        have hji : j = i := hn (hname.symm.trans he)
        subst hji
        obtain ⟨l, hl, hlj⟩ := List.mem_iff_getElem.mp hj
        have := congrArg Fin.val hlj
        simp at this
        omega
      have hres' : T.restore env ys (T.set env i (upTo v fresh i)
          ((T.property i).kind.convertData (fresh i) text)) = v := by
        rw [← hstep]
        exact hres
      have hi' : T.set env i (upTo v fresh i) ((T.property i).kind.convertData (fresh i) text) i =
          v i := (restore_other hlater _).symm.trans (congrFun hres' i)
      refine ⟨⟨text, htext, hi'⟩, ys, hys, ?_⟩
      rw [← hi, ← set_upTo hi']
      exact hres'
    · rintro ⟨⟨text, htext, hi'⟩, ys, hys, hres⟩
      refine ⟨_, ⟨_, ⟨text, htext, rfl⟩, ys, hys, rfl⟩, ?_⟩
      change T.restore env ys (T.setProperty env (upTo v fresh m) (T.property i).name text) = v
      rw [hstep, set_upTo hi', hi]
      exact hres

/-- A saved valuation is restored exactly when every setter, in turn, restores its property. -/
theorem restore_serialize_iff (hn : Function.Injective fun i => (T.property i).name)
    (v fresh : T.Valuation) :
    (∃ texts, T.serialize v = some texts ∧ T.restore env texts fresh = v) ↔
      ∀ i, RestoresAt env v fresh i := by
  have hall : 0 + T.properties.length = T.properties.length := Nat.zero_add _
  have h : _ ↔ ∀ i : T.Index, 0 ≤ i.val → RestoresAt env v fresh i :=
    restore_from_iff hn v fresh T.properties.length 0 hall
  have hfresh : upTo v fresh 0 = fresh := funext fun j => if_neg (Nat.not_lt_zero _)
  simpa [hfresh, serialize] using h

end Replay

end ElementType

/-- Whether the text of a value is read as that value in place of the given one. -/
def Kind.Readable : (k : Kind) → k.Value → k.Value → Prop
  | .enum, fresh, e => e.m_items = fresh.m_items ∧ e.selectsFirst = true
  | .bool, _, _ | .int, _, _ | .string, _, _ => True

theorem Kind.convertData_text_iff (k : Kind) (fresh x : k.Value) :
    (∃ text, k.text x = some text ∧ k.convertData fresh text = x) ↔ k.Readable fresh x := by
  cases k with
  | bool =>
    refine iff_of_true ⟨_, rfl, ?_⟩ trivial
    have hread : ∀ b : Bool, (sameIgnoringCase (if b then "true" else "false") "true" ||
        (if b then "true" else "false") == "1") = b := by decide
    exact hread x
  | int => exact iff_of_true ⟨_, rfl, by simp [convertData]⟩ trivial
  | string => exact iff_of_true ⟨_, rfl, rfl⟩ trivial
  | enum =>
    constructor
    · rintro ⟨name, hname, hx⟩
      exact (Enum.setSelected_eq_iff hname).mp hx
    · intro h
      cases hname : Enum.getSelectedItemName x with
      | none =>
        have hfirst := h.2
        simp [Enum.selectsFirst, hname] at hfirst
      | some name => exact ⟨name, hname, (Enum.setSelected_eq_iff hname).mpr h⟩

/-- The constructor's value passes the property's own check, and the loader can name it. -/
def Property.sound (p : Property) : Bool :=
  p.setter.sound p.init && match p.kind, p.init with
    | .enum, init => init.any Enum.selectsFirst
    | .bool, _ | .int, _ | .string, _ => true

def Property.Restored (p : Property) (env : Env) (fresh x : p.kind.Value) : Prop :=
  p.kind.Readable fresh x ∧ p.setter.Restored env fresh x

theorem Kind.readable_of_ne_enum {k : Kind} (hk : k ≠ .enum) (fresh x : k.Value) :
    k.Readable fresh x := by
  cases k with
  | bool => trivial
  | int => trivial
  | string => trivial
  | enum => exact absurd rfl hk

/-- A setter of an enum stores its argument or nothing. -/
theorem Setter.set_enum (setter : Setter .enum) (env : Env) (stored x : Enum) :
    setter.set env stored x = x ∨ setter.set env stored x = stored := by
  cases setter with
  | plain => exact .inl rfl
  | guarded ok =>
    by_cases hx : ok x = true
    · exact .inl (if_pos hx)
    · exact .inr (if_neg hx)
  | unlessInitialised =>
    by_cases hi : env.initialised = true
    · exact .inr (if_pos hi)
    · exact .inl (if_neg hi)

section Restore
variable {p : Property} {env : Env} {fresh x : p.kind.Value}

/-- A property that other properties have no say in is restored when its value is readable
and, if it is a directory, still there. -/
theorem Property.restored_iff (hp : p.sound = true) (hnew : env.initialised = false)
    (hf : ∀ y, p.init = some y → fresh = y) (hx : p.setter.Reached p.init x) :
    (∃ text, p.kind.text x = some text ∧
      p.setter.set env fresh (p.kind.convertData fresh text) = x) ↔ p.Restored env fresh x := by
  obtain ⟨name, kind, init, setter⟩ := p
  simp only [Property.sound, Bool.and_eq_true] at hp
  obtain ⟨hs, henum⟩ := hp
  have hset := Setter.set_eq_iff hs hnew hf hx
  unfold Property.Restored
  dsimp only at hset ⊢
  rw [← hset, ← Kind.convertData_text_iff]
  constructor
  · rintro ⟨text, htext, hres⟩
    have hread : kind.convertData fresh text = x := by
      by_cases hk : kind = .enum
      · subst hk
        rcases setter.set_enum env fresh (Kind.enum.convertData fresh text) with he | he
        · exact he.symm.trans hres
        · -- rejected, so the saved enum is the one every element starts with
          have hx : fresh = x := he.symm.trans hres
          obtain ⟨y, hy, hfirst⟩ := Option.any_eq_true _ _ |>.mp henum
          refine (Enum.setSelected_eq_iff htext).mpr ⟨congrArg Enum.m_items hx.symm, ?_⟩
          rw [← hx, hf y hy]
          exact hfirst
      · obtain ⟨text', htext', hread⟩ := (Kind.convertData_text_iff kind fresh x).mpr
          (Kind.readable_of_ne_enum hk fresh x)
        rw [htext] at htext'
        cases htext'
        exact hread
    exact ⟨⟨text, htext, hread⟩, hread ▸ hres⟩
  · rintro ⟨⟨text, htext, hread⟩, hres⟩
    exact ⟨text, htext, hread.symm ▸ hres⟩

end Restore

namespace ElementType
variable {T : ElementType} {env : Env} {v fresh : T.Valuation}

def wellFormed (T : ElementType) : Bool :=
  decide (T.properties.map Property.name).Nodup && T.properties.all Property.sound

theorem name_injective (hT : T.wellFormed = true) :
    Function.Injective fun i => (T.property i).name := by
  simp only [wellFormed, Bool.and_eq_true, decide_eq_true_eq] at hT
  intro i j hij
  have hn := List.nodup_iff_injective_get.mp hT.1
  have hcast : (⟨i.val, by simp⟩ : Fin (T.properties.map Property.name).length) =
      ⟨j.val, by simp⟩ := hn (by simpa using hij)
  exact Fin.ext (Fin.mk.inj hcast)

theorem property_sound (hT : T.wellFormed = true) (i : T.Index) : (T.property i).sound = true := by
  simp only [wellFormed, Bool.and_eq_true, List.all_eq_true] at hT
  exact hT.2 _ (List.get_mem _ _)

/-- Whatever the setters are called with, they store what they would store again. -/
theorem Reachable.reached (hT : T.wellFormed = true) (hv : T.Reachable v) (i : T.Index) :
    (T.property i).setter.Reached (T.property i).init (v i) := by
  have hs : ∀ i, (T.property i).setter.sound (T.property i).init = true := by
    intro i
    have := property_sound hT i
    simp only [Property.sound, Bool.and_eq_true] at this
    exact this.1
  induction hv with
  | constructed v hv => exact Setter.reached_init (hs i) (hv i)
  | set env j v x _ ih =>
    by_cases hij : i = j
    · subst hij
      rw [set_self]
      split
      · exact Setter.reached_set (hs i) env ih x
      · exact ih
    · unfold ElementType.set
      rw [Function.update_of_ne hij]
      exact ih

theorem restoresAt_iff (hT : T.wellFormed = true) (hnew : env.initialised = false)
    (hv : T.Reachable v) (hfresh : T.Constructed fresh) {i : T.Index}
    (hacc : ∀ x, T.accepts i (upTo v fresh i) x = true) :
    RestoresAt env v fresh i ↔ (T.property i).Restored env (fresh i) (v i) := by
  rw [← Property.restored_iff (property_sound hT i) hnew (hfresh i) (hv.reached hT i)]
  unfold RestoresAt
  simp only [set_self, hacc, if_true, upTo_self]

/-- Where no setter looks at other properties, each property is restored by itself. -/
theorem restore_iff (hT : T.wellFormed = true) (hacc : ∀ i v x, T.accepts i v x = true)
    (hnew : env.initialised = false) (hv : T.Reachable v) (hfresh : T.Constructed fresh) :
    (∃ texts, T.serialize v = some texts ∧ T.restore env texts fresh = v) ↔
      ∀ i, (T.property i).Restored env (fresh i) (v i) := by
  rw [restore_serialize_iff (name_injective hT)]
  exact forall_congr' fun i => restoresAt_iff hT hnew hv hfresh (hacc i _)

end ElementType

end ParleVision.Properties
