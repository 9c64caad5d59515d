import Mathlib.Algebra.Order.BigOperators.Group.Finset
import Mathlib.Data.Fintype.Sum

namespace ParleVision.Lib

variable {R : Type u} {C : Type v}

/-- Pairs of which no two share a row or a column. -/
structure Matching (star : R → C → Prop) : Prop where
  row : ∀ {i j j'}, star i j → star i j' → j = j'
  column : ∀ {i i' j}, star i j → star i' j → i = i'

theorem Matching.mono {star star' : R → C → Prop} (h : Matching star)
    (hsub : ∀ i j, star' i j → star i j) : Matching star' where
  row hj hj' := h.row (hsub _ _ hj) (hsub _ _ hj')
  column hi hi' := h.column (hsub _ _ hi) (hsub _ _ hi')

/-- A path from a primed pair to the starred pair in its column, from there to the primed pair
in the row of that, and so on to a primed pair in whose column there is no star. -/
inductive Alternating (star prime : R → C → Prop) : R → C → List (R × C) → Prop where
  | last {i : R} {j : C} (hprime : prime i j) (hnone : ∀ i', ¬ star i' j) :
      Alternating star prime i j [(i, j)]
  | more {i i' : R} {j j' : C} {path : List (R × C)} (hprime : prime i j) (hstar : star i' j)
      (hrest : Alternating star prime i' j' path) :
      Alternating star prime i j ((i, j) :: (i', j) :: path)

/-- The primes come in layers: the star in the column of a primed pair is in a row of an
earlier layer. -/
structure Layers (star prime : R → C → Prop) (time : R → Nat) : Prop where
  matching : Matching star
  apart : ∀ {i j}, star i j → ¬ prime i j
  unique : ∀ {i j j'}, prime i j → prime i j' → j = j'
  earlier : ∀ {i j i'}, prime i j → star i' j → time i' < time i

def toggled (star prime : R → C → Prop) (path : List (R × C)) (i : R) (j : C) : Prop :=
  (prime i j ∧ (i, j) ∈ path) ∨ (star i j ∧ (i, j) ∉ path)

namespace Alternating
variable {star prime : R → C → Prop} {time : R → Nat} {i : R} {j : C} {path : List (R × C)}

theorem head (h : Alternating star prime i j path) : prime i j ∧ (i, j) ∈ path := by
  cases h with
  | last hprime => exact ⟨hprime, by simp⟩
  | more hprime => exact ⟨hprime, by simp⟩

/-- The path goes back in time, and its stars are earlier than where it starts. -/
theorem time_le (hl : Layers star prime time) (h : Alternating star prime i j path) :
    ∀ x ∈ path, time x.1 ≤ time i ∧ (star x.1 x.2 → time x.1 < time i) := by
  induction h with
  | last hprime =>
    intro x hx
    rw [List.mem_singleton.mp hx]
    exact ⟨Nat.le_refl _, fun hstar => absurd hprime (hl.apart hstar)⟩
  | more hprime hstar _ ih =>
    intro x hx
    have hlt := hl.earlier hprime hstar
    rcases List.mem_cons.mp hx with rfl | hx
    · exact ⟨Nat.le_refl _, fun hstar => absurd hprime (hl.apart hstar)⟩
    rcases List.mem_cons.mp hx with rfl | hx
    · exact ⟨Nat.le_of_lt hlt, fun _ => hlt⟩
    · have hle := (ih x hx).1
      exact ⟨Nat.le_of_lt (Nat.lt_of_le_of_lt hle hlt), fun _ => Nat.lt_of_le_of_lt hle hlt⟩

/-- The star in the column of a primed pair of the path is on the path. -/
theorem star_of_column (hl : Layers star prime time) (h : Alternating star prime i j path) :
    ∀ x ∈ path, prime x.1 x.2 → ∀ k, star k x.2 → (k, x.2) ∈ path := by
  induction h with
  | last hprime hnone =>
    intro x hx _ k hk
    rw [List.mem_singleton.mp hx] at hk
    exact absurd hk (hnone k)
  | more hprime hstar _ ih =>
    intro x hx hxprime k hk
    rcases List.mem_cons.mp hx with rfl | hx
    · rw [hl.matching.column hk hstar]
      simp
    rcases List.mem_cons.mp hx with rfl | hx
    · exact absurd hxprime (hl.apart hstar)
    · exact List.mem_cons_of_mem _ (List.mem_cons_of_mem _ (ih x hx hxprime k hk))

/-- In the row of a starred pair of the path there is a primed one. -/
theorem prime_of_row (hl : Layers star prime time) (h : Alternating star prime i j path) :
    ∀ x ∈ path, star x.1 x.2 → ∃ j', prime x.1 j' ∧ (x.1, j') ∈ path := by
  induction h with
  | last hprime =>
    intro x hx hstar
    rw [List.mem_singleton.mp hx] at hstar
    exact absurd hprime (hl.apart hstar)
  | more hprime hstar hrest ih =>
    intro x hx hxstar
    rcases List.mem_cons.mp hx with rfl | hx
    · exact absurd hprime (hl.apart hxstar)
    rcases List.mem_cons.mp hx with rfl | hx
    · exact ⟨_, hrest.head.1, by simp [hrest.head.2]⟩
    · obtain ⟨j', hj', hmem⟩ := ih x hx hxstar
      exact ⟨j', hj', by simp [hmem]⟩

/-- In the row of a primed pair of the path, but for the first, there is a starred one. -/
theorem star_of_row (hl : Layers star prime time) (h : Alternating star prime i j path) :
    ∀ x ∈ path, prime x.1 x.2 → x.1 = i ∨ ∃ j', star x.1 j' ∧ (x.1, j') ∈ path := by
  induction h with
  | last hprime =>
    intro x hx _
    rw [List.mem_singleton.mp hx]
    exact .inl rfl
  | @more i i' j j' path hprime hstar _ ih =>
    intro x hx hxprime
    rcases List.mem_cons.mp hx with rfl | hx
    · exact .inl rfl
    rcases List.mem_cons.mp hx with rfl | hx
    · exact absurd hxprime (hl.apart hstar)
    rcases ih x hx hxprime with hrow | ⟨j'', hj'', hmem⟩
    · exact .inr ⟨j, by rw [hrow]; exact hstar, by simp [hrow]⟩
    · exact .inr ⟨j'', hj'', by simp [hmem]⟩

/-- No two primed pairs of the path share a column. -/
theorem columns (hl : Layers star prime time) (h : Alternating star prime i j path) :
    ∀ x ∈ path, ∀ y ∈ path, prime x.1 x.2 → prime y.1 y.2 → x.2 = y.2 → x.1 = y.1 := by
  induction h with
  | last hprime =>
    intro x hx y hy _ _ _
    rw [List.mem_singleton.mp hx, List.mem_singleton.mp hy]
  | @more i i' j j' path hprime hstar hrest ih =>
    have hfirst : ∀ y ∈ path, prime y.1 y.2 → y.2 ≠ j := by
      rintro y hy hyprime rfl
      -- the star in that column would be on the rest of the path, which starts from its row
      have hmem := hrest.star_of_column hl y hy hyprime i' hstar
      exact Nat.lt_irrefl _ ((hrest.time_le hl _ hmem).2 hstar)
    intro x hx y hy hxprime hyprime hxy
    rcases List.mem_cons.mp hx with rfl | hx
    · rcases List.mem_cons.mp hy with rfl | hy
      · rfl
      rcases List.mem_cons.mp hy with rfl | hy
      · exact absurd hyprime (hl.apart hstar)
      · exact absurd hxy.symm (hfirst y hy hyprime)
    rcases List.mem_cons.mp hx with rfl | hx
    · exact absurd hxprime (hl.apart hstar)
    rcases List.mem_cons.mp hy with rfl | hy
    · exact absurd hxy (hfirst x hx hxprime)
    rcases List.mem_cons.mp hy with rfl | hy
    · exact absurd hyprime (hl.apart hstar)
    · exact ih x hx y hy hxprime hyprime hxy

theorem nodup (hl : Layers star prime time) (h : Alternating star prime i j path) :
    path.Nodup := by
  induction h with
  | last => exact List.nodup_singleton _
  | @more i i' j j' path hprime hstar hrest ih =>
    have hlt := hl.earlier hprime hstar
    rw [List.nodup_cons, List.nodup_cons]
    refine ⟨?_, ?_, ih⟩
    · intro hmem
      rcases List.mem_cons.mp hmem with heq | hmem
      · cases heq
        exact Nat.lt_irrefl _ hlt
      · exact absurd (hrest.time_le hl _ hmem).1 (Nat.not_le_of_lt hlt)
    · intro hmem
      exact Nat.lt_irrefl _ ((hrest.time_le hl _ hmem).2 hstar)

/-- The path is turned over: what is starred then is a matching again. -/
theorem toggled_matching (hl : Layers star prime time) (h : Alternating star prime i j path)
    (hfree : ∀ j', ¬ star i j') : Matching (toggled star prime path) where
  row := by
    intro k c c' hc hc'
    -- the star of a row that the path comes through is on the path
    have hrow {c c' : C} (hprime : prime k c) (hmem : (k, c) ∈ path) (hstar : star k c') :
        (k, c') ∈ path := by
      rcases h.star_of_row hl _ hmem hprime with rfl | ⟨d, hd, hdmem⟩
      · exact absurd hstar (hfree c')
      · rw [hl.matching.row hstar hd]
        exact hdmem
    rcases hc with ⟨hc, hmem⟩ | ⟨hc, hmem⟩
    · rcases hc' with ⟨hc', hmem'⟩ | ⟨hc', hmem'⟩
      · exact hl.unique hc hc'
      · exact absurd (hrow hc hmem hc') hmem'
    · rcases hc' with ⟨hc', hmem'⟩ | ⟨hc', hmem'⟩
      · exact absurd (hrow hc' hmem' hc) hmem
      · exact hl.matching.row hc hc'
  column := by
    intro k k' c hk hk'
    rcases hk with ⟨hk, hmem⟩ | ⟨hk, hmem⟩
    · rcases hk' with ⟨hk', hmem'⟩ | ⟨hk', hmem'⟩
      · exact h.columns hl _ hmem _ hmem' hk hk' rfl
      · exact absurd (h.star_of_column hl _ hmem hk k' hk') hmem'
    · rcases hk' with ⟨hk', hmem'⟩ | ⟨hk', hmem'⟩
      · exact absurd (h.star_of_column hl _ hmem' hk' k hk) hmem
      · exact hl.matching.column hk hk'

/-- And it has a star in one more row, that in which the path starts. -/
theorem toggled_row (hl : Layers star prime time) (h : Alternating star prime i j path) (k : R) :
    (∃ c, toggled star prime path k c) ↔ k = i ∨ ∃ c, star k c := by
  constructor
  · rintro ⟨c, ⟨hc, hmem⟩ | ⟨hc, -⟩⟩
    · exact (h.star_of_row hl _ hmem hc).imp_right fun ⟨j', hj', _⟩ => ⟨j', hj'⟩
    · exact .inr ⟨c, hc⟩
  · rintro (rfl | ⟨c, hc⟩)
    · exact ⟨j, .inl h.head⟩
    · by_cases hmem : (k, c) ∈ path
      · obtain ⟨j', hj', hmem'⟩ := h.prime_of_row hl _ hmem hc
        exact ⟨j', .inl ⟨hj', hmem'⟩⟩
      · exact ⟨c, .inr ⟨hc, hmem⟩⟩

end Alternating

/-- An assignment is of least cost when what each pair costs is split between its row and its
column, and no other pair costs less than that. -/
theorem sum_le_of_reduced [Fintype R] [Fintype C] {α : Type w} [AddCommGroup α] [PartialOrder α]
    [IsOrderedAddMonoid α] {cost : R → C → α} {u : R → α} {v : C → α}
    (hle : ∀ i j, u i + v j ≤ cost i j) {assigned : R ≃ C}
    (heq : ∀ i, cost i (assigned i) = u i + v (assigned i)) (other : R ≃ C) :
    ∑ i, cost i (assigned i) ≤ ∑ i, cost i (other i) := by
  have hsplit (e : R ≃ C) : ∑ i, (u i + v (e i)) = ∑ i, u i + ∑ j, v j := by
    rw [Finset.sum_add_distrib, Equiv.sum_comp e v]
  calc ∑ i, cost i (assigned i)
      = ∑ i, (u i + v (assigned i)) := Finset.sum_congr rfl fun i _ => heq i
    _ = ∑ i, (u i + v (other i)) := by rw [hsplit, hsplit]
    _ ≤ ∑ i, cost i (other i) := Finset.sum_le_sum fun i _ => hle i (other i)

def OneToOne (assigned : R → Option C) : Prop :=
  ∀ i i' j, assigned i = some j → assigned i' = some j → i = i'

def Exhausts (assigned : R → Option C) : Prop :=
  (∀ i, ∃ j, assigned i = some j) ∨ ∀ j, ∃ i, assigned i = some j

def weight [Fintype R] {α : Type w} [AddCommMonoid α] (weights : R → C → α)
    (assigned : R → Option C) : α :=
  ∑ i, (assigned i).elim 0 (weights i)

/-- No other assignment weighs more. -/
def Best [Fintype R] {α : Type w} [AddCommMonoid α] [LE α] (weights : R → C → α)
    (assigned : R → Option C) : Prop :=
  OneToOne assigned ∧ ∀ other, OneToOne other → weight weights other ≤ weight weights assigned

section
variable {N : Type x} [Fintype N] (f : R ↪ N) (g : C ↪ N)

/-- In a square that is large enough, the assignment can be completed. -/
theorem OneToOne.exists_equiv {assigned : R → Option C} (h : OneToOne assigned) :
    ∃ e : N ≃ N, ∀ i j, assigned i = some j → e (f i) = g j := by
  have hmap (i : R) (j : C) (hij : assigned i = some j) :
      Function.extend f (fun i => (assigned i).elim (f i) g) id (f i) = g j := by
    rw [f.injective.extend_apply, hij]
    rfl
  have hinj : Set.InjOn (Function.extend f (fun i => (assigned i).elim (f i) g) id)
      {y | ∃ i j, assigned i = some j ∧ f i = y} := by
    rintro y ⟨i, j, hij, rfl⟩ y' ⟨i', j', hij', rfl⟩ heq
    rw [hmap i j hij, hmap i' j' hij'] at heq
    rw [← g.injective heq] at hij'
    rw [h i i' j hij hij']
  obtain ⟨e, he⟩ := Set.MapsTo.exists_equiv_extend_of_card_eq
    (t := (Finset.univ : Finset N)) Finset.card_univ.symm (fun y _ => by simp) hinj
  refine ⟨e.trans (Equiv.subtypeUnivEquiv Finset.mem_univ), fun i j hij => ?_⟩
  have hmem := he (f i) ⟨i, j, hij, rfl⟩
  rw [hmap i j hij] at hmem
  exact hmem

omit [Fintype N] in
/-- A square that is no larger than it has to be leaves nothing out on one of the sides. -/
theorem Exhausts.of_equiv {assigned : R → Option C} {e : N ≃ N}
    (hassigned : ∀ i j, assigned i = some j ↔ e (f i) = g j)
    (hsquare : Function.Surjective f ∨ Function.Surjective g) : Exhausts assigned := by
  rcases hsquare with hrows | hcolumns
  · right
    intro j
    obtain ⟨i, hi⟩ := hrows (e.symm (g j))
    exact ⟨i, (hassigned i j).mpr (by rw [hi, e.apply_symm_apply])⟩
  · left
    intro i
    obtain ⟨j, hj⟩ := hcolumns (e (f i))
    exact ⟨j, (hassigned i j).mpr hj.symm⟩

variable [Fintype R] {α : Type w} [AddCommGroup α] [PartialOrder α] [IsOrderedAddMonoid α]

/-- An assignment weighs most when what completes it costs least, where every pair costs as
much as any other but for its weight. -/
theorem weight_le_of_least {cost : N → N → α} {high : α} {weights : R → C → α}
    (hinner : ∀ i j, cost (f i) (g j) = high - weights i j)
    (houter : ∀ x y, (∀ i j, f i = x → g j ≠ y) → cost x y = high)
    (hpos : ∀ i j, 0 ≤ weights i j) {assigned other : R → Option C} {e : N ≃ N}
    (hassigned : ∀ i j, assigned i = some j ↔ e (f i) = g j)
    (hleast : ∀ e' : N ≃ N, ∑ x, cost x (e x) ≤ ∑ x, cost x (e' x)) (hother : OneToOne other) :
    weight weights other ≤ weight weights assigned := by
  obtain ⟨e', he'⟩ := hother.exists_equiv f g
  have hgain (e : N ≃ N) :
      ∑ x, cost x (e x) = ∑ _x : N, high - ∑ i, (high - cost (f i) (e (f i))) := by
    have hrange : ∑ i, (high - cost (f i) (e (f i))) = ∑ x, (high - cost x (e x)) := by
      refine Fintype.sum_of_injective f f.injective _ _ (fun x hx => ?_) fun i => rfl
      rw [houter x (e x) fun i j hi _ => hx ⟨i, hi⟩, sub_self]
    rw [hrange, Finset.sum_sub_distrib, sub_sub_cancel]
  have hle : ∑ i, (high - cost (f i) (e' (f i))) ≤ ∑ i, (high - cost (f i) (e (f i))) := by
    have hcost := hleast e'
    rw [hgain e, hgain e'] at hcost
    exact (sub_le_sub_iff_left _).mp hcost
  calc weight weights other
      ≤ ∑ i, (high - cost (f i) (e' (f i))) := by
        refine Finset.sum_le_sum fun i _ => ?_
        cases hi : other i with
        | some j =>
          rw [he' i j hi, hinner, sub_sub_cancel]
          exact le_refl _
        | none =>
          change 0 ≤ _
          rw [sub_nonneg]
          by_cases hj : ∃ j, g j = e' (f i)
          · obtain ⟨j, hj⟩ := hj
            rw [← hj, hinner]
            exact sub_le_self _ (hpos i j)
          · rw [houter _ _ fun _ j _ hj' => hj ⟨j, hj'⟩]
    _ ≤ ∑ i, (high - cost (f i) (e (f i))) := hle
    _ = weight weights assigned := by
        refine Finset.sum_congr rfl fun i _ => ?_
        cases hi : assigned i with
        | some j =>
          rw [(hassigned i j).mp hi, hinner, sub_sub_cancel]
          rfl
        | none =>
          rw [houter _ _ fun k j hk hj => ?_, sub_self]
          · rfl
          · rw [(hassigned i j).mpr hj.symm] at hi
            cases hi

end

end ParleVision.Lib
