import ParleVision.Lib.Matching
import ParleVision.Tracker.Munkres
import Mathlib.Data.Fintype.Card
import Mathlib.Tactic.Linarith

namespace ParleVision.Tracker
open Lib

theorem mem_cells {rows columns : Nat} (x : Cell rows columns) : x ∈ cells rows columns :=
  List.mem_product.mpr ⟨List.mem_finRange _, List.mem_finRange _⟩

theorem cells_nodup (rows columns : Nat) : (cells rows columns).Nodup :=
  (List.nodup_finRange rows).product (List.nodup_finRange columns)

theorem find_unique {α : Type} {p : α → Bool} {l : List α} {a : α} (ha : a ∈ l)
    (hp : p a = true) (hunique : ∀ b, p b = true → b = a) : l.find? p = some a := by
  obtain ⟨b, hb⟩ := Option.isSome_iff_exists.mp (List.find?_isSome.mpr ⟨a, ha, hp⟩)
  rw [hb, hunique b (List.find?_some hb)]

namespace Munkres
variable {rows columns : Nat}

section
variable (s : Munkres rows columns)

def Star (i : Fin rows) (j : Fin columns) : Prop := s.mask_matrix i j = .STAR

def Prime (i : Fin rows) (j : Fin columns) : Prop := s.mask_matrix i j = .PRIME

instance (i : Fin rows) (j : Fin columns) : Decidable (s.Star i j) :=
  inferInstanceAs (Decidable (_ = _))

def starRows : Finset (Fin rows) := Finset.univ.filter fun i => ∃ j, s.Star i j

theorem mem_starRows {i : Fin rows} : i ∈ s.starRows ↔ ∃ j, s.Star i j := by
  simp [starRows]

theorem starInRow_none {i : Fin rows} : s.starInRow i = none ↔ ∀ j, ¬ s.Star i j := by
  simp [starInRow, List.find?_eq_none, Star]

theorem starInColumn_none {j : Fin columns} : s.starInColumn j = none ↔ ∀ i, ¬ s.Star i j := by
  simp [starInColumn, List.find?_eq_none, Star]

theorem starInRow_some {i : Fin rows} {j : Fin columns} (h : s.starInRow i = some j) :
    s.Star i j := by
  have hfound := List.find?_some h
  exact beq_iff_eq.mp hfound

theorem uncovered_none (h : s.find_uncovered_in_matrix 0 = none) {i : Fin rows} {j : Fin columns}
    (hi : s.row_mask i = false) (hj : s.col_mask j = false) : s.matrix i j ≠ 0 := by
  have hnot := List.find?_eq_none.mp h (i, j) (mem_cells _)
  simpa [hi, hj] using hnot

theorem uncovered_some {x : Cell rows columns} (h : s.find_uncovered_in_matrix 0 = some x) :
    s.row_mask x.1 = false ∧ s.col_mask x.2 = false ∧ s.matrix x.1 x.2 = 0 := by
  simpa [and_assoc] using List.find?_some h

theorem uncovered_isSome {i : Fin rows} {j : Fin columns} (hi : s.row_mask i = false)
    (hj : s.col_mask j = false) (hzero : s.matrix i j = 0) :
    ∃ x, s.find_uncovered_in_matrix 0 = some x := by
  apply Option.isSome_iff_exists.mp
  refine List.find?_isSome.mpr ⟨(i, j), mem_cells _, ?_⟩
  simp [hi, hj, hzero]

end

/-- Costs that do not mislead the solver from the start. -/
def Fair (cost : Matrix rows columns ℚ) : Prop :=
  (∀ i j, 0 ≤ cost i j) ∨ ∀ i j, cost i j ≠ 0

/-- The matrix is the one to be solved, less what was charged to the rows and the columns. -/
structure Reduced (cost : Matrix rows columns ℚ) (s : Munkres rows columns) : Prop where
  charged : ∃ (u : Fin rows → ℚ) (v : Fin columns → ℚ), ∀ i j, s.matrix i j = cost i j - u i - v j
  zeros : ∀ i j, s.mask_matrix i j ≠ .NORMAL → s.matrix i j = 0
  nonneg : Fair cost →
    (∀ i j, 0 ≤ s.matrix i j) ∨ ∀ i j, s.mask_matrix i j = .NORMAL ∧ s.matrix i j ≠ 0

structure Settled (cost : Matrix rows columns ℚ) (s : Munkres rows columns) : Prop where
  matching : Matching s.Star
  unprimed : ∀ i j, ¬ s.Prime i j
  row_mask : ∀ i, s.row_mask i = false
  col_mask : ∀ j, s.col_mask j = false
  reduced : Reduced cost s

structure Searching (cost : Matrix rows columns ℚ) (s : Munkres rows columns) : Prop where
  layers : ∃ time, Layers s.Star s.Prime time
  covered : ∀ i, s.row_mask i = true → (∃ j, s.Star i j) ∧ ∃ j, s.Prime i j
  primes : ∀ i j, s.Prime i j → s.row_mask i = true ∧ s.col_mask j = false
  crossed : ∀ j, s.col_mask j = true ↔ ∃ i, s.Star i j ∧ s.row_mask i = false
  few : s.starRows.card < min rows columns
  reduced : Reduced cost s

structure Ready (cost : Matrix rows columns ℚ) (s : Munkres rows columns)
    (saved : Cell rows columns) : Prop where
  layers : ∃ time, Layers s.Star s.Prime time
  primed : s.Prime saved.1 saved.2
  free : ∀ j, ¬ s.Star saved.1 j
  follows : ∀ i j i', s.Prime i j → s.Star i' j → ∃ j', s.Prime i' j'
  reduced : Reduced cost s

variable {cost : Matrix rows columns ℚ} {s : Munkres rows columns}

theorem apart {i : Fin rows} {j : Fin columns} (h : s.Star i j) : ¬ s.Prime i j := by
  unfold Star at h
  unfold Prime
  rw [h]
  exact nofun

theorem star_setMask_star (x : Cell rows columns) (i : Fin rows) (j : Fin columns) :
    (s.setMask x .STAR).Star i j ↔ (i, j) = x ∨ s.Star i j := by
  unfold Star setMask
  dsimp only
  split <;> simp [*]

/-- A zero can be marked. -/
theorem Reduced.setMask (h : Reduced cost s) {x : Cell rows columns}
    (hzero : s.matrix x.1 x.2 = 0) (mask : Mask) : Reduced cost (s.setMask x mask) where
  charged := h.charged
  zeros := by
    intro i j hne
    by_cases hx : (i, j) = x
    · subst x
      exact hzero
    · apply h.zeros i j
      simpa [Munkres.setMask, hx] using hne
  nonneg hfair := .inl ((h.nonneg hfair).resolve_right fun hnone => (hnone x.1 x.2).2 hzero)

theorem started_settled (cost : Matrix rows columns ℚ) : Settled cost (.started cost) where
  matching := ⟨(fun h => by cases h), (fun h => by cases h)⟩
  unprimed _ _ h := by cases h
  row_mask _ := rfl
  col_mask _ := rfl
  reduced := by
    refine ⟨⟨fun _ => 0, fun _ => 0, fun i j => by simp [started]⟩, fun i j h => absurd rfl h, ?_⟩
    exact fun hfair => hfair.imp_right fun hne i j => ⟨rfl, hne i j⟩

theorem Settled.star (h : Settled cost s) {x : Cell rows columns} (hzero : s.matrix x.1 x.2 = 0)
    (hcolumn : s.starInColumn x.2 = none) (hrow : s.starInRow x.1 = none) :
    Settled cost (s.setMask x .STAR) where
  matching := by
    rw [starInColumn_none] at hcolumn
    rw [starInRow_none] at hrow
    constructor
    · intro i j j' hj hj'
      rw [star_setMask_star] at hj hj'
      rcases hj with rfl | hj
      · rcases hj' with heq | hj'
        · exact (congrArg Prod.snd heq).symm
        · exact absurd hj' (hrow j')
      · rcases hj' with rfl | hj'
        · exact absurd hj (hrow j)
        · exact h.matching.row hj hj'
    · intro i i' j hi hi'
      rw [star_setMask_star] at hi hi'
      rcases hi with rfl | hi
      · rcases hi' with heq | hi'
        · exact (congrArg Prod.fst heq).symm
        · exact absurd hi' (hcolumn i')
      · rcases hi' with rfl | hi'
        · exact absurd hi (hcolumn i)
        · exact h.matching.column hi hi'
  unprimed i j hprime := by
    unfold Prime setMask at hprime
    dsimp only at hprime
    split at hprime
    · cases hprime
    · exact h.unprimed i j hprime
  row_mask := h.row_mask
  col_mask := h.col_mask
  reduced := h.reduced.setMask hzero .STAR

theorem Settled.step1 (h : Settled cost s) : Settled cost s.step1 := by
  unfold Munkres.step1
  generalize cells rows columns = l
  induction l generalizing s with
  | nil => exact h
  | cons x l ih =>
    rw [List.foldl_cons]
    apply ih
    split
    case isTrue hx => exact h.star hx.1 hx.2.1 hx.2.2
    case isFalse => exact h

/-- As many cells are starred as there are rows with a star. -/
theorem stars_length (h : Matching s.Star) :
    ((cells rows columns).filter fun x => s.mask_matrix x.1 x.2 == .STAR).length =
      s.starRows.card := by
  have hstar (x : Cell rows columns) :
      x ∈ (cells rows columns).filter (fun x => s.mask_matrix x.1 x.2 == .STAR) ↔
        s.Star x.1 x.2 := by
    rw [List.mem_filter, and_iff_right (mem_cells x)]
    exact beq_iff_eq
  have hnodup : (((cells rows columns).filter fun x => s.mask_matrix x.1 x.2 == .STAR).map
      Prod.fst).Nodup := by
    refine List.Nodup.map_on ?_ ((cells_nodup rows columns).filter _)
    intro x hx y hy hxy
    rw [hstar] at hx hy
    rw [← hxy] at hy
    exact Prod.ext hxy (h.row hx hy)
  have hrows : (((cells rows columns).filter fun x => s.mask_matrix x.1 x.2 == .STAR).map
      Prod.fst).toFinset = s.starRows := by
    ext i
    rw [List.mem_toFinset, List.mem_map, mem_starRows]
    constructor
    · rintro ⟨x, hx, rfl⟩
      exact ⟨x.2, (hstar x).mp hx⟩
    · rintro ⟨j, hj⟩
      exact ⟨(i, j), (hstar _).mpr hj, rfl⟩
  rw [← hrows, List.toFinset_card_of_nodup hnodup, List.length_map]

/-- `step2` finds that there are enough stars, or covers the columns that have one. -/
theorem Settled.step2 (h : Settled cost s) :
    (s.step2.2 = .done ∧ min rows columns ≤ s.starRows.card ∨
      s.step2.2 = .step3 ∧ Searching cost s.step2.1) ∧
    s.step2.1.mask_matrix = s.mask_matrix ∧ s.step2.1.matrix = s.matrix := by
  refine ⟨?_, rfl, rfl⟩
  have hlength := stars_length h.matching
  by_cases hmany : min rows columns ≤ s.starRows.card
  · left
    refine ⟨?_, hmany⟩
    unfold Munkres.step2
    rw [← hlength] at hmany
    exact if_pos hmany
  · right
    constructor
    · unfold Munkres.step2
      rw [← hlength] at hmany
      exact if_neg hmany
    constructor
    case layers =>
      exact ⟨fun _ => 0, h.matching, apart, fun hp => absurd hp (h.unprimed _ _),
        fun hp => absurd hp (h.unprimed _ _)⟩
    case covered =>
      intro i hi
      have hfalse := h.row_mask i
      change s.row_mask i = true at hi
      rw [hfalse] at hi
      cases hi
    case primes => exact fun i j hp => absurd hp (h.unprimed i j)
    case crossed =>
      intro j
      simp only [Munkres.step2, h.col_mask, Bool.false_or, List.any_eq_true, List.mem_filter,
        beq_iff_eq]
      constructor
      · rintro ⟨x, ⟨-, hx⟩, rfl⟩
        exact ⟨x.1, hx, h.row_mask x.1⟩
      · rintro ⟨i, hi, -⟩
        exact ⟨(i, j), ⟨mem_cells _, hi⟩, rfl⟩
    case few => exact Nat.lt_of_not_le hmany
    case reduced => exact ⟨h.reduced.charged, h.reduced.zeros, h.reduced.nonneg⟩

end Munkres

end ParleVision.Tracker
