import ParleVision.Tracker.Search
import Mathlib.Tactic.Ring

namespace ParleVision.Tracker.Munkres
open Lib

variable {rows columns : Nat} {cost : Matrix rows columns ℚ} {s : Munkres rows columns}

theorem star_setMask_prime {x : Cell rows columns} (hx : s.mask_matrix x.1 x.2 = .NORMAL)
    (i : Fin rows) (j : Fin columns) : (s.setMask x .PRIME).Star i j ↔ s.Star i j := by
  unfold Star setMask
  dsimp only
  split
  case isTrue heq =>
    subst x
    rw [hx]
    simp
  case isFalse => rfl

theorem prime_setMask_prime (x : Cell rows columns) (i : Fin rows) (j : Fin columns) :
    (s.setMask x .PRIME).Prime i j ↔ (i, j) = x ∨ s.Prime i j := by
  unfold Prime setMask
  dsimp only
  split <;> simp [*]

namespace Searching

theorem row_of_star (h : Searching cost s) {i : Fin rows} {j : Fin columns}
    (hj : s.col_mask j = false) (hstar : s.Star i j) : s.row_mask i = true := by
  cases hi : s.row_mask i with
  | true => rfl
  | false =>
    have hcovered := (h.crossed j).mpr ⟨i, hstar, hi⟩
    rw [hj] at hcovered
    cases hcovered

/-- What is not covered is not marked. -/
theorem normal (h : Searching cost s) {i : Fin rows} {j : Fin columns}
    (hi : s.row_mask i = false) (hj : s.col_mask j = false) : s.mask_matrix i j = .NORMAL := by
  cases hmask : s.mask_matrix i j with
  | NORMAL => rfl
  | STAR =>
    have hcovered := h.row_of_star hj hmask
    rw [hi] at hcovered
    cases hcovered
  | PRIME =>
    have hcovered := (h.primes i j hmask).1
    rw [hi] at hcovered
    cases hcovered

/-- The new prime is in a later layer than all others. -/
theorem primed_layers (h : Searching cost s) {x : Cell rows columns}
    (hrow : s.row_mask x.1 = false) (hcol : s.col_mask x.2 = false) :
    ∃ time, Layers (s.setMask x .PRIME).Star (s.setMask x .PRIME).Prime time := by
  obtain ⟨time, hl⟩ := h.layers
  have hstar := star_setMask_prime (h.normal hrow hcol)
  have hnone (j : Fin columns) : ¬ s.Prime x.1 j := by
    intro hprime
    have hcovered := (h.primes x.1 j hprime).1
    rw [hrow] at hcovered
    cases hcovered
  have hle (i : Fin rows) : time i < Finset.univ.sup time + 1 :=
    Nat.lt_succ_of_le (Finset.le_sup (Finset.mem_univ i))
  refine ⟨Function.update time x.1 (Finset.univ.sup time + 1), ?_, apart, ?_, ?_⟩
  · exact hl.matching.mono fun i j => (hstar i j).mp
  · intro i j j' hj hj'
    rw [prime_setMask_prime] at hj hj'
    rcases hj with rfl | hj
    · rcases hj' with heq | hj'
      · exact (congrArg Prod.snd heq).symm
      · exact absurd hj' (hnone j')
    · rcases hj' with rfl | hj'
      · exact absurd hj (hnone j)
      · exact hl.unique hj hj'
  · intro i j i' hprime hi'
    rw [hstar] at hi'
    rw [prime_setMask_prime] at hprime
    -- the star of an uncovered column is in a covered row, and so not in that of the new prime
    have hcolumn : s.col_mask j = false := by
      rcases hprime with rfl | hprime
      · exact hcol
      · exact (h.primes i j hprime).2
    have hne : i' ≠ x.1 := by
      intro heq
      have hcovered := h.row_of_star hcolumn hi'
      rw [heq, hrow] at hcovered
      cases hcovered
    rw [Function.update_of_ne hne]
    rcases hprime with rfl | hprime
    · rw [Function.update_self]
      exact hle i'
    · rw [Function.update_of_ne]
      · exact hl.earlier hprime hi'
      · rintro rfl
        exact hnone j hprime

theorem starRows_primed (h : Searching cost s) {x : Cell rows columns}
    (hrow : s.row_mask x.1 = false) (hcol : s.col_mask x.2 = false) :
    (s.setMask x .PRIME).starRows = s.starRows := by
  ext i
  rw [mem_starRows, mem_starRows]
  exact exists_congr fun j => star_setMask_prime (h.normal hrow hcol) i j

/-- There is no star in the row of the new prime: the sequence starts from it. -/
theorem ready (h : Searching cost s) {x : Cell rows columns} (hrow : s.row_mask x.1 = false)
    (hcol : s.col_mask x.2 = false) (hzero : s.matrix x.1 x.2 = 0)
    (hfree : ∀ j, ¬ (s.setMask x .PRIME).Star x.1 j) : Ready cost (s.setMask x .PRIME) x where
  layers := h.primed_layers hrow hcol
  primed := (prime_setMask_prime x _ _).mpr (.inl rfl)
  free := hfree
  follows := by
    intro i j i' hprime hi'
    rw [star_setMask_prime (h.normal hrow hcol)] at hi'
    have hcolumn : s.col_mask j = false := by
      rcases (prime_setMask_prime x i j).mp hprime with rfl | hprime
      · exact hcol
      · exact (h.primes i j hprime).2
    obtain ⟨-, j', hj'⟩ := h.covered i' (h.row_of_star hcolumn hi')
    exact ⟨j', (prime_setMask_prime x i' j').mpr (.inr hj')⟩
  reduced := h.reduced.setMask hzero .PRIME

/-- There is a star in the row of the new prime: its row is covered in place of its column. -/
theorem swap (h : Searching cost s) {x : Cell rows columns} (hrow : s.row_mask x.1 = false)
    (hcol : s.col_mask x.2 = false) (hzero : s.matrix x.1 x.2 = 0) {ncol : Fin columns}
    (hstar : (s.setMask x .PRIME).Star x.1 ncol) :
    Searching cost { s.setMask x .PRIME with
      row_mask := Function.update s.row_mask x.1 true
      col_mask := Function.update s.col_mask ncol false } where
  layers := h.primed_layers hrow hcol
  covered := by
    intro i hi
    by_cases heq : i = x.1
    · subst i
      exact ⟨⟨ncol, hstar⟩, x.2, (prime_setMask_prime x _ _).mpr (.inl rfl)⟩
    · have hi : Function.update s.row_mask x.1 true i = true := hi
      rw [Function.update_of_ne heq] at hi
      obtain ⟨⟨j, hj⟩, j', hj'⟩ := h.covered i hi
      exact ⟨⟨j, (star_setMask_prime (h.normal hrow hcol) i j).mpr hj⟩, j',
        (prime_setMask_prime x i j').mpr (.inr hj')⟩
  primes := by
    intro i j hprime
    have hboth : Function.update s.row_mask x.1 true i = true ∧ s.col_mask j = false := by
      rcases (prime_setMask_prime x i j).mp hprime with rfl | hprime
      · exact ⟨Function.update_self .., hcol⟩
      · obtain ⟨hi, hj⟩ := h.primes i j hprime
        rw [Function.update_apply]
        exact ⟨by split <;> simp [hi], hj⟩
    refine ⟨hboth.1, ?_⟩
    dsimp only
    rw [Function.update_apply]
    split <;> simp [hboth.2]
  crossed := by
    intro j
    have hsame := star_setMask_prime (h.normal hrow hcol)
    have hstar : s.Star x.1 ncol := (hsame _ _).mp hstar
    obtain ⟨time, hl⟩ := h.layers
    change Function.update s.col_mask ncol false j = true ↔ ∃ i, (s.setMask x .PRIME).Star i j ∧
      Function.update s.row_mask x.1 true i = false
    by_cases heq : j = ncol
    · subst j
      rw [Function.update_self]
      refine iff_of_false Bool.false_ne_true ?_
      rintro ⟨i, hi, hfalse⟩
      rw [hl.matching.column ((hsame _ _).mp hi) hstar, Function.update_self] at hfalse
      cases hfalse
    · rw [Function.update_of_ne heq, h.crossed]
      refine exists_congr fun i => ?_
      rw [hsame]
      refine and_congr_right fun hi => ?_
      rw [Function.update_of_ne]
      rintro rfl
      exact heq (hl.matching.row hi hstar)
  few := by
    have hrows := h.starRows_primed hrow hcol
    change (s.setMask x .PRIME).starRows.card < _
    rw [hrows]
    exact h.few
  reduced := by
    have hreduced := h.reduced.setMask hzero .PRIME
    exact ⟨hreduced.charged, hreduced.zeros, hreduced.nonneg⟩

/-- What `step3` does with the zero that it finds, if any. -/
theorem step3_cases (h : Searching cost s) :
    (s.find_uncovered_in_matrix 0 = none ∧ s.step3 = (s, .step5)) ∨
      (s.step3.2 = .step3 ∧ Searching cost s.step3.1 ∧ s.step3.1.starRows = s.starRows ∧
        ∃ i, s.row_mask i = false ∧ s.step3.1.row_mask = Function.update s.row_mask i true) ∨
      ∃ saved, s.step3.2 = .step4 saved ∧ Ready cost s.step3.1 saved ∧
        s.step3.1.starRows = s.starRows := by
  cases hfind : s.find_uncovered_in_matrix 0 with
  | none =>
    left
    refine ⟨rfl, ?_⟩
    unfold Munkres.step3
    rw [hfind]
  | some x =>
    right
    obtain ⟨hrow, hcol, hzero⟩ := s.uncovered_some hfind
    have hrows := h.starRows_primed hrow hcol
    cases hncol : (s.setMask x .PRIME).starInRow x.1 with
    | some ncol =>
      left
      have hstep : s.step3 = ({ s.setMask x .PRIME with
          row_mask := Function.update s.row_mask x.1 true
          col_mask := Function.update s.col_mask ncol false }, .step3) := by
        unfold Munkres.step3
        rw [hfind]
        dsimp only
        rw [hncol]
        rfl
      rw [hstep]
      exact ⟨rfl, h.swap hrow hcol hzero (starInRow_some _ hncol), hrows, x.1, hrow, rfl⟩
    | none =>
      right
      have hstep : s.step3 = (s.setMask x .PRIME, .step4 x) := by
        unfold Munkres.step3
        rw [hfind]
        dsimp only
        rw [hncol]
      rw [hstep]
      exact ⟨x, rfl, h.ready hrow hcol hzero ((starInRow_none _).mp hncol), hrows⟩

end Searching

def Uncovered (s : Munkres rows columns) (x : Cell rows columns) : Prop :=
  s.row_mask x.1 = false ∧ s.col_mask x.2 = false

/-- What `h` is in the loop of `step5`, when the cells of the list have been seen. -/
def Least (s : Munkres rows columns) (seen : List (Cell rows columns)) (h : ℚ) : Prop :=
  (h = 0 ∧ ∀ x ∈ seen, ¬ s.Uncovered x) ∨
    (h ≠ 0 ∧ (∃ x ∈ seen, s.Uncovered x ∧ s.matrix x.1 x.2 = h) ∧
      ∀ x ∈ seen, s.Uncovered x → h ≤ s.matrix x.1 x.2)

theorem Least.step {seen : List (Cell rows columns)} {h : ℚ} (hl : s.Least seen h)
    {x : Cell rows columns} (hne : s.Uncovered x → s.matrix x.1 x.2 ≠ 0) :
    s.Least (x :: seen)
      (if s.row_mask x.1 = false ∧ s.col_mask x.2 = false ∧
        ((h > s.matrix x.1 x.2 ∧ s.matrix x.1 x.2 ≠ 0) ∨ h = 0) then s.matrix x.1 x.2
      else h) := by
  split
  case isTrue hx =>
    obtain ⟨hrow, hcol, hless⟩ := hx
    right
    refine ⟨hne ⟨hrow, hcol⟩, ⟨x, by simp, ⟨hrow, hcol⟩, rfl⟩, ?_⟩
    intro y hy huncovered
    rcases List.mem_cons.mp hy with rfl | hy
    · exact le_refl _
    rcases hl with ⟨-, hnone⟩ | ⟨hzero, -, hle⟩
    · exact absurd huncovered (hnone y hy)
    · have hlt := hless.resolve_right hzero
      exact le_trans (le_of_lt hlt.1) (hle y hy huncovered)
  case isFalse hx =>
    rcases hl with ⟨hzero, hnone⟩ | ⟨hzero, ⟨y, hy, hleast⟩, hle⟩
    · left
      refine ⟨hzero, ?_⟩
      intro y hy huncovered
      rcases List.mem_cons.mp hy with rfl | hy
      · exact hx ⟨huncovered.1, huncovered.2, .inr hzero⟩
      · exact hnone y hy huncovered
    · right
      refine ⟨hzero, ⟨y, by simp [hy], hleast⟩, ?_⟩
      intro z hz huncovered
      rcases List.mem_cons.mp hz with rfl | hz
      · refine le_of_not_gt fun hlt => hx ⟨huncovered.1, huncovered.2, .inl ⟨hlt, hne huncovered⟩⟩
      · exact hle z hz huncovered

/-- When no uncovered entry is zero, `h` is the least of them. -/
theorem smallest_least (hne : ∀ x, s.Uncovered x → s.matrix x.1 x.2 ≠ 0)
    {x : Cell rows columns} (hx : s.Uncovered x) :
    (∃ y, s.Uncovered y ∧ s.matrix y.1 y.2 = s.smallest) ∧
      ∀ y, s.Uncovered y → s.smallest ≤ s.matrix y.1 y.2 := by
  have hfold (l seen : List (Cell rows columns)) (h : ℚ) (hl : s.Least seen h) :
      s.Least (l.reverse ++ seen) (l.foldl
        (fun h x =>
          if s.row_mask x.1 = false ∧ s.col_mask x.2 = false ∧
            ((h > s.matrix x.1 x.2 ∧ s.matrix x.1 x.2 ≠ 0) ∨ h = 0) then s.matrix x.1 x.2
          else h) h) := by
    induction l generalizing seen h with
    | nil => exact hl
    | cons y l ih =>
      rw [List.foldl_cons, List.reverse_cons, List.append_assoc]
      exact ih (y :: seen) _ (hl.step (hne y))
  have hmem (y : Cell rows columns) : y ∈ (cells rows columns).reverse ++ [] := by
    simp [mem_cells]
  rcases hfold (cells rows columns) [] 0 (.inl ⟨rfl, by simp⟩) with ⟨-, hnone⟩ | ⟨-, hsome, hle⟩
  · exact absurd hx (hnone x (hmem x))
  · obtain ⟨y, -, hy⟩ := hsome
    exact ⟨⟨y, hy⟩, fun z => hle z (hmem z)⟩

theorem step5_matrix (s : Munkres rows columns) (i : Fin rows) (j : Fin columns) :
    s.step5.matrix i j = s.matrix i j + (if s.row_mask i then s.smallest else 0) -
      if s.col_mask j then 0 else s.smallest := by
  unfold step5
  dsimp only
  split <;> split <;> ring

namespace Searching

theorem exists_uncovered_row (h : Searching cost s) : ∃ i, s.row_mask i = false := by
  by_contra hnone
  have hall (i : Fin rows) : i ∈ s.starRows := by
    cases hi : s.row_mask i with
    | false => exact absurd ⟨i, hi⟩ hnone
    | true => exact s.mem_starRows.mpr (h.covered i hi).1
  have hcard : s.starRows.card = rows := by
    rw [Finset.eq_univ_of_forall hall, Finset.card_fin]
  have hfew := h.few
  omega

/-- Each covered column has its star in a row of its own. -/
theorem exists_uncovered_column (h : Searching cost s) : ∃ j, s.col_mask j = false := by
  by_contra hnone
  have hstar (j : Fin columns) : ∃ i, s.Star i j := by
    cases hj : s.col_mask j with
    | false => exact absurd ⟨j, hj⟩ hnone
    | true =>
      obtain ⟨i, hi, -⟩ := (h.crossed j).mp hj
      exact ⟨i, hi⟩
  obtain ⟨time, hl⟩ := h.layers
  choose f hf using hstar
  have hcard : columns ≤ s.starRows.card := by
    have hinj : Set.InjOn f (Finset.univ : Finset (Fin columns)) := by
      intro j _ j' _ heq
      have hj := hf j
      rw [heq] at hj
      exact hl.matching.row hj (hf j')
    calc columns = (Finset.univ : Finset (Fin columns)).card := (Finset.card_fin columns).symm
      _ ≤ s.starRows.card :=
        Finset.card_le_card_of_injOn f (fun j _ => s.mem_starRows.mpr ⟨j, hf j⟩) hinj
  have hfew := h.few
  omega

/-- Marked cells are covered exactly once. -/
theorem marked (h : Searching cost s) {i : Fin rows} {j : Fin columns}
    (hmask : s.mask_matrix i j ≠ .NORMAL) : s.row_mask i ≠ s.col_mask j := by
  cases hstar : s.mask_matrix i j with
  | NORMAL => exact absurd hstar hmask
  | PRIME =>
    obtain ⟨hi, hj⟩ := h.primes i j hstar
    rw [hi, hj]
    exact Bool.true_eq_false_eq_False
  | STAR =>
    obtain ⟨time, hl⟩ := h.layers
    cases hi : s.row_mask i with
    | false => rw [(h.crossed j).mpr ⟨i, hstar, hi⟩]; exact Bool.false_ne_true
    | true =>
      cases hj : s.col_mask j with
      | false => exact Bool.false_ne_true.symm
      | true =>
        obtain ⟨i', hi', hfalse⟩ := (h.crossed j).mp hj
        rw [hl.matching.column hi' hstar, hi] at hfalse
        cases hfalse

/-- Nothing is covered while nothing is marked. -/
theorem uncovered_of_normal (h : Searching cost s) (hnormal : ∀ i j, s.mask_matrix i j = .NORMAL)
    (x : Cell rows columns) : s.Uncovered x := by
  have hstar (i : Fin rows) (j : Fin columns) : ¬ s.Star i j := by
    intro hstar
    rw [Star, hnormal i j] at hstar
    cases hstar
  constructor
  · cases hi : s.row_mask x.1 with
    | false => rfl
    | true =>
      obtain ⟨⟨j, hj⟩, -⟩ := h.covered x.1 hi
      exact absurd hj (hstar x.1 j)
  · cases hj : s.col_mask x.2 with
    | false => rfl
    | true =>
      obtain ⟨i, hi, -⟩ := (h.crossed x.2).mp hj
      exact absurd hi (hstar i x.2)

/-- `h` is charged to the uncovered columns, and given back to the covered rows. -/
theorem reduced_step5 (h : Searching cost s)
    (hle : ∀ x, s.Uncovered x → s.smallest ≤ s.matrix x.1 x.2)
    {y : Cell rows columns} (hy : s.matrix y.1 y.2 = s.smallest) : Reduced cost s.step5 where
  charged := by
    obtain ⟨u, v, huv⟩ := h.reduced.charged
    refine ⟨fun i => u i - (if s.row_mask i then s.smallest else 0),
      fun j => v j + (if s.col_mask j then 0 else s.smallest), fun i j => ?_⟩
    rw [step5_matrix, huv]
    ring
  zeros := by
    intro i j hmask
    have hboth := h.marked hmask
    rw [step5_matrix, h.reduced.zeros i j hmask]
    cases hi : s.row_mask i <;> cases hj : s.col_mask j <;> simp_all
  nonneg hfair := by
    left
    intro i j
    rw [step5_matrix]
    rcases h.reduced.nonneg hfair with hnonneg | hnormal
    · have hpos : 0 ≤ s.smallest := hy ▸ hnonneg y.1 y.2
      have hij := hnonneg i j
      cases hi : s.row_mask i with
      | true =>
        rw [if_pos rfl]
        split <;> linarith
      | false =>
        cases hj : s.col_mask j with
        | true => simpa using hij
        | false => simpa using hle (i, j) ⟨hi, hj⟩
    · obtain ⟨hi, hj⟩ := h.uncovered_of_normal (fun i j => (hnormal i j).1) (i, j)
      simpa [hi, hj] using hle (i, j) ⟨hi, hj⟩

/-- `step5` keeps what the search relies on, and leaves an uncovered zero. -/
theorem step5 (h : Searching cost s) (hnone : s.find_uncovered_in_matrix 0 = none) :
    Searching cost s.step5 ∧ ∃ x, s.step5.find_uncovered_in_matrix 0 = some x := by
  obtain ⟨i, hi⟩ := h.exists_uncovered_row
  obtain ⟨j, hj⟩ := h.exists_uncovered_column
  have hne (x : Cell rows columns) (hx : s.Uncovered x) : s.matrix x.1 x.2 ≠ 0 :=
    s.uncovered_none hnone hx.1 hx.2
  obtain ⟨⟨y, ⟨hrow, hcol⟩, hy⟩, hle⟩ := smallest_least hne (x := (i, j)) ⟨hi, hj⟩
  constructor
  · exact ⟨h.layers, h.covered, h.primes, h.crossed, h.few, h.reduced_step5 hle hy⟩
  · refine uncovered_isSome _ (i := y.1) (j := y.2) hrow hcol ?_
    rw [step5_matrix, hy, hrow, hcol]
    simp

end Searching

end ParleVision.Tracker.Munkres
