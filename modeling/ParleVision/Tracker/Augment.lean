import ParleVision.Tracker.Covering

namespace ParleVision.Tracker.Munkres
open Lib

variable {rows columns : Nat} {cost : Matrix rows columns ℚ} {s : Munkres rows columns}

/-- The loop follows the alternating path of the primed zero that it starts from. -/
theorem sequence_alternating {time : Fin rows → Nat} (hl : Layers s.Star s.Prime time)
    (hfollows : ∀ i j i', s.Prime i j → s.Star i' j → ∃ j', s.Prime i' j')
    (bound : Nat) {i : Fin rows} {j : Fin columns} (hbound : time i < bound)
    (hprime : s.Prime i j) :
    ∃ tail, Alternating s.Star s.Prime i j ((i, j) :: tail) ∧ ∀ fuel seq, bound ≤ fuel →
      (∀ x ∈ seq, time i ≤ time x.1) → s.sequence fuel j seq = some (seq ++ tail) := by
  induction bound generalizing i j with
  | zero => exact absurd hbound (Nat.not_lt_zero _)
  | succ bound ih =>
    by_cases hsome : ∃ i', s.Star i' j
    · obtain ⟨i', hstar⟩ := hsome
      obtain ⟨j', hprime'⟩ := hfollows i j i' hprime hstar
      have hlt := hl.earlier hprime hstar
      obtain ⟨tail, halternating, htail⟩ := ih (Nat.lt_of_lt_of_le hlt (by omega)) hprime'
      refine ⟨(i', j) :: (i', j') :: tail, .more hprime hstar halternating, ?_⟩
      intro fuel seq hfuel hseq
      cases fuel with
      | zero => omega
      | succ fuel =>
        -- neither the star nor the prime after it has been visited: they are earlier than all
        have hnew (c : Fin columns) : (i', c) ∉ seq := by
          intro hmem
          exact absurd (hseq _ hmem) (Nat.not_le_of_lt hlt)
        have hrow : ((List.finRange rows).find? fun row =>
            s.mask_matrix row j == .STAR && decide ((row, j) ∉ seq)) = some i' := by
          apply find_unique (List.mem_finRange i')
          · simp only [Bool.and_eq_true, beq_iff_eq, decide_eq_true_eq]
            exact ⟨hstar, hnew j⟩
          · intro k hk
            simp only [Bool.and_eq_true, beq_iff_eq] at hk
            exact hl.matching.column hk.1 hstar
        have hcol : ((List.finRange columns).find? fun col =>
            s.mask_matrix i' col == .PRIME && decide ((i', col) ∉ seq ++ [(i', j)])) =
              some j' := by
          apply find_unique (List.mem_finRange j')
          · simp only [Bool.and_eq_true, beq_iff_eq, decide_eq_true_eq]
            refine ⟨hprime', fun hmem => ?_⟩
            rcases List.mem_append.mp hmem with hmem | hmem
            · exact hnew j' hmem
            · cases List.mem_singleton.mp hmem
              exact hl.apart hstar hprime'
          · intro k hk
            simp only [Bool.and_eq_true, beq_iff_eq] at hk
            exact hl.unique hk.1 hprime'
        rw [sequence, hrow]
        dsimp only
        rw [hcol]
        dsimp only
        rw [htail fuel _ (by omega) ?_]
        · simp
        · intro x hx
          rcases List.mem_append.mp hx with hx | hx
          · rcases List.mem_append.mp hx with hx | hx
            · exact Nat.le_of_lt (Nat.lt_of_lt_of_le hlt (hseq x hx))
            · rw [List.mem_singleton.mp hx]
          · rw [List.mem_singleton.mp hx]
    · have hnone : ∀ i', ¬ s.Star i' j := fun i' hstar => hsome ⟨i', hstar⟩
      refine ⟨[], .last hprime hnone, ?_⟩
      intro fuel seq hfuel _
      cases fuel with
      | zero => omega
      | succ fuel =>
        have hrow : ((List.finRange rows).find? fun row =>
            s.mask_matrix row j == .STAR && decide ((row, j) ∉ seq)) = none := by
          refine List.find?_eq_none.mpr fun k _ hk => ?_
          simp only [Bool.and_eq_true, beq_iff_eq] at hk
          exact hnone k hk.1
        rw [sequence, hrow, List.append_nil]

/-- What becomes of the mark of a cell on the sequence. -/
def turned : Mask → Mask
  | .NORMAL => .NORMAL
  | .STAR => .NORMAL
  | .PRIME => .STAR

theorem turn_matrix (s : Munkres rows columns) (x : Cell rows columns) :
    (s.turn x).matrix = s.matrix := by
  unfold turn
  split <;> rfl

theorem turn_mask_matrix (s : Munkres rows columns) (x : Cell rows columns) (i : Fin rows)
    (j : Fin columns) : (s.turn x).mask_matrix i j =
      if (i, j) = x then turned (s.mask_matrix i j) else s.mask_matrix i j := by
  by_cases hx : (i, j) = x
  · subst x
    unfold turn
    split <;> rename_i hmask <;> simp [setMask, hmask, turned]
  · unfold turn
    split <;> simp [setMask, hx]

theorem turned_matrix (s : Munkres rows columns) (l : List (Cell rows columns)) :
    (l.foldl turn s).matrix = s.matrix := by
  induction l generalizing s with
  | nil => rfl
  | cons x l ih => rw [List.foldl_cons, ih, turn_matrix]

theorem turned_mask_matrix (s : Munkres rows columns) {l : List (Cell rows columns)}
    (hnodup : l.Nodup) (i : Fin rows) (j : Fin columns) :
    (l.foldl turn s).mask_matrix i j =
      if (i, j) ∈ l then turned (s.mask_matrix i j) else s.mask_matrix i j := by
  induction l generalizing s with
  | nil => rfl
  | cons x l ih =>
    rw [List.nodup_cons] at hnodup
    rw [List.foldl_cons, ih _ hnodup.2, turn_mask_matrix]
    by_cases hx : (i, j) = x
    · subst x
      simp [hnodup.1]
    · simp [hx]

def turnedOver (s : Munkres rows columns) (seq : List (Cell rows columns)) :
    Munkres rows columns :=
  { seq.foldl turn s with
    mask_matrix := fun row col =>
      if (seq.foldl turn s).mask_matrix row col = .PRIME then .NORMAL
      else (seq.foldl turn s).mask_matrix row col
    row_mask := fun _ => false
    col_mask := fun _ => false }

theorem star_turnedOver {seq : List (Cell rows columns)} (hnodup : seq.Nodup) (i : Fin rows)
    (j : Fin columns) : (s.turnedOver seq).Star i j ↔ toggled s.Star s.Prime seq i j := by
  unfold Star Prime turnedOver toggled
  dsimp only
  rw [turned_mask_matrix s hnodup]
  by_cases hmem : (i, j) ∈ seq <;> cases hmask : s.mask_matrix i j <;> simp [hmem, turned]

theorem Reduced.turnedOver (h : Reduced cost s) {seq : List (Cell rows columns)}
    (hnodup : seq.Nodup) (hmarked : ∃ i j, s.mask_matrix i j ≠ .NORMAL) :
    Reduced cost (s.turnedOver seq) where
  charged := by
    obtain ⟨u, v, huv⟩ := h.charged
    refine ⟨u, v, fun i j => ?_⟩
    rw [← huv]
    exact congrFun (congrFun (turned_matrix s seq) i) j
  zeros := by
    intro i j hne
    have hmatrix := congrFun (congrFun (turned_matrix s seq) i) j
    change (seq.foldl turn s).matrix i j = 0
    rw [hmatrix]
    apply h.zeros
    intro hnormal
    apply hne
    unfold Munkres.turnedOver
    dsimp only
    rw [turned_mask_matrix s hnodup, hnormal]
    simp [turned]
  nonneg hfair := by
    left
    intro i j
    have hmatrix := congrFun (congrFun (turned_matrix s seq) i) j
    change 0 ≤ (seq.foldl turn s).matrix i j
    rw [hmatrix]
    rcases h.nonneg hfair with hnonneg | hnormal
    · exact hnonneg i j
    · obtain ⟨k, c, hkc⟩ := hmarked
      exact absurd (hnormal k c).1 hkc

/-- `step4` ends, with a star in one more row. -/
theorem Ready.step4 {saved : Cell rows columns} (h : Ready cost s saved) :
    ∃ bound s', (∀ fuel, bound ≤ fuel → s.step4 fuel saved = some s') ∧ Settled cost s' ∧
      s'.starRows = insert saved.1 s.starRows := by
  obtain ⟨time, hl⟩ := h.layers
  obtain ⟨tail, hpath, htail⟩ :=
    sequence_alternating hl h.follows (time saved.1 + 1) (Nat.lt_succ_self _) h.primed
  have hnodup := hpath.nodup hl
  refine ⟨time saved.1 + 1, s.turnedOver (saved :: tail), ?_, ?_, ?_⟩
  · intro fuel hfuel
    unfold Munkres.step4
    rw [htail fuel [saved] hfuel]
    · rfl
    · intro x hx
      rw [List.mem_singleton.mp hx]
  · constructor
    case matching =>
      have hmatching := hpath.toggled_matching hl h.free
      exact hmatching.mono fun i j => (star_turnedOver hnodup i j).mp
    case unprimed =>
      intro i j hprime
      unfold Prime turnedOver at hprime
      dsimp only at hprime
      split at hprime
      case isTrue => cases hprime
      case isFalse hne => exact hne hprime
    case row_mask => exact fun _ => rfl
    case col_mask => exact fun _ => rfl
    case reduced =>
      refine h.reduced.turnedOver hnodup ⟨saved.1, saved.2, fun hnormal => ?_⟩
      have hprimed := h.primed
      rw [Prime, hnormal] at hprimed
      cases hprimed
  · ext i
    rw [mem_starRows, Finset.mem_insert, mem_starRows, ← hpath.toggled_row hl]
    exact exists_congr fun j => star_turnedOver hnodup i j

end ParleVision.Tracker.Munkres
