import ParleVision.Tracker.Augment

namespace ParleVision.Tracker
open Lib

variable {rows columns : Nat} {cost : Matrix rows columns ℚ}

namespace Munkres
variable {s : Munkres rows columns}

/-- From this step on, the loop ends in a state such as this. -/
def Ends (P : Munkres rows columns → Prop) (step : Step rows columns)
    (s : Munkres rows columns) : Prop :=
  ∃ bound s', (∀ fuel, bound ≤ fuel → loop fuel step s = some s') ∧ P s'

section
variable {P : Munkres rows columns → Prop}

theorem Ends.done (h : P s) : Ends P .done s := by
  refine ⟨1, s, fun fuel hfuel => ?_, h⟩
  cases fuel with
  | zero => omega
  | succ fuel => rfl

theorem Ends.next {step : Step rows columns} (step' : Step rows columns) (s' : Munkres rows columns)
    (hloop : ∀ fuel, loop (fuel + 1) step s = loop fuel step' s') (h : Ends P step' s') :
    Ends P step s := by
  obtain ⟨bound, t, hbound, ht⟩ := h
  refine ⟨bound + 1, t, fun fuel hfuel => ?_, ht⟩
  cases fuel with
  | zero => omega
  | succ fuel =>
    rw [hloop]
    exact hbound fuel (by omega)

theorem Ends.step1 (h : Ends P .step2 s.step1) : Ends P .step1 s :=
  h.next .step2 s.step1 fun _ => rfl

theorem Ends.step4 {saved : Cell rows columns} (h : Ready cost s saved)
    (hnext : ∀ s', Settled cost s' → s'.starRows = insert saved.1 s.starRows → Ends P .step2 s') :
    Ends P (.step4 saved) s := by
  obtain ⟨bound, s', hstep, hsettled, hrows⟩ := h.step4
  obtain ⟨bound', t, hbound', ht⟩ := hnext s' hsettled hrows
  refine ⟨bound + bound' + 1, t, fun fuel hfuel => ?_, ht⟩
  cases fuel with
  | zero => omega
  | succ fuel =>
    rw [loop, hstep fuel (by omega)]
    exact hbound' fuel (by omega)

def uncoveredRows (s : Munkres rows columns) : Finset (Fin rows) :=
  Finset.univ.filter fun i => s.row_mask i = false

theorem uncoveredRows_cover {s s' : Munkres rows columns} {i : Fin rows}
    (hi : s.row_mask i = false) (hmask : s'.row_mask = Function.update s.row_mask i true) :
    s'.uncoveredRows.card < s.uncoveredRows.card := by
  apply Finset.card_lt_card
  rw [Finset.ssubset_iff_of_subset]
  · refine ⟨i, by simp [uncoveredRows, hi], ?_⟩
    simp [uncoveredRows, hmask]
  · intro k hk
    simp only [uncoveredRows, Finset.mem_filter, hmask, Function.update_apply] at hk ⊢
    refine ⟨hk.1, ?_⟩
    have hmask := hk.2
    split at hmask
    · cases hmask
    · exact hmask

/-- Each zero that the search primes covers one more row, until one is in a row without a star. -/
theorem Searching.ends (h : Searching cost s)
    (hnext : ∀ s', Settled cost s' → s'.starRows.card = s.starRows.card + 1 → Ends P .step2 s') :
    Ends P .step3 s := by
  induction hn : s.uncoveredRows.card using Nat.strong_induction_on generalizing s with
  | _ n ih =>
    have hfound (s' : Munkres rows columns) (h' : Searching cost s')
        (hrows : s'.starRows = s.starRows) (hmask : s'.row_mask = s.row_mask)
        (hsome : ∃ x, s'.find_uncovered_in_matrix 0 = some x) : Ends P .step3 s' := by
      obtain ⟨x, hx⟩ := hsome
      refine Ends.next s'.step3.2 s'.step3.1 (fun fuel => rfl) ?_
      rcases h'.step3_cases with ⟨hnone, -⟩ | ⟨hstep, hsearching, hsame, i, hi, hcover⟩ |
        ⟨saved, hstep, hready, hsame⟩
      · rw [hx] at hnone
        cases hnone
      · rw [hstep]
        have hlt := uncoveredRows_cover hi hcover
        refine ih _ ?_ hsearching ?_ rfl
        · rw [← hn]
          unfold uncoveredRows at hlt ⊢
          rwa [hmask] at hlt
        · rw [hsame, hrows]
          exact hnext
      · rw [hstep]
        refine Ends.step4 hready fun t ht hinsert => hnext t ht ?_
        rw [hinsert, hsame, hrows]
        refine Finset.card_insert_of_notMem fun hmem => ?_
        rw [← hrows, ← hsame] at hmem
        obtain ⟨j, hj⟩ := (mem_starRows _).mp hmem
        exact hready.free j hj
    cases hfind : s.find_uncovered_in_matrix 0 with
    | some x => exact hfound s h rfl rfl ⟨x, hfind⟩
    | none =>
      obtain ⟨hsearching, hsome⟩ := h.step5 hfind
      have hstep : s.step3 = (s, .step5) := by
        unfold Munkres.step3
        rw [hfind]
      refine Ends.next .step5 s (fun fuel => by rw [loop, hstep]) ?_
      exact Ends.next .step3 s.step5 (fun fuel => rfl) (hfound s.step5 hsearching rfl rfl hsome)

end

structure Solved (cost : Matrix rows columns ℚ) (s : Munkres rows columns) : Prop where
  matching : Matching s.Star
  enough : min rows columns ≤ s.starRows.card
  reduced : Reduced cost s

/-- There is a star in one more row each time, until there are enough. -/
theorem Settled.ends (h : Settled cost s) : Ends (Solved cost) .step2 s := by
  induction hn : min rows columns - s.starRows.card generalizing s with
  | zero =>
    refine Ends.next s.step2.2 s.step2.1 (fun fuel => rfl) ?_
    obtain ⟨⟨hstep, henough⟩ | ⟨-, hsearching⟩, -, -⟩ := h.step2
    · rw [hstep]
      exact .done ⟨h.matching, henough, ⟨h.reduced.charged, h.reduced.zeros, h.reduced.nonneg⟩⟩
    · have hfew : s.starRows.card < min rows columns := hsearching.few
      omega
  | succ n ih =>
    refine Ends.next s.step2.2 s.step2.1 (fun fuel => rfl) ?_
    obtain ⟨⟨-, henough⟩ | ⟨hstep, hsearching⟩, -, -⟩ := h.step2
    · omega
    · rw [hstep]
      refine hsearching.ends fun s' hs' hcard => ih hs' ?_
      have hsame : s.step2.1.starRows = s.starRows := rfl
      rw [hsame] at hcard
      omega

end Munkres

/-- The zeros of the result are an assignment, of least cost when the costs are fair. -/
structure Assigned (cost result : Matrix rows columns ℚ) : Prop where
  matching : Matching fun i j => result i j = 0
  enough : min rows columns ≤ (Finset.univ.filter fun i => ∃ j, result i j = 0).card
  least : Munkres.Fair cost → ∃ (u : Fin rows → ℚ) (v : Fin columns → ℚ),
    (∀ i j, u i + v j ≤ cost i j) ∧ ∀ i j, result i j = 0 → cost i j = u i + v j

theorem Munkres.Solved.assigned {s : Munkres rows columns} (h : Solved cost s) :
    Assigned cost fun row col => if s.mask_matrix row col = .STAR then 0 else -1 := by
  have hzero (i : Fin rows) (j : Fin columns) :
      (if s.mask_matrix i j = .STAR then (0 : ℚ) else -1) = 0 ↔ s.Star i j := by
    unfold Star
    split <;> simp [*]
  constructor
  case matching => exact h.matching.mono fun i j => (hzero i j).mp
  case enough =>
    simp only [hzero]
    exact h.enough
  case least =>
    intro hfair
    obtain ⟨u, v, huv⟩ := h.reduced.charged
    refine ⟨u, v, fun i j => ?_, fun i j hij => ?_⟩
    · have hij := huv i j
      rcases h.reduced.nonneg hfair with hnonneg | hnormal
      · have hle := hnonneg i j
        linarith
      · -- nothing is starred, so there are no rows or no columns
        have hempty : s.starRows = ∅ := by
          refine Finset.eq_empty_of_forall_notMem fun k hk => ?_
          obtain ⟨c, hc⟩ := s.mem_starRows.mp hk
          rw [Star, (hnormal k c).1] at hc
          cases hc
        have henough := h.enough
        rw [hempty, Finset.card_empty] at henough
        have hi := i.pos
        have hj := j.pos
        omega
    · have hstar := (hzero i j).mp hij
      have hreduced := h.reduced.zeros i j (by rw [hstar]; decide)
      have hcharged := huv i j
      linarith

/-- In a square there is a zero in each row and in each column. -/
theorem Assigned.exists_equiv {size : Nat} {cost result : Matrix size size ℚ}
    (h : Assigned cost result) : ∃ e : Fin size ≃ Fin size, ∀ i j, result i j = 0 ↔ e i = j := by
  have henough := h.enough
  rw [Nat.min_self] at henough
  have hall : (Finset.univ.filter fun i => ∃ j, result i j = 0) = Finset.univ := by
    apply Finset.eq_univ_of_card
    apply Nat.le_antisymm (Finset.card_le_univ _)
    rw [Fintype.card_fin]
    exact henough
  have hzero (i : Fin size) : ∃ j, result i j = 0 := by
    have hmem := Finset.mem_univ i
    rw [← hall, Finset.mem_filter] at hmem
    exact hmem.2
  choose f hf using hzero
  have hinj : Function.Injective f := by
    intro i i' heq
    have hi := hf i
    rw [heq] at hi
    exact h.matching.column hi (hf i')
  refine ⟨Equiv.ofBijective f (Finite.injective_iff_bijective.mp hinj), fun i j => ?_⟩
  constructor
  · exact fun hij => h.matching.row (hf i) hij
  · rintro rfl
    exact hf i

/-- `solve` ends, whatever the costs. -/
theorem solve_assigned (m : Matrix rows columns (Option ℚ)) :
    ∃ bound result, (∀ fuel, bound ≤ fuel → solve fuel m = some result) ∧
      Assigned (finite m) result := by
  have hsettled := (Munkres.started_settled (finite m)).step1
  obtain ⟨bound, s, hloop, hs⟩ :=
    hsettled.ends.step1
  refine ⟨bound, _, fun fuel hfuel => ?_, hs.assigned⟩
  rw [solve, hloop fuel hfuel]
  rfl

end ParleVision.Tracker
