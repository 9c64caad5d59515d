import ParleVision.Tracker.Optimal

namespace ParleVision.Tracker
open Lib

section
variable {R C : Type} (scores : R → C → Int)

def Overlapping (assigned : R → Option C) : Prop := ∀ i j, assigned i = some j → 0 < scores i j

/-- Every track has an overlapping blob, or every blob is that of some track. -/
def Covers (assigned : R → Option C) : Prop :=
  (∀ i, ∃ j, assigned i = some j ∧ 0 < scores i j) ∨ ∀ j, ∃ i, assigned i = some j ∧ 0 < scores i j

def Coverable : Prop := ∃ assigned, OneToOne assigned ∧ Covers scores assigned

/-- Every assignment that is best counting from just below the smallest overlap covers. -/
def BestCover [Fintype R] : Prop :=
  ∀ least other, LeastOverlap scores least → Best (reweighed scores least) other →
    Covers scores other

def NoBestCovers [Fintype R] : Prop :=
  ∃ least, LeastOverlap scores least ∧
    ∀ other, Best (reweighed scores least) other → ¬ Covers scores other

variable {scores}

/-- What leaves nothing out on one of the sides has only overlapping pairs when it covers. -/
theorem overlapping_iff_covers {assigned : R → Option C} (hone : OneToOne assigned)
    (hexhausts : Exhausts assigned) : Overlapping scores assigned ↔ Covers scores assigned := by
  constructor
  · intro hoverlapping
    refine hexhausts.imp (fun hrows i => ?_) fun hcolumns j => ?_
    · obtain ⟨j, hij⟩ := hrows i
      exact ⟨j, hij, hoverlapping i j hij⟩
    · obtain ⟨i, hij⟩ := hcolumns j
      exact ⟨i, hij, hoverlapping i j hij⟩
  · rintro (hrows | hcolumns) i j hij
    · obtain ⟨j', hij', hpos⟩ := hrows i
      obtain rfl : j = j' := Option.some.inj (hij.symm.trans hij')
      exact hpos
    · obtain ⟨i', hij', hpos⟩ := hcolumns j
      rw [hone i i' j hij hij']
      exact hpos

/-- Without an overlap, only what has no pairs covers. -/
theorem Coverable.overlapping (h : Coverable scores) (hnone : ∀ i j, ¬ 0 < scores i j)
    (assigned : R → Option C) : Overlapping scores assigned := by
  obtain ⟨other, -, hrows | hcolumns⟩ := h
  · intro i
    obtain ⟨j, -, hpos⟩ := hrows i
    exact absurd hpos (hnone i j)
  · intro i j
    obtain ⟨i', -, hpos⟩ := hcolumns j
    exact absurd hpos (hnone i' j)

end

section
variable {matchingArea : Blob → Blob → Int} {blobs : List Blob} {tracks : List BlobTrack}
  {found : Fin tracks.length → Option (Fin blobs.length)}

/-- A dead track overlaps nothing. -/
theorem score_dead {i : Fin tracks.length} (hdead : (tracks.get i).state = .BlobTrackDead)
    (j : Fin blobs.length) : score matchingArea blobs tracks i j = 0 := if_pos hdead

/-- What follows where only overlapping blobs extend a track: who is not matched, and which blobs
start a track. -/
structure Filtered (matchingArea : Blob → Blob → Int)
    (found : Fin tracks.length → Option (Fin blobs.length)) : Prop where
  overlapping : Overlapping (score matchingArea blobs tracks) found
  dead : ∀ i, (tracks.get i).state = .BlobTrackDead → found i = none
  alone : ∀ i, (∀ j, score matchingArea blobs tracks i j ≤ 0) → found i = none
  new : ∀ j, (∀ i, (tracks.get i).state ≠ .BlobTrackDead → score matchingArea blobs tracks i j ≤ 0) →
    j ∈ unmatched found

theorem Filtered.of_overlapping (h : Overlapping (score matchingArea blobs tracks) found) :
    Filtered matchingArea found := by
  have halone (i : Fin tracks.length) (hi : ∀ j, score matchingArea blobs tracks i j ≤ 0) :
      found i = none := by
    cases hfound : found i with
    | none => rfl
    | some j => exact absurd (h i j hfound) (not_lt.mpr (hi j))
  constructor
  case overlapping => exact h
  case dead => exact fun i hdead => halone i fun j => (score_dead hdead j).le
  case alone => exact halone
  case new =>
    intro j hj
    rw [mem_unmatched]
    intro i hij
    have hpos := h i j hij
    by_cases hdead : (tracks.get i).state = .BlobTrackDead
    · rw [score_dead hdead] at hpos
      exact absurd hpos (lt_irrefl 0)
    · exact absurd hpos (not_lt.mpr (hj i hdead))

end

/-- Only overlapping blobs extend a track when all pairs overlap; or when no overlap is one less than
the largest, some assignment covers, and so does every one that is best counting from just below the
smallest overlap. Others extend one too when no assignment covers, or no best one does. -/
theorem chosen_overlapping (matchingArea : Blob → Blob → Int) (blobs : List Blob)
    (tracks : List BlobTrack) :
    ∃ bound found, (∀ fuel, bound ≤ fuel → chosen matchingArea blobs tracks fuel = some found) ∧
      ((∀ i j, 0 < score matchingArea blobs tracks i j) ∨
        (∀ i j, ¬ JustBelow (score matchingArea blobs tracks) i j) ∧
          Coverable (score matchingArea blobs tracks) ∧
          BestCover (score matchingArea blobs tracks) → Filtered matchingArea found) ∧
      (¬ Coverable (score matchingArea blobs tracks) ∨
        (∀ i j, ¬ JustBelow (score matchingArea blobs tracks) i j) ∧
          NoBestCovers (score matchingArea blobs tracks) →
        ¬ Overlapping (score matchingArea blobs tracks) found) := by
  obtain ⟨bound, found, hchosen, hone, hexhausts, hbest⟩ :=
    chosen_reweighed matchingArea blobs tracks
  have hcovers : Overlapping (score matchingArea blobs tracks) found ↔
      Covers (score matchingArea blobs tracks) found := overlapping_iff_covers hone hexhausts
  refine ⟨bound, found, hchosen, fun h => .of_overlapping ?_, ?_⟩
  · rcases h with hall | ⟨hapart, hcoverable, hcover⟩
    · exact fun i j _ => hall i j
    · by_cases hoverlap : ∃ i j, 0 < score matchingArea blobs tracks i j
      · obtain ⟨least, hleast⟩ := exists_leastOverlap hoverlap
        exact hcovers.mpr (hcover least found hleast (hbest hapart least hleast))
      · exact hcoverable.overlapping (fun i j hpos => hoverlap ⟨i, j, hpos⟩) found
  · rintro (hnone | ⟨hapart, least, hleast, hnone⟩) hoverlapping
    · exact hnone ⟨found, hone, hcovers.mp hoverlapping⟩
    · exact hnone found (hbest hapart least hleast) (hcovers.mp hoverlapping)

/-- Where all overlaps are equally large, the best assignments have as many as there can be. -/
theorem bestCover_of_same {R C : Type} [Fintype R] {scores : R → C → Int}
    (hsame : ∀ i j i' j', 0 < scores i j → 0 < scores i' j' → scores i j = scores i' j')
    {covering : R → Option C} (hone : OneToOne covering)
    (hcovers : ∀ i, ∃ j, covering i = some j ∧ 0 < scores i j) : BestCover scores := by
  rintro least other ⟨⟨i₀, j₀, hpos₀, rfl⟩, -⟩ ⟨-, hbest⟩
  have hcounted {i : R} {j : C} (hpos : 0 < scores i j) : reweighed scores (scores i₀ j₀) i j = 1 := by
    rw [reweighed, if_pos hpos, hsame i j i₀ j₀ hpos hpos₀]
    ring
  have hcovering (i : R) : (covering i).elim 0 (reweighed scores (scores i₀ j₀) i) = 1 := by
    obtain ⟨j, hj, hpos⟩ := hcovers i
    rw [hj]
    exact hcounted hpos
  have hle (i : R) : (other i).elim 0 (reweighed scores (scores i₀ j₀) i) ≤ 1 := by
    cases other i with
    | none => exact Int.one_nonneg
    | some j =>
      by_cases hpos : 0 < scores i j
      · exact (hcounted hpos).le
      · exact (if_neg hpos).le.trans Int.one_nonneg
  left
  intro i
  by_contra hnot
  have hlt : (other i).elim 0 (reweighed scores (scores i₀ j₀) i) < 1 := by
    cases hi : other i with
    | none => exact Int.one_pos
    | some j =>
      have hzero : reweighed scores (scores i₀ j₀) i j = 0 :=
        if_neg fun hpos => hnot ⟨j, hi, hpos⟩
      exact hzero.trans_lt Int.one_pos
  have hless : weight (reweighed scores (scores i₀ j₀)) other < ∑ _ : R, 1 :=
    Finset.sum_lt_sum (fun i _ => hle i) ⟨i, Finset.mem_univ i, hlt⟩
  have hmost : weight (reweighed scores (scores i₀ j₀)) covering = ∑ _ : R, 1 :=
    Finset.sum_congr rfl fun i _ => hcovering i
  exact absurd (hbest covering hone) (not_le.mpr (hless.trans_eq hmost.symm))

/-- Each track is extended by the blob that it overlaps. -/
theorem chosen_overlapping_sideBySide :
    ∃ bound found, (∀ fuel, bound ≤ fuel →
        chosen Blob.matchingArea sideBySide (tracksOf sideBySide) fuel = some found) ∧
      Filtered Blob.matchingArea found := by
  let own (i : Fin (tracksOf sideBySide).length) : Option (Fin sideBySide.length) :=
    some (i.cast (by decide))
  have hone : OneToOne own := fun i i' j hi hi' =>
    Fin.cast_injective _ (Option.some.inj (hi.trans hi'.symm))
  have hcovers : ∀ i, ∃ j, own i = some j ∧
      0 < score Blob.matchingArea sideBySide (tracksOf sideBySide) i j := by
    decide
  have hcover : BestCover (score Blob.matchingArea sideBySide (tracksOf sideBySide)) :=
    bestCover_of_same (by decide) hone hcovers
  obtain ⟨bound, found, hchosen, hfiltered, -⟩ :=
    chosen_overlapping Blob.matchingArea sideBySide (tracksOf sideBySide)
  refine ⟨bound, found, hchosen, hfiltered (.inr ⟨?_, ⟨own, hone, .inl hcovers⟩, hcover⟩)⟩
  unfold JustBelow
  decide

/-- A track whose blob has gone is extended by one that appears somewhere else. -/
theorem chosen_apart :
    ∃ found, chosen Blob.matchingArea [rectangle 20 0 4 4] (tracksOf [rectangle 0 0 4 4]) 20 =
        some found ∧
      ¬ Overlapping (score Blob.matchingArea [rectangle 20 0 4 4] (tracksOf [rectangle 0 0 4 4]))
        found := by
  have hchosen : (chosen Blob.matchingArea [rectangle 20 0 4 4] (tracksOf [rectangle 0 0 4 4]) 20).map
      (fun found => found ⟨0, by decide⟩) = some (some ⟨0, by decide⟩) := by
    decide +kernel
  obtain ⟨found, hfound, hextended⟩ := Option.map_eq_some_iff.mp hchosen
  refine ⟨found, hfound, fun hoverlapping => ?_⟩
  exact absurd (hoverlapping _ _ hextended) (by decide)

end ParleVision.Tracker
