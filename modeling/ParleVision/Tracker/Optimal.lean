import ParleVision.Tracker.Conservation
import Mathlib.Algebra.Order.Field.Basic
import Mathlib.Algebra.BigOperators.Ring.Finset
import Mathlib.Data.Fintype.Prod

namespace ParleVision.Tracker
open Lib

theorem foldl_largest (l : List ℚ) (init : ℚ) :
    init ≤ l.foldl (fun h x => if x > h then x else h) init ∧
      (∀ x ∈ l, x ≤ l.foldl (fun h x => if x > h then x else h) init) ∧
      (l.foldl (fun h x => if x > h then x else h) init = init ∨
        l.foldl (fun h x => if x > h then x else h) init ∈ l) := by
  induction l generalizing init with
  | nil => simp
  | cons y l ih =>
    rw [List.foldl_cons]
    obtain ⟨hinit, hle, hmem⟩ := ih (if y > init then y else init)
    have hboth : init ≤ (if y > init then y else init) ∧ y ≤ (if y > init then y else init) := by
      split <;> constructor <;> linarith
    refine ⟨le_trans hboth.1 hinit, ?_, ?_⟩
    · intro x hx
      rcases List.mem_cons.mp hx with rfl | hx
      · exact le_trans hboth.2 hinit
      · exact hle x hx
    · rcases hmem with hsame | hmem
      · rw [hsame]
        split <;> simp
      · exact .inr (List.mem_cons_of_mem _ hmem)

theorem highValue_spec {rows columns : Nat} (m : Matrix rows columns (Option ℚ)) :
    1 ≤ highValue m ∧ (∀ i j entry, m i j = some entry → entry + 1 ≤ highValue m) ∧
      (highValue m = 1 ∨ ∃ i j entry, m i j = some entry ∧ highValue m = entry + 1) := by
  have hfold : highValue m = ((cells rows columns).filterMap fun x => m x.1 x.2).foldl
      (fun h x => if x > h then x else h) 0 + 1 := by
    rw [List.foldl_filterMap]
    unfold highValue
    congr 2
    funext h x
    cases m x.1 x.2 <;> rfl
  obtain ⟨hzero, hle, hmem⟩ :=
    foldl_largest ((cells rows columns).filterMap fun x => m x.1 x.2) 0
  rw [hfold]
  refine ⟨by linarith, ?_, ?_⟩
  · intro i j entry hentry
    have hin := hle entry (List.mem_filterMap.mpr ⟨(i, j), mem_cells _, hentry⟩)
    linarith
  · rcases hmem with hsame | hmem
    · left
      rw [hsame]
      norm_num
    · right
      obtain ⟨x, -, hx⟩ := List.mem_filterMap.mp hmem
      exact ⟨x.1, x.2, _, hx, rfl⟩

section
variable (matchingArea : Blob → Blob → Int) (blobs : List Blob) (tracks : List BlobTrack)

def score (i : Fin tracks.length) (j : Fin blobs.length) : Int :=
  (tracks.get i).matches matchingArea (blobs.get j)

theorem maxScore_spec :
    (∀ i j, (score matchingArea blobs tracks i j : ℚ) ≤ maxScore matchingArea blobs tracks + 1) ∧
      (maxScore matchingArea blobs tracks + 1 = DBL_MIN ∨
        ∃ i j, maxScore matchingArea blobs tracks + 1 = score matchingArea blobs tracks i j) := by
  have hfold : maxScore matchingArea blobs tracks + 1 =
      (tracks.flatMap fun track => blobs.map fun blob =>
        (track.matches matchingArea blob : ℚ)).foldl
        (fun h x => if x > h then x else h) DBL_MIN := by
    rw [List.foldl_flatMap]
    simp only [List.foldl_map]
    unfold maxScore
    rw [sub_add_cancel]
  obtain ⟨-, hle, hmem⟩ := foldl_largest (tracks.flatMap fun track => blobs.map fun blob =>
    (track.matches matchingArea blob : ℚ)) DBL_MIN
  rw [hfold]
  constructor
  · intro i j
    apply hle
    exact List.mem_flatMap.mpr
      ⟨tracks.get i, tracks.get_mem i, List.mem_map.mpr ⟨blobs.get j, blobs.get_mem j, rfl⟩⟩
  · refine hmem.imp id fun hmem => ?_
    obtain ⟨track, htrack, hmem⟩ := List.mem_flatMap.mp hmem
    obtain ⟨blob, hblob, heq⟩ := List.mem_map.mp hmem
    obtain ⟨i, rfl⟩ := List.get_of_mem htrack
    obtain ⟨j, rfl⟩ := List.get_of_mem hblob
    exact ⟨i, j, heq.symm⟩

end

section
variable {matchingArea : Blob → Blob → Int} {blobs : List Blob} {tracks : List BlobTrack}

theorem costs_inner (i : Fin tracks.length) (j : Fin blobs.length) :
    costs matchingArea blobs tracks (i.castLE (Nat.le_max_left ..)) (j.castLE (Nat.le_max_right ..)) =
      if 0 < score matchingArea blobs tracks i j then
        some (maxScore matchingArea blobs tracks - score matchingArea blobs tracks i j)
      else none := by
  unfold costs
  simp only [Fin.val_castLE, List.getElem?_eq_getElem i.isLt, List.getElem?_eq_getElem j.isLt,
    gt_iff_lt, Int.cast_pos]
  rfl

theorem costs_outer {x y : Fin (matrixSize blobs tracks)}
    (h : ∀ (i : Fin tracks.length) (j : Fin blobs.length), i.castLE (Nat.le_max_left ..) = x →
      j.castLE (Nat.le_max_right ..) ≠ y) : costs matchingArea blobs tracks x y = none := by
  unfold costs
  cases htrack : tracks[x.val]? with
  | none => rfl
  | some track =>
    cases hblob : blobs[y.val]? with
    | none => rfl
    | some blob =>
      obtain ⟨hx, -⟩ := List.getElem?_eq_some_iff.mp htrack
      obtain ⟨hy, -⟩ := List.getElem?_eq_some_iff.mp hblob
      exact absurd rfl (h ⟨x.val, hx⟩ ⟨y.val, hy⟩ rfl)

theorem costs_some {x y : Fin (matrixSize blobs tracks)} {entry : ℚ}
    (h : costs matchingArea blobs tracks x y = some entry) :
    ∃ i j, 0 < score matchingArea blobs tracks i j ∧
      entry = maxScore matchingArea blobs tracks - score matchingArea blobs tracks i j := by
  by_cases hin : ∃ (i : Fin tracks.length) (j : Fin blobs.length),
      i.castLE (Nat.le_max_left ..) = x ∧ j.castLE (Nat.le_max_right ..) = y
  · obtain ⟨i, j, rfl, rfl⟩ := hin
    rw [costs_inner] at h
    split at h
    case isTrue hpos => exact ⟨i, j, hpos, (Option.some.inj h).symm⟩
    case isFalse => cases h
  · rw [costs_outer fun i j hi hj => hin ⟨i, j, hi, hj⟩] at h
    cases h

end

section
variable {R C : Type} (scores : R → C → Int)

/-- The score is one less than the largest. -/
def JustBelow (i : R) (j : C) : Prop :=
  0 < scores i j ∧ (∃ i' j', scores i' j' = scores i j + 1) ∧ ∀ i' j', scores i' j' ≤ scores i j + 1

def LeastOverlap (least : Int) : Prop :=
  (∃ i j, 0 < scores i j ∧ scores i j = least) ∧ ∀ i j, 0 < scores i j → least ≤ scores i j

/-- What is left of the overlaps when they are counted from just below the smallest. -/
def reweighed (least : Int) (i : R) (j : C) : Int :=
  if 0 < scores i j then scores i j - least + 1 else 0

/-- Every assignment that is best counting so is best. -/
def Undistorted [Fintype R] : Prop :=
  ∀ least other, LeastOverlap scores least → Best (reweighed scores least) other → Best scores other

def Distorted [Fintype R] : Prop :=
  ∃ least, LeastOverlap scores least ∧
    ∀ other, Best (reweighed scores least) other → ¬ Best scores other

variable {scores}

theorem exists_leastOverlap [Fintype R] [Fintype C] (h : ∃ i j, 0 < scores i j) :
    ∃ least, LeastOverlap scores least := by
  obtain ⟨i, j, hpos⟩ := h
  obtain ⟨⟨i', j'⟩, hmem, hle⟩ :=
    (Finset.univ.filter fun x : R × C => 0 < scores x.1 x.2).exists_min_image
      (fun x => scores x.1 x.2) ⟨(i, j), by simp [hpos]⟩
  rw [Finset.mem_filter] at hmem
  exact ⟨scores i' j', ⟨i', j', hmem.2, rfl⟩, fun k l hkl => hle (k, l) (by simp [hkl])⟩

end

section
variable {matchingArea : Blob → Blob → Int} {blobs : List Blob} {tracks : List BlobTrack}

/-- With an overlap, `maxScore` is one less than the largest. -/
theorem exists_largest {i : Fin tracks.length} {j : Fin blobs.length}
    (hpos : 0 < score matchingArea blobs tracks i j) :
    ∃ k l, maxScore matchingArea blobs tracks = score matchingArea blobs tracks k l - 1 ∧
      ∀ i' j', score matchingArea blobs tracks i' j' ≤ score matchingArea blobs tracks k l := by
  obtain ⟨hle, hsmall | ⟨k, l, hkl⟩⟩ := maxScore_spec matchingArea blobs tracks
  · have hone : (1 : ℚ) ≤ score matchingArea blobs tracks i j := by exact_mod_cast hpos
    have hlarge := hle i j
    have htiny : DBL_MIN < 1 := by
      unfold DBL_MIN
      rw [div_lt_one (by positivity)]
      exact one_lt_pow₀ one_lt_two (by decide)
    linarith
  · refine ⟨k, l, by linarith, fun i' j' => ?_⟩
    have hij := hle i' j'
    rw [hkl] at hij
    exact_mod_cast hij

/-- No cost is zero, unless an overlap is one less than the largest. -/
theorem costs_fair (hapart : ∀ i j, ¬ JustBelow (score matchingArea blobs tracks) i j) :
    Munkres.Fair (finite (costs matchingArea blobs tracks)) := by
  right
  intro x y hzero
  unfold finite at hzero
  cases hcost : costs matchingArea blobs tracks x y with
  | none =>
    rw [hcost, Option.getD_none] at hzero
    have hhigh := (highValue_spec (costs matchingArea blobs tracks)).1
    linarith
  | some entry =>
    rw [hcost, Option.getD_some] at hzero
    obtain ⟨i, j, hpos, rfl⟩ := costs_some hcost
    obtain ⟨k, l, hmax, hle⟩ := exists_largest hpos
    have hnext : score matchingArea blobs tracks k l = score matchingArea blobs tracks i j + 1 := by
      have hnext : (score matchingArea blobs tracks k l : ℚ) =
          score matchingArea blobs tracks i j + 1 := by linarith
      exact_mod_cast hnext
    refine hapart i j ⟨hpos, ⟨k, l, hnext⟩, fun i' j' => ?_⟩
    rw [← hnext]
    exact hle i' j'

/-- What a pair costs less than one without overlap. -/
theorem finite_inner {least : Int} (hleast : LeastOverlap (score matchingArea blobs tracks) least) :
    ∃ scale : ℚ, 0 < scale ∧ ∀ i j, finite (costs matchingArea blobs tracks)
      (i.castLE (Nat.le_max_left ..)) (j.castLE (Nat.le_max_right ..)) =
        highValue (costs matchingArea blobs tracks) -
          scale * reweighed (score matchingArea blobs tracks) least i j := by
  obtain ⟨⟨i₀, j₀, hpos₀, rfl⟩, hle⟩ := hleast
  obtain ⟨k, l, hmax, hlargest⟩ := exists_largest hpos₀
  obtain ⟨hone, hentry, hattained⟩ := highValue_spec (costs matchingArea blobs tracks)
  have hhigh : maxScore matchingArea blobs tracks - score matchingArea blobs tracks i₀ j₀ + 1 ≤
      highValue (costs matchingArea blobs tracks) := by
    refine hentry (i₀.castLE (Nat.le_max_left ..)) (j₀.castLE (Nat.le_max_right ..)) _ ?_
    rw [costs_inner, if_pos hpos₀]
  have hinner (scale : ℚ) (hscale : ∀ i j, 0 < score matchingArea blobs tracks i j →
      maxScore matchingArea blobs tracks - score matchingArea blobs tracks i j =
        highValue (costs matchingArea blobs tracks) - scale *
          (score matchingArea blobs tracks i j - score matchingArea blobs tracks i₀ j₀ + 1)) :
      ∀ i j, finite (costs matchingArea blobs tracks)
        (i.castLE (Nat.le_max_left ..)) (j.castLE (Nat.le_max_right ..)) =
          highValue (costs matchingArea blobs tracks) - scale *
            reweighed (score matchingArea blobs tracks) (score matchingArea blobs tracks i₀ j₀) i j := by
    intro i j
    unfold finite reweighed
    rw [costs_inner]
    split
    case isTrue hpos =>
      rw [Option.getD_some, hscale i j hpos]
      push_cast
      rfl
    case isFalse =>
      rw [Option.getD_none, Int.cast_zero, mul_zero, sub_zero]
  have hmost : (highValue (costs matchingArea blobs tracks) = 1) ∨
      highValue (costs matchingArea blobs tracks) ≤
        maxScore matchingArea blobs tracks - score matchingArea blobs tracks i₀ j₀ + 1 := by
    refine hattained.imp id ?_
    rintro ⟨x, y, entry, hcost, hvalue⟩
    obtain ⟨i, j, hpos, rfl⟩ := costs_some hcost
    have hij : (score matchingArea blobs tracks i₀ j₀ : ℚ) ≤ score matchingArea blobs tracks i j := by
      exact_mod_cast hle i j hpos
    linarith
  rcases (hlargest i₀ j₀).lt_or_eq with hlt | heq
  · -- the smallest overlap costs the most, and no overlap one more than that
    have hlt : (score matchingArea blobs tracks i₀ j₀ : ℚ) + 1 ≤
        score matchingArea blobs tracks k l := by exact_mod_cast hlt
    have hvalue : highValue (costs matchingArea blobs tracks) =
        maxScore matchingArea blobs tracks - score matchingArea blobs tracks i₀ j₀ + 1 := by
      rcases hmost with hmost | hmost <;> linarith
    refine ⟨1, one_pos, hinner 1 fun i j hpos => ?_⟩
    linarith
  · -- all overlaps are the same, and so are their costs
    have hvalue : highValue (costs matchingArea blobs tracks) = 1 := by
      rcases hmost with hmost | hmost
      · exact hmost
      · rw [hmax, heq] at hmost
        linarith
    refine ⟨2, two_pos, hinner 2 fun i j hpos => ?_⟩
    have hsame : score matchingArea blobs tracks i j = score matchingArea blobs tracks k l :=
      le_antisymm (hlargest i j) (heq ▸ hle i j hpos)
    rw [hmax, hvalue, hsame, heq]
    ring

theorem weight_scale {R C : Type} [Fintype R] (scale : ℚ) (weights : R → C → Int)
    (assigned : R → Option C) :
    weight (fun i j => scale * (weights i j : ℚ)) assigned =
      scale * (weight weights assigned : Int) := by
  unfold weight
  rw [Int.cast_sum, Finset.mul_sum]
  refine Finset.sum_congr rfl fun i _ => ?_
  cases assigned i <;> simp

/-- A square of this size has no more rows than tracks, or no more columns than blobs. -/
theorem matrixSize_tight (blobs : List Blob) (tracks : List BlobTrack) :
    Function.Surjective (Fin.castLEEmb (Nat.le_max_left tracks.length blobs.length)) ∨
      Function.Surjective (Fin.castLEEmb (Nat.le_max_right tracks.length blobs.length)) := by
  rcases Nat.le_total blobs.length tracks.length with hle | hle
  · left
    intro x
    exact ⟨⟨x.val, by have hx := x.isLt; omega⟩, rfl⟩
  · right
    intro y
    exact ⟨⟨y.val, by have hy := y.isLt; omega⟩, rfl⟩

/-- What is chosen leaves no track out or no blob, and is best when the overlaps are counted from
just below the smallest and none is one less than the largest. -/
theorem chosen_reweighed (matchingArea : Blob → Blob → Int) (blobs : List Blob)
    (tracks : List BlobTrack) :
    ∃ bound found, (∀ fuel, bound ≤ fuel → chosen matchingArea blobs tracks fuel = some found) ∧
      OneToOne found ∧ Exhausts found ∧
      ((∀ i j, ¬ JustBelow (score matchingArea blobs tracks) i j) →
        ∀ least, LeastOverlap (score matchingArea blobs tracks) least →
          Best (reweighed (score matchingArea blobs tracks) least) found) := by
  obtain ⟨bound, m, hsolve, hassigned⟩ := solve_assigned (costs matchingArea blobs tracks)
  obtain ⟨e, he⟩ := hassigned.exists_equiv
  have hone := lastZero_oneToOne hassigned.matching
  have hzero (i : Fin tracks.length) (j : Fin blobs.length) :
      lastZero blobs tracks m i = some j ↔
        e (Fin.castLEEmb (Nat.le_max_left ..) i) = Fin.castLEEmb (Nat.le_max_right ..) j :=
    (lastZero_iff hassigned.matching i j).trans (he _ _)
  refine ⟨bound, lastZero blobs tracks m, fun fuel hfuel => ?_, hone,
    .of_equiv _ _ hzero (matrixSize_tight blobs tracks), fun hapart least hoverlap => ⟨hone, ?_⟩⟩
  · unfold chosen
    rw [hsolve fuel hfuel]
    rfl
  · intro other hother
    obtain ⟨u, v, hle, heq⟩ := hassigned.least (costs_fair hapart)
    have hleast := sum_le_of_reduced hle fun i => heq i (e i) ((he i (e i)).mpr rfl)
    obtain ⟨scale, hscale, hinner⟩ := finite_inner hoverlap
    have hpos (i : Fin tracks.length) (j : Fin blobs.length) :
        0 ≤ reweighed (score matchingArea blobs tracks) least i j := by
      unfold reweighed
      split
      case isTrue hpos =>
        have hle := hoverlap.2 i j hpos
        omega
      case isFalse => exact le_refl _
    have houter (x y : Fin (matrixSize blobs tracks))
        (hout : ∀ (i : Fin tracks.length) (j : Fin blobs.length),
          Fin.castLEEmb (Nat.le_max_left ..) i = x → Fin.castLEEmb (Nat.le_max_right ..) j ≠ y) :
        finite (costs matchingArea blobs tracks) x y =
          highValue (costs matchingArea blobs tracks) := by
      unfold finite
      rw [costs_outer hout]
      rfl
    have hweight := weight_le_of_least _ _ hinner houter
      (fun i j => mul_nonneg hscale.le (by exact_mod_cast hpos i j)) hzero hleast hother
    rw [weight_scale, weight_scale] at hweight
    exact_mod_cast le_of_mul_le_mul_left hweight hscale

/-- Without an overlap, every assignment is best. -/
theorem best_of_zero {R C : Type} [Fintype R] {scores : R → C → Int} (hzero : ∀ i j, scores i j = 0)
    {assigned : R → Option C} (hone : OneToOne assigned) : Best scores assigned := by
  have hweight (a : R → Option C) : weight scores a = 0 := by
    refine Finset.sum_eq_zero fun i _ => ?_
    cases a i with
    | none => rfl
    | some j => exact hzero i j
  refine ⟨hone, fun other _ => ?_⟩
  rw [hweight, hweight]

end

/-- When no overlap is one less than the largest, what is chosen is best if every assignment is
that is best counting from just below the smallest overlap, and it is not if none of these is. -/
theorem chosen_best (matchingArea : Blob → Blob → Int) (blobs : List Blob) (tracks : List BlobTrack)
    (hnonneg : ∀ i j, 0 ≤ score matchingArea blobs tracks i j)
    (hapart : ∀ i j, ¬ JustBelow (score matchingArea blobs tracks) i j) :
    ∃ bound found, (∀ fuel, bound ≤ fuel → chosen matchingArea blobs tracks fuel = some found) ∧
      (Undistorted (score matchingArea blobs tracks) →
        Best (score matchingArea blobs tracks) found) ∧
      (Distorted (score matchingArea blobs tracks) →
        ¬ Best (score matchingArea blobs tracks) found) := by
  obtain ⟨bound, found, hchosen, hone, -, hbest⟩ := chosen_reweighed matchingArea blobs tracks
  refine ⟨bound, found, hchosen, fun hsame => ?_, ?_⟩
  · by_cases hoverlap : ∃ i j, 0 < score matchingArea blobs tracks i j
    · obtain ⟨least, hleast⟩ := exists_leastOverlap hoverlap
      exact hsame least found hleast (hbest hapart least hleast)
    · refine best_of_zero (fun i j => ?_) hone
      have hle := hnonneg i j
      have hnot : ¬ 0 < score matchingArea blobs tracks i j := fun hpos => hoverlap ⟨i, j, hpos⟩
      omega
  · rintro ⟨least, hleast, hnone⟩
    exact hnone found (hbest hapart least hleast)

/-- Where all overlaps are equally large, counting them so changes nothing. -/
theorem undistorted_of_same {R C : Type} [Fintype R] {scores : R → C → Int}
    (hnonneg : ∀ i j, 0 ≤ scores i j)
    (hsame : ∀ i j i' j', 0 < scores i j → 0 < scores i' j' → scores i j = scores i' j') :
    Undistorted scores := by
  rintro least other ⟨⟨i₀, j₀, hpos₀, rfl⟩, -⟩ ⟨hone, hbest⟩
  have hscale (i : R) (j : C) : scores i j = scores i₀ j₀ * reweighed scores (scores i₀ j₀) i j := by
    unfold reweighed
    split
    case isTrue hpos =>
      rw [hsame i j i₀ j₀ hpos hpos₀]
      ring
    case isFalse hnot =>
      have := hnonneg i j
      omega
  have hweight (assigned : R → Option C) : weight scores assigned =
      scores i₀ j₀ * weight (reweighed scores (scores i₀ j₀)) assigned := by
    unfold weight
    rw [Finset.mul_sum]
    refine Finset.sum_congr rfl fun i _ => ?_
    cases assigned i with
    | none => exact (Int.mul_zero _).symm
    | some j => exact hscale i j
  refine ⟨hone, fun other' hone' => ?_⟩
  rw [hweight, hweight]
  exact Int.mul_le_mul_of_nonneg_left (hbest other' hone') hpos₀.le

def rectangle (x y width height : Int) : Blob where
  frameNr := 0
  boundingRect := { x, y, width, height }
  cog := (x, y)
  valid := true

def tracksOf (blobs : List Blob) : List BlobTrack :=
  (blobs.zipIdx 1).filterMap fun x => BlobTrack.new (UInt32.ofNat x.2) x.1

def sideBySide : List Blob := [rectangle 0 0 10 2, rectangle 10 0 10 2]

/-- Each blob is that of its track, and nothing is lost. -/
theorem chosen_best_sideBySide :
    ∃ bound found, (∀ fuel, bound ≤ fuel →
        chosen Blob.matchingArea sideBySide (tracksOf sideBySide) fuel = some found) ∧
      Best (score Blob.matchingArea sideBySide (tracksOf sideBySide)) found := by
  have hnonneg : ∀ i j, 0 ≤ score Blob.matchingArea sideBySide (tracksOf sideBySide) i j := by
    decide
  obtain ⟨bound, found, hchosen, hbest, -⟩ :=
    chosen_best Blob.matchingArea sideBySide (tracksOf sideBySide) hnonneg
      (by unfold JustBelow; decide)
  exact ⟨bound, found, hchosen, hbest (undistorted_of_same hnonneg (by decide))⟩

/-- One above the other, each across both blobs. -/
def stacked : List BlobTrack := tracksOf [rectangle 1 0 19 1, rectangle 0 1 19 1]

/-- The overlaps are nine and ten, and ten and nine: the nines are chosen. -/
theorem chosen_stacked :
    ∃ found, chosen Blob.matchingArea sideBySide stacked 30 = some found ∧
      ¬ Best (score Blob.matchingArea sideBySide stacked) found := by
  have hchosen : (chosen Blob.matchingArea sideBySide stacked 30).map
      (weight (score Blob.matchingArea sideBySide stacked)) = some 18 := by
    decide +kernel
  obtain ⟨found, hfound, hweight⟩ := Option.map_eq_some_iff.mp hchosen
  refine ⟨found, hfound, fun hbest => ?_⟩
  let other : Fin stacked.length → Option (Fin sideBySide.length) :=
    fun i => some (Fin.rev (i.cast (by decide)))
  have hone : OneToOne other := by
    intro i i' j hi hi'
    have hsame := Fin.rev_injective (Option.some.inj (hi.trans hi'.symm))
    exact Fin.cast_injective _ hsame
  have hother : weight (score Blob.matchingArea sideBySide stacked) other = 20 := by
    decide +kernel
  have hle := hbest.2 other hone
  rw [hweight, hother] at hle
  omega

end ParleVision.Tracker
