import ParleVision.Lib.Loop

namespace ParleVision.Opencv
open Lib

structure UShortMat where
  rows : Nat
  cols : Nat
  channels : Nat
  /-- by the row and the place in the row, where the channels of a pixel are side by side -/
  samples : Int × Int → UInt16

namespace UShortMat

/-- `at<unsigned short>( y, x )` is a sample of row `y`. -/
def Inside (m : UShortMat) (y x : Int) : Prop :=
  0 ≤ y ∧ y < m.rows ∧ 0 ≤ x ∧ x < m.cols * m.channels

instance (m : UShortMat) (y x : Int) : Decidable (m.Inside y x) :=
  inferInstanceAs (Decidable (_ ∧ _))

def pixel (m : UShortMat) (y x : Int) (channel : Nat) : UInt16 :=
  m.samples (y, x * m.channels + channel)

end UShortMat

namespace Stitch

/-- The value for one sample; nothing when the sum is too large for the cast. Both values and
their sum are exact as floats. -/
def composed (m_blend : Bool) (outval inval : UInt16) : Option UInt16 :=
  if m_blend then
    if outval > 0 then
      let sum := inval.toNat + outval.toNat
      -- the cast comes before the multiplication with 0.5f
      if sum < 65536 then some (UInt16.ofNat (sum / 2)) else none
    else some inval
  else some inval

section
variable (m_blend : Bool) (input out : UShortMat) (displacementX displacementY : Int)

/-- One turn of the loops; nothing when it reads or writes outside of a row. -/
def copySample (samples : Int × Int → UInt16) (y x : Int) : Option (Int × Int → UInt16) :=
  if input.Inside y x ∧ out.Inside (y + displacementY) (x + displacementX) then
    (composed m_blend (samples (y + displacementY, x + displacementX)) (input.samples (y, x))).map
      (Function.update samples (y + displacementY, x + displacementX))
  else none

def copyImgInto : Option UShortMat :=
  let xStart := if displacementX < 0 then -displacementX else 0
  let yStart := if displacementY < 0 then -displacementY else 0
  let xStop : Int := input.cols
  let yStop : Int := input.rows
  let xStop := if xStop + displacementX > out.cols then xStop - (xStop + displacementX - out.cols)
    else xStop
  let yStop := if yStop + displacementY > out.rows then yStop - (yStop + displacementY - out.rows)
    else yStop
  let samples := (span yStart yStop).foldlM (fun samples y =>
    (span xStart xStop).foldlM (fun samples x =>
      copySample m_blend input out displacementX displacementY samples y x) samples) out.samples
  samples.map fun samples => { out with samples }

/-- A pixel of the one image that lies in the other when it is shifted. -/
def Overlaps (y x : Int) : Prop :=
  0 ≤ y ∧ y < input.rows ∧ 0 ≤ x ∧ x < input.cols ∧
    0 ≤ y + displacementY ∧ y + displacementY < out.rows ∧
    0 ≤ x + displacementX ∧ x + displacementX < out.cols

instance (y x : Int) : Decidable (Overlaps input out displacementX displacementY y x) :=
  inferInstanceAs (Decidable (_ ∧ _))

def mixed (outval inval : UInt16) : UInt16 :=
  if m_blend = false ∨ outval = 0 then inval
  else UInt16.ofNat ((inval.toNat + outval.toNat) / 2)

/-- It only touches what is inside, and every channel of every pixel is as it should be. -/
def Composes : Prop :=
  ∃ out', copyImgInto m_blend input out displacementX displacementY = some out' ∧
    ∀ (y x : Int) (channel : Nat), 0 ≤ y → y < out.rows → 0 ≤ x → x < out.cols →
      channel < out.channels →
      out'.pixel y x channel =
        if Overlaps input out displacementX displacementY (y - displacementY) (x - displacementX) then
          mixed m_blend (out.pixel y x channel)
            (input.pixel (y - displacementY) (x - displacementX) channel)
        else out.pixel y x channel

end

section
variable {m_blend : Bool} {input out : UShortMat} {displacementX displacementY : Int}

theorem composed_iff {outval inval v : UInt16} : composed m_blend outval inval = some v ↔
    v = mixed m_blend outval inval ∧
      (m_blend = true → outval ≠ 0 → inval.toNat + outval.toNat < 65536) := by
  unfold composed mixed
  cases m_blend with
  | false => simp [eq_comm]
  | true =>
    by_cases hzero : outval = 0
    · subst hzero
      simp [eq_comm]
    · have hpos : outval > 0 := UInt16.pos_iff_ne_zero.mpr hzero
      simp only [if_true, if_pos hpos]
      split
      · rename_i hlt
        simp [hzero, hlt, eq_comm]
      · rename_i hlt
        simp [hzero, hlt]

theorem mem_loops {y x : Int} :
    (y, x) ∈ span (if displacementY < 0 then -displacementY else 0)
        (if (input.rows : Int) + displacementY > out.rows then
          input.rows - (input.rows + displacementY - out.rows) else input.rows) ×ˢ
      span (if displacementX < 0 then -displacementX else 0)
        (if (input.cols : Int) + displacementX > out.cols then
          input.cols - (input.cols + displacementX - out.cols) else input.cols) ↔
      Overlaps input out displacementX displacementY y x := by
  rw [List.mem_product, mem_span, mem_span]
  unfold Overlaps
  split <;> split <;> split <;> split <;> omega

theorem inside_of_overlaps (hin : 1 ≤ input.channels) (hout : 1 ≤ out.channels) {y x : Int}
    (h : Overlaps input out displacementX displacementY y x) :
    input.Inside y x ∧ out.Inside (y + displacementY) (x + displacementX) := by
  obtain ⟨hy, hy', hx, hx', hY, hY', hX, hX'⟩ := h
  have hcols : (input.cols : Int) ≤ input.cols * input.channels := by
    exact_mod_cast Nat.le_mul_of_pos_right _ hin
  have hcols' : (out.cols : Int) ≤ out.cols * out.channels := by
    exact_mod_cast Nat.le_mul_of_pos_right _ hout
  exact ⟨⟨hy, hy', hx, by omega⟩, hY, hY', hX, by omega⟩

def turn (m_blend : Bool) (input out : UShortMat) (displacementX displacementY : Int)
    (p : Int × Int) (outval : UInt16) : Option UInt16 :=
  if input.Inside p.1 p.2 ∧ out.Inside (p.1 + displacementY) (p.2 + displacementX) then
    composed m_blend outval (input.samples p)
  else none

theorem copySample_eq (samples : Int × Int → UInt16) (p : Int × Int) :
    copySample m_blend input out displacementX displacementY samples p.1 p.2 =
      (turn m_blend input out displacementX displacementY p
        (samples (p.1 + displacementY, p.2 + displacementX))).map
        (Function.update samples (p.1 + displacementY, p.2 + displacementX)) := by
  unfold copySample turn
  split <;> rfl

theorem turn_of_overlaps (hin : 1 ≤ input.channels) (hout : 1 ≤ out.channels) {p : Int × Int}
    (h : Overlaps input out displacementX displacementY p.1 p.2) (outval : UInt16) :
    turn m_blend input out displacementX displacementY p outval =
      composed m_blend outval (input.samples p) :=
  if_pos (inside_of_overlaps hin hout h)

/-- The loops as one that writes each place at most once. -/
theorem copyImgInto_eq : ∃ loops : List (Int × Int),
    (∀ y x, (y, x) ∈ loops ↔ Overlaps input out displacementX displacementY y x) ∧
      (loops.map fun p => (p.1 + displacementY, p.2 + displacementX)).Nodup ∧
      copyImgInto m_blend input out displacementX displacementY =
        (loops.foldlM (fun samples p =>
          (turn m_blend input out displacementX displacementY p
            (samples (p.1 + displacementY, p.2 + displacementX))).map
            (Function.update samples (p.1 + displacementY, p.2 + displacementX)))
          out.samples).map fun samples => { out with samples } := by
  refine ⟨_, fun y x => mem_loops, ?_, ?_⟩
  · refine ((span_nodup _ _).product (span_nodup _ _)).map fun p q heq => ?_
    rw [Prod.mk.injEq] at heq
    exact Prod.ext (by omega) (by omega)
  · unfold copyImgInto
    dsimp only
    rw [foldlM_product]
    simp only [copySample_eq]

section
variable (hin : 1 ≤ input.channels) (hout : 1 ≤ out.channels)
include hin hout

/-- The samples in the columns that overlap are written. -/
theorem copyImgInto_iff {out' : UShortMat} :
    copyImgInto m_blend input out displacementX displacementY = some out' ↔
      ∃ samples, out' = { out with samples } ∧
        (∀ y x, Overlaps input out displacementX displacementY y x →
          composed m_blend (out.samples (y + displacementY, x + displacementX))
            (input.samples (y, x)) = some (samples (y + displacementY, x + displacementX))) ∧
        ∀ y x, ¬ Overlaps input out displacementX displacementY (y - displacementY)
          (x - displacementX) → samples (y, x) = out.samples (y, x) := by
  obtain ⟨loops, hmem, hd, heq⟩ := @copyImgInto_eq m_blend input out displacementX displacementY
  rw [heq, Option.map_eq_some_iff]
  refine exists_congr fun samples => ?_
  rw [foldlM_update_iff hd, and_comm, eq_comm]
  refine and_congr_right fun _ => and_congr ?_ ?_
  · constructor
    · intro h y x hov
      have hp := h (y, x) ((hmem y x).mpr hov)
      rw [turn_of_overlaps hin hout hov] at hp
      exact hp
    · rintro h ⟨y, x⟩ hp
      have hov := (hmem y x).mp hp
      rw [turn_of_overlaps hin hout hov]
      exact h y x hov
  · constructor
    · intro h y x hov
      refine h (y, x) fun hin' => ?_
      obtain ⟨⟨y', x'⟩, hp, hpos⟩ := List.mem_map.mp hin'
      rw [Prod.mk.injEq] at hpos
      obtain ⟨rfl, rfl⟩ := hpos
      simp only [Int.add_sub_cancel] at hov
      exact hov ((hmem y' x').mp hp)
    · rintro h ⟨y, x⟩ hnot
      refine h y x fun hov => hnot (List.mem_map.mpr ⟨_, (hmem _ _).mpr hov, ?_⟩)
      simp only [Int.sub_add_cancel]

theorem copyImgInto_isSome :
    (∃ out', copyImgInto m_blend input out displacementX displacementY = some out') ↔
      ∀ y x, Overlaps input out displacementX displacementY y x →
        (composed m_blend (out.samples (y + displacementY, x + displacementX))
          (input.samples (y, x))).isSome := by
  obtain ⟨loops, hmem, hd, heq⟩ := @copyImgInto_eq m_blend input out displacementX displacementY
  have hend := foldlM_update_isSome (f := out.samples)
    (v := turn m_blend input out displacementX displacementY) hd
  constructor
  · rintro ⟨out', hout'⟩ y x hov
    rw [heq, Option.map_eq_some_iff] at hout'
    obtain ⟨samples, hsamples, -⟩ := hout'
    have hp := hend.mp ⟨samples, hsamples⟩ (y, x) ((hmem y x).mpr hov)
    rw [turn_of_overlaps hin hout hov] at hp
    exact hp
  · intro h
    obtain ⟨samples, hsamples⟩ := hend.mpr fun ⟨y, x⟩ hp => by
      have hov := (hmem y x).mp hp
      rw [turn_of_overlaps hin hout hov]
      exact h y x hov
    rw [heq, hsamples]
    exact ⟨_, rfl⟩

end

/-- A sum that is halved fits in the cast. -/
def SumsFit (m_blend : Bool) (input out : UShortMat) (displacementX displacementY : Int) : Prop :=
  m_blend = true → ∀ y x, Overlaps input out displacementX displacementY y x →
    out.samples (y + displacementY, x + displacementX) ≠ 0 →
      (input.samples (y, x)).toNat +
        (out.samples (y + displacementY, x + displacementX)).toNat < 65536

theorem sumsFit_iff (hin : 1 ≤ input.channels) (hout : 1 ≤ out.channels) :
    (∃ out', copyImgInto m_blend input out displacementX displacementY = some out') ↔
      SumsFit m_blend input out displacementX displacementY := by
  rw [copyImgInto_isSome hin hout]
  unfold SumsFit
  constructor
  · intro h hblend y x hov hne
    obtain ⟨v, hv⟩ := Option.isSome_iff_exists.mp (h y x hov)
    exact (composed_iff.mp hv).2 hblend hne
  · intro h y x hov
    rw [composed_iff.mpr ⟨rfl, fun hblend hne => h hblend y x hov hne⟩]
    rfl

/-- With one channel a place in a row is a column. -/
theorem composes_one (hin : input.channels = 1) (hout : out.channels = 1) :
    Composes m_blend input out displacementX displacementY ↔
      SumsFit m_blend input out displacementX displacementY := by
  have hin' : 1 ≤ input.channels := Nat.le_of_eq hin.symm
  have hout' : 1 ≤ out.channels := Nat.le_of_eq hout.symm
  rw [← sumsFit_iff hin' hout']
  refine ⟨fun ⟨out', heq, _⟩ => ⟨out', heq⟩, fun ⟨out', heq⟩ => ⟨out', heq, ?_⟩⟩
  obtain ⟨samples, rfl, hwritten, hrest⟩ := (copyImgInto_iff hin' hout').mp heq
  intro y x channel _ _ _ _ hchannel
  obtain rfl : channel = 0 := by omega
  have hplace : ∀ x : Int, x * (1 : Nat) + (0 : Nat) = x := fun x => by omega
  unfold UShortMat.pixel
  dsimp only
  rw [hin, hout, hplace, hplace]
  split
  · rename_i hov
    have hv := (composed_iff.mp (hwritten _ _ hov)).1
    simp only [Int.sub_add_cancel] at hv
    exact hv
  · rename_i hov
    exact hrest y x hov

/-- Nothing is copied where nothing overlaps. -/
theorem composes_apart (hin : 1 ≤ input.channels) (hout : 1 ≤ out.channels)
    (hapart : ∀ y x, ¬ Overlaps input out displacementX displacementY y x) :
    Composes m_blend input out displacementX displacementY := by
  have hend : ∃ out', copyImgInto m_blend input out displacementX displacementY = some out' :=
    (sumsFit_iff hin hout).mpr fun _ y x hov => absurd hov (hapart y x)
  obtain ⟨out', heq⟩ := hend
  obtain ⟨samples, rfl, -, hrest⟩ := (copyImgInto_iff hin hout).mp heq
  refine ⟨_, heq, fun y x channel _ _ _ _ _ => ?_⟩
  rw [if_neg (hapart _ _)]
  exact hrest _ _ (hapart _ _)

/-- The last channel of the last column is never written when there are more channels. -/
theorem not_composes (hin : 1 ≤ input.channels) (hout : 2 ≤ out.channels) {y x : Int}
    (hov : Overlaps input out displacementX displacementY y x)
    (hlast : ¬ Overlaps input out displacementX displacementY y (x + 1))
    (hchange : mixed m_blend
        (out.pixel (y + displacementY) (x + displacementX) (out.channels - 1))
        (input.pixel y x (out.channels - 1)) ≠
      out.pixel (y + displacementY) (x + displacementX) (out.channels - 1)) :
    ¬ Composes m_blend input out displacementX displacementY := by
  rintro ⟨out', heq, hall⟩
  obtain ⟨samples, rfl, -, hrest⟩ := (copyImgInto_iff hin (by omega)).mp heq
  have hov' := hov
  obtain ⟨hy, hy', hx, hx', hY, hY', hX, hX'⟩ := hov
  have hpixel := hall (y + displacementY) (x + displacementX) (out.channels - 1) hY hY' hX hX'
    (by omega)
  simp only [Int.add_sub_cancel] at hpixel
  rw [if_pos hov'] at hpixel
  refine hchange (hpixel.symm.trans (hrest _ _ fun hw => hlast ?_))
  obtain ⟨-, -, -, hw, -, -, -, hw'⟩ := hw
  have hplace : x + displacementX ≤ (x + displacementX) * out.channels := by
    have hmul := Int.mul_le_mul_of_nonneg_left (show (1 : Int) ≤ out.channels by omega) hX
    rwa [Int.mul_one] at hmul
  dsimp only at hw hw'
  exact ⟨hy, hy', by omega, by omega, hY, hY', by omega, by omega⟩

end

/-- It is right for images of one channel whose halved sums fit (of up to four channels where
nothing overlaps). With more channels a column is taken for a place in the row. -/
theorem composes_right (m_blend : Bool) (input out : UShortMat) (posX posY : Int)
    (hchannels : input.channels = out.channels) (hpos : 1 ≤ out.channels) :
    (out.channels = 1 ∨ (∀ y x, ¬ Overlaps input out posX posY y x) →
      (Composes m_blend input out posX posY ↔ SumsFit m_blend input out posX posY)) ∧
    (2 ≤ out.channels → ∀ y x, Overlaps input out posX posY y x →
      ¬ Overlaps input out posX posY y (x + 1) →
      mixed m_blend (out.pixel (y + posY) (x + posX) (out.channels - 1))
        (input.pixel y x (out.channels - 1)) ≠
          out.pixel (y + posY) (x + posX) (out.channels - 1) →
      ¬ Composes m_blend input out posX posY) := by
  refine ⟨fun h => ?_, fun htwo y x hov hlast hchange =>
    not_composes (hchannels ▸ hpos) htwo hov hlast hchange⟩
  rcases h with hone | hapart
  · exact composes_one (hchannels.trans hone) hone
  · refine iff_of_true (composes_apart (hchannels ▸ hpos) hpos hapart) ?_
    exact fun _ y x hov => absurd hov (hapart y x)

def onePixel (channels : Nat) (value : UInt16) : UShortMat := ⟨1, 1, channels, fun _ => value⟩

theorem composes_right_one : Composes true (onePixel 1 40000) (onePixel 1 20000) 0 0 :=
  ((composes_right true (onePixel 1 40000) (onePixel 1 20000) 0 0 rfl (by decide)).1
    (.inl rfl)).mpr fun _ _ _ _ _ =>
      (by decide : (40000 : UInt16).toNat + (20000 : UInt16).toNat < 65536)

/-- A pixel of two channels on a black one. -/
theorem second_channel_lost : ¬ ∀ m_blend input out posX posY, input.channels = out.channels →
    1 ≤ out.channels → out.channels ≤ 4 → Composes m_blend input out posX posY := by
  intro hall
  have hcomposes := hall false (onePixel 2 1) (onePixel 2 0) 0 0 rfl (by decide) (by decide)
  have hlost : ¬ Composes false (onePixel 2 1) (onePixel 2 0) 0 0 :=
    not_composes (y := 0) (x := 0) (by decide) (by decide) (by decide) (by decide) (by decide)
  exact hlost hcomposes

end Stitch

end ParleVision.Opencv
