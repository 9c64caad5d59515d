import ParleVision.Images.Mat
import ParleVision.Lib.Loop

namespace ParleVision.Images
open Lib

structure QRgb where
  red : UInt8
  green : UInt8
  blue : UInt8
  deriving DecidableEq, Repr

def qRgb (r g b : Nat) : QRgb := ⟨UInt8.ofNat r, UInt8.ofNat g, UInt8.ofNat b⟩

inductive QImage where
  | indexed8 (width height : Nat) (scanLine : Nat × Nat → UInt8) (colorTable : UInt8 → QRgb)
  | rgb32 (width height : Nat) (scanLine : Nat × Nat → QRgb)

namespace QImage

def width : QImage → Nat
  | .indexed8 width _ _ _ => width
  | .rgb32 width _ _ => width

def height : QImage → Nat
  | .indexed8 _ height _ _ => height
  | .rgb32 _ height _ => height

def pixel : QImage → Nat → Nat → QRgb
  | .indexed8 _ _ scanLine colorTable, y, x => colorTable (scanLine (y, x))
  | .rgb32 _ _ scanLine, y, x => scanLine (y, x)

/-- An image without rows or columns is null and has neither. -/
def format_Indexed8 (width height : Nat) (scanLine : Nat × Nat → UInt8) : QImage :=
  if width = 0 ∨ height = 0 then .indexed8 0 0 scanLine fun _ => ⟨0, 0, 0⟩
  else .indexed8 width height scanLine fun _ => ⟨0, 0, 0⟩

def format_RGB32 (width height : Nat) (scanLine : Nat × Nat → QRgb) : QImage :=
  if width = 0 ∨ height = 0 then .rgb32 0 0 scanLine else .rgb32 width height scanLine

def setColorTable (colorTable : UInt8 → QRgb) : QImage → QImage
  | .indexed8 width height scanLine _ => .indexed8 width height scanLine colorTable
  | .rgb32 width height scanLine => .rgb32 width height scanLine

end QImage

namespace ImageConverter

def int (n : Int) : Int := n.bmod (2 ^ 32)

/-- The address of a byte of one of the rows, without what is between them. -/
def InRows (mat : Mat) (address : Int) : Prop :=
  mat.data ≤ address ∧ (address - mat.data) / mat.step < mat.rows ∧
    (address - mat.data) % mat.step < mat.width

instance (mat : Mat) (address : Int) : Decidable (InRows mat address) :=
  inferInstanceAs (Decidable (_ ∧ _))

section
variable (memory : Memory) (mat : Mat)

def byteAt (address : Int) : Option UInt8 :=
  if InRows mat address then some (memory address.toNat) else none

def ucharAt (index : Int) : Option Nat := (byteAt memory mat (mat.data + index)).map UInt8.toNat

def uint16At (index : Int) : Option Nat := do
  let low ← byteAt memory mat (mat.data + 2 * index)
  let high ← byteAt memory mat (mat.data + 2 * index + 1)
  some (low.toNat + 256 * high.toNat)

def int16At (index : Int) : Option Nat :=
  (uint16At memory mat index).map fun v => if v < 2 ^ 15 then v else v + (2 ^ 32 - 2 ^ 16)

end

/-- The loops of all cases but one: `cvIndex` goes through a row, `cvLineStart` from row to row. -/
def convertLines {β : Type} (rows cols : Nat) (step channels : Int) (pixelAt : Int → Option β)
    (image : Nat × Nat → β) : Option (Nat × Nat → β) :=
  let lines := (List.range rows).foldlM (fun (p : Int × (Nat × Nat → β)) y =>
    let line := (List.range cols).foldlM (fun (q : Int × (Nat × Nat → β)) x =>
      (pixelAt q.1).map fun v => (int (q.1 + channels), Function.update q.2 (y, x) v)) p
    line.map fun q => (int (p.1 + step), q.2)) ((0 : Int), image)
  lines.map Prod.snd

/-- `memcpy` of each row, with a pointer that goes from row to row. -/
def copyLines (rows cols : Nat) (step : Nat) (charAt : Int → Option UInt8)
    (image : Nat × Nat → UInt8) : Option (Nat × Nat → UInt8) :=
  let lines := (List.range rows).foldlM (fun (p : Int × (Nat × Nat → UInt8)) y =>
    let line := (List.range cols).foldlM (fun (image : Nat × Nat → UInt8) (x : Nat) =>
      (charAt (p.1 + x)).map fun v => Function.update image (y, x) v) p.2
    line.map fun image => (p.1 + step, image)) ((0 : Int), image)
  lines.map Prod.snd

/-- OpenCV has blue first. -/
def bgrAt (channelAt : Int → Option Nat) (cvIndex : Int) : Option QRgb := do
  let blue ← channelAt (int (cvIndex + 0))
  let green ← channelAt (int (cvIndex + 1))
  let red ← channelAt (int (cvIndex + 2))
  some (qRgb red green blue)

def greyAt (channelAt : Int → Option Nat) (cvIndex : Int) : Option UInt8 :=
  (channelAt cvIndex).map fun v => UInt8.ofNat (v >>> 8)

section
variable (memory : Memory) (mat : Mat)

def convert8UC1 : Option QImage :=
  (copyLines mat.rows mat.cols mat.step (fun offset => byteAt memory mat (mat.data + offset))
    fun _ => 0).map (QImage.format_Indexed8 mat.cols mat.rows)

def convert8UC3 : Option QImage :=
  (convertLines mat.rows mat.cols mat.step 3 (bgrAt (ucharAt memory mat)) fun _ => ⟨0, 0, 0⟩).map
    (QImage.format_RGB32 mat.cols mat.rows)

def convert16UC1 : Option QImage :=
  (convertLines mat.rows mat.cols (int (mat.step / 2 : Nat)) 1 (greyAt (uint16At memory mat))
    fun _ => 0).map (QImage.format_Indexed8 mat.cols mat.rows)

def convert16UC3 : Option QImage :=
  (convertLines mat.rows mat.cols (int (mat.step / 2 : Nat)) 3 (bgrAt (uint16At memory mat))
    fun _ => ⟨0, 0, 0⟩).map (QImage.format_RGB32 mat.cols mat.rows)

def convert16SC3 : Option QImage :=
  (convertLines mat.rows mat.cols (int (mat.step / 2 : Nat)) 3 (bgrAt (int16At memory mat))
    fun _ => ⟨0, 0, 0⟩).map (QImage.format_RGB32 mat.cols mat.rows)

/-- There is no `break`, so that the next case replaces the image. -/
def convert16S : Option QImage :=
  (convert16UC1 memory mat).bind fun _ => convert16SC3 memory mat

/-- Without the types of floats; the others throw. -/
def cvMatToQImage : Option QImage :=
  let qimg := match mat.type with
    | 0 => convert8UC1 memory mat
    | 16 => convert8UC3 memory mat
    | 2 => convert16UC1 memory mat
    | 18 => convert16UC3 memory mat
    | 3 => convert16S memory mat
    | 19 => convert16SC3 memory mat
    | _ => none
  if mat.type / 8 + 1 = 1 then
    qimg.map (QImage.setColorTable fun i => qRgb i.toNat i.toNat i.toNat)
  else qimg

end

theorem int_add (a b : Int) : int (int a + b) = int (a + b) := Int.bmod_add_bmod

theorem int_mul (y step k : Int) : int (y * int step + k) = int (y * step + k) := by
  rw [← int_add (y * int step), ← int_add (y * step), mul_comm y, mul_comm y]
  exact congrArg (fun n => int (n + k)) Int.bmod_mul_bmod

theorem int_iterate (a k : Int) (n : Nat) :
    (fun c => int (c + k))^[n] (int a) = int (a + n * k) := by
  induction n with
  | zero => simp
  | succ n ih =>
    rw [Function.iterate_succ_apply', ih, int_add]
    congr 1
    push_cast
    ring

theorem mem_pixels {rows cols : Nat} {p : Nat × Nat} :
    p ∈ List.range rows ×ˢ List.range cols ↔ p.1 < rows ∧ p.2 < cols := by
  rw [List.mem_product, List.mem_range, List.mem_range]

/-- Loops that write each pixel once. -/
theorem foldlM_pixels {β : Type} {rows cols : Nat} {pixelAt : Nat → Nat → Option β}
    {image image' : Nat × Nat → β} :
    (List.range rows).foldlM (fun image y => (List.range cols).foldlM (fun image x =>
      (pixelAt y x).map fun v => Function.update image (y, x) v) image) image = some image' ↔
      (∀ y < rows, ∀ x < cols, pixelAt y x = some (image' (y, x))) ∧
        ∀ p, ¬ (p.1 < rows ∧ p.2 < cols) → image' p = image p := by
  have hd : ((List.range rows ×ˢ List.range cols).map id).Nodup := by
    rw [List.map_id]
    exact List.nodup_range.product List.nodup_range
  rw [foldlM_product]
  refine (foldlM_update_iff (v := fun p _ => pixelAt p.1 p.2) hd).trans ?_
  rw [List.map_id]
  simp only [mem_pixels, id]
  refine and_congr_left fun _ => ?_
  exact ⟨fun h y hy x hx => h (y, x) ⟨hy, hx⟩, fun h p hp => h p.1 hp.1 p.2 hp.2⟩

/-- The index of a pixel in the loops. -/
theorem convertLines_iff {β : Type} {rows cols : Nat} {step channels : Int}
    {pixelAt : Int → Option β} {image image' : Nat × Nat → β} :
    convertLines rows cols step channels pixelAt image = some image' ↔
      (∀ y < rows, ∀ x < cols, pixelAt (int (y * step + x * channels)) = some (image' (y, x))) ∧
        ∀ p, ¬ (p.1 < rows ∧ p.2 < cols) → image' p = image p := by
  have hline : ∀ (p : Int × (Nat × Nat → β)) (y : Nat),
      (List.range cols).foldlM (fun (q : Int × (Nat × Nat → β)) x =>
        (pixelAt q.1).map fun v => (int (q.1 + channels), Function.update q.2 (y, x) v)) p =
      ((List.range cols).foldlM (fun image x =>
        (pixelAt ((fun c => int (c + channels))^[x] p.1)).map fun v =>
          Function.update image (y, x) v) p.2).map fun image =>
            ((fun c => int (c + channels))^[cols] p.1, image) := by
    rintro ⟨c, image⟩ y
    refine Eq.trans ?_ (foldlM_counter (fun c => int (c + channels)) (fun c x image =>
      (pixelAt c).map fun v => Function.update image (y, x) v) cols c image)
    simp only [Option.map_map]
    rfl
  have hlines := foldlM_counter (fun c => int (c + step)) (fun c y image =>
    (List.range cols).foldlM (fun image x =>
      (pixelAt ((fun c => int (c + channels))^[x] c)).map fun v =>
        Function.update image (y, x) v) image) rows 0 image
  unfold convertLines
  simp only [hline, Option.map_map]
  have hindex : ∀ y x : Nat, (fun c => int (c + channels))^[x] ((fun c => int (c + step))^[y] 0) =
      int (y * step + x * channels) := by
    intro y x
    have hzero : (fun c => int (c + step))^[y] 0 = int (0 + y * step) := int_iterate 0 step y
    rw [hzero, zero_add, int_iterate]
  simp only [hindex] at hlines
  rw [← foldlM_pixels]
  refine iff_of_eq (congrArg (· = some image') ((congrArg (Option.map Prod.snd) hlines).trans ?_))
  rw [Option.map_map]
  exact Option.map_id'

theorem convertLines_isSome {β : Type} {rows cols : Nat} {step channels : Int}
    {pixelAt : Int → Option β} {image : Nat × Nat → β} :
    (∃ image', convertLines rows cols step channels pixelAt image = some image') ↔
      ∀ y < rows, ∀ x < cols, (pixelAt (int (y * step + x * channels))).isSome := by
  simp only [convertLines_iff]
  constructor
  · rintro ⟨image', hread, -⟩ y hy x hx
    rw [hread y hy x hx]
    rfl
  · intro h
    refine ⟨fun p => if p.1 < rows ∧ p.2 < cols then
      (pixelAt (int (p.1 * step + p.2 * channels))).getD (image p) else image p, ?_, ?_⟩
    · intro y hy x hx
      obtain ⟨v, hv⟩ := Option.isSome_iff_exists.mp (h y hy x hx)
      dsimp only
      rw [if_pos ⟨hy, hx⟩, hv]
      rfl
    · intro p hp
      exact if_neg hp

theorem copyLines_iff {rows cols step : Nat} {charAt : Int → Option UInt8}
    {image image' : Nat × Nat → UInt8} :
    copyLines rows cols step charAt image = some image' ↔
      (∀ y < rows, ∀ x < cols, charAt (y * step + x : Nat) = some (image' (y, x))) ∧
        ∀ p, ¬ (p.1 < rows ∧ p.2 < cols) → image' p = image p := by
  have hlines := foldlM_counter (fun c : Int => c + step) (fun c y image =>
    (List.range cols).foldlM (fun (image : Nat × Nat → UInt8) (x : Nat) =>
      (charAt (c + x)).map fun v => Function.update image (y, x) v) image) rows 0 image
  have hindex : ∀ y : Nat, (fun c : Int => c + step)^[y] 0 = (y * step : Nat) := by
    intro y
    induction y with
    | zero => simp
    | succ y ih =>
      rw [Function.iterate_succ_apply', ih]
      push_cast
      ring
  simp only [hindex, ← Nat.cast_add] at hlines
  rw [← foldlM_pixels]
  refine iff_of_eq (congrArg (· = some image') ((congrArg (Option.map Prod.snd) hlines).trans ?_))
  rw [Option.map_map]
  exact Option.map_id'

section
variable {memory : Memory} {mat : Mat}

theorem inRows {y k : Nat} (hy : y < mat.rows) (hk : k < mat.width) (hstep : mat.width ≤ mat.step) :
    InRows mat (mat.data + (y * mat.step + k : Nat)) := by
  have hpos : 0 < mat.step := by omega
  have hdiv : (y * mat.step + k) / mat.step = y := by
    rw [Nat.add_comm, Nat.add_mul_div_right _ _ hpos, Nat.div_eq_of_lt (by omega), Nat.zero_add]
  have hmod : (y * mat.step + k) % mat.step = k := by
    rw [Nat.add_comm, Nat.add_mul_mod_self_right, Nat.mod_eq_of_lt (by omega)]
  refine ⟨by omega, ?_, ?_⟩
  · rw [add_sub_cancel_left, ← Int.natCast_ediv, hdiv]
    omega
  · rw [add_sub_cancel_left, ← Int.natCast_emod, hmod]
    omega

/-- Behind a row there is nothing of it, and behind the last row there is nothing. -/
theorem not_inRows {y k : Nat} (hk : mat.width ≤ k) (hstep : k < mat.step ∨ mat.rows ≤ y + 1) :
    ¬ InRows mat (mat.data + (y * mat.step + k : Nat)) := by
  rintro ⟨-, hrow, hcol⟩
  rw [add_sub_cancel_left, ← Int.natCast_ediv] at hrow
  rw [add_sub_cancel_left, ← Int.natCast_emod, Nat.mul_comm, Nat.mul_add_mod] at hcol
  by_cases hlt : k < mat.step
  · rw [Nat.mod_eq_of_lt hlt] at hcol
    omega
  · have hlast := hstep.resolve_left hlt
    have hle := Nat.mod_le k mat.step
    rcases Nat.eq_zero_or_pos mat.step with hzero | hpos
    · rw [hzero, Nat.mod_zero] at hcol
      omega
    · rw [Nat.add_comm, Nat.add_mul_div_right _ _ hpos] at hrow
      have := (Nat.one_le_div_iff hpos).mpr (not_lt.mp hlt)
      omega

def Reads (mat : Mat) (size : Nat) (index : Int) : Prop :=
  ∀ k < size, InRows mat (mat.data + size * index + k)

theorem ucharAt_isSome (index : Int) : (ucharAt memory mat index).isSome ↔ Reads mat 1 index := by
  unfold ucharAt byteAt Reads
  constructor
  · intro h k hk
    obtain rfl : k = 0 := by omega
    by_contra hnot
    rw [if_neg (by simpa using hnot)] at h
    cases h
  · intro h
    have hzero := h 0 (by decide)
    rw [if_pos (by simpa using hzero)]
    rfl

theorem uint16At_isSome (index : Int) :
    (uint16At memory mat index).isSome ↔ Reads mat 2 index := by
  unfold uint16At byteAt Reads
  constructor
  · intro h k hk
    by_cases hlow : InRows mat (mat.data + 2 * index)
    · by_cases hhigh : InRows mat (mat.data + 2 * index + 1)
      · obtain rfl | rfl : k = 0 ∨ k = 1 := by omega
        · simpa using hlow
        · exact hhigh
      · rw [if_pos hlow, if_neg hhigh] at h
        cases h
    · rw [if_neg hlow] at h
      cases h
  · intro h
    have hlow : InRows mat (mat.data + 2 * index) := by simpa using h 0 (by decide)
    have hhigh : InRows mat (mat.data + 2 * index + 1) := h 1 (by decide)
    rw [if_pos hlow, if_pos hhigh]
    rfl

theorem int16At_isSome (index : Int) :
    (int16At memory mat index).isSome ↔ Reads mat 2 index := by
  unfold int16At
  rw [Option.isSome_map, uint16At_isSome]

def Fits (mat : Mat) (size samples : Nat) : Prop :=
  (mat.rows - 1) * (mat.step / size) + samples ≤ 2 ^ 31

theorem int_of_lt {n : Nat} (h : n < 2 ^ 31) : int n = n := by
  unfold int
  exact Int.bmod_eq_of_le (by omega) (by omega)

theorem int_of_le {n : Nat} (h : 2 ^ 31 ≤ n) (h' : n < 2 ^ 32) : int n < 0 := by
  unfold int
  rw [Int.bmod_def, Int.emod_eq_of_lt (by omega) (by omega), if_neg (by omega)]
  omega

/-- Rows that begin at a sample are read where they are, as long as the index fits. -/
theorem reads_of_fits {size samples : Nat} (hwidth : mat.width = size * samples)
    (hfits : Fits mat size samples) (hrow : mat.rows = 1 ∨ size ∣ mat.step) {y j : Nat}
    (hy : y < mat.rows) (hj : j < samples) :
    int (y * (mat.step / size : Nat) + j) = (y * (mat.step / size) + j : Nat) ∧
      ∀ k < size, (mat.data + size * int (y * (mat.step / size : Nat) + j) + k : Int) =
        mat.data + (y * mat.step + (size * j + k) : Nat) ∧ size * j + k < mat.width := by
  have hle : y * (mat.step / size) ≤ (mat.rows - 1) * (mat.step / size) :=
    Nat.mul_le_mul_right _ (by omega)
  unfold Fits at hfits
  have hint : int (y * (mat.step / size : Nat) + j) = (y * (mat.step / size) + j : Nat) := by
    have hlt : y * (mat.step / size) + j < 2 ^ 31 := by omega
    have := int_of_lt hlt
    push_cast at this ⊢
    exact this
  refine ⟨hint, fun k hk => ⟨?_, ?_⟩⟩
  · rw [hint]
    have hline : size * (y * (mat.step / size)) = y * mat.step := by
      rcases hrow with hone | hdvd
      · obtain rfl : y = 0 := by omega
        simp
      · rw [Nat.mul_left_comm, Nat.mul_div_cancel' hdvd]
    have hcast : (size : Int) * (y * (mat.step / size) + j : Nat) =
        (y * mat.step + size * j : Nat) := by
      rw [← hline]
      push_cast
      ring
    rw [hcast]
    push_cast
    ring
  · rw [hwidth]
    calc size * j + k < size * j + size := by omega
      _ = size * (j + 1) := by ring
      _ ≤ size * samples := Nat.mul_le_mul_left _ hj

theorem Reads.nonneg {size : Nat} {index : Int} (h : Reads mat size index) (hsize : 0 < size) :
    0 ≤ index := by
  have hle := (h 0 hsize).1
  by_contra hneg
  have := Int.mul_neg_of_pos_of_neg (show (0 : Int) < size by omega) (not_le.mp hneg)
  omega

/-- An index that does not fit is negative in one of the rows. -/
theorem exists_of_not_fits {size samples : Nat} (hsamples : 0 < samples)
    (hle : samples ≤ mat.step / size) (hstep : mat.step / size < 2 ^ 31) (hrows : 0 < mat.rows)
    (hfits : ¬ Fits mat size samples) :
    ∃ y < mat.rows, ∃ j < samples, int (y * (mat.step / size : Nat) + j) < 0 := by
  unfold Fits at hfits
  obtain ⟨step, hs⟩ : ∃ step, mat.step / size = step := ⟨_, rfl⟩
  rw [hs] at hle hstep hfits ⊢
  by_cases hlast : (mat.rows - 1) * step < 2 ^ 31
  · refine ⟨mat.rows - 1, by omega, 2 ^ 31 - (mat.rows - 1) * step, by omega, ?_⟩
    have hneg : int (2 ^ 31 : Nat) < 0 := int_of_le (by omega) (by omega)
    have hindex : ((mat.rows - 1 : Nat) : Int) * step + (2 ^ 31 - (mat.rows - 1) * step : Nat) =
        (2 ^ 31 : Nat) := by
      rw [← Nat.cast_mul, ← Nat.cast_add]
      congr 1
      omega
    rw [hindex]
    exact hneg
  · have hpos : 0 < step := by
      rcases Nat.eq_zero_or_pos step with rfl | hpos
      · omega
      · exact hpos
    -- the first row that begins behind the largest int
    have hlo := Nat.div_mul_le_self (2 ^ 31 + step - 1) step
    have hhi := Nat.lt_div_mul_add hpos (a := 2 ^ 31 + step - 1)
    obtain ⟨y, hy⟩ : ∃ y, (2 ^ 31 + step - 1) / step = y := ⟨_, rfl⟩
    rw [hy] at hlo hhi
    have hrow : y ≤ mat.rows - 1 := by
      rw [← hy]
      refine Nat.le_of_lt_succ ((Nat.div_lt_iff_lt_mul hpos).mpr ?_)
      rw [Nat.succ_mul]
      omega
    refine ⟨y, by omega, 0, hsamples, ?_⟩
    have hneg := int_of_le (n := y * step) (by omega) (by omega)
    push_cast at hneg ⊢
    rw [add_zero]
    exact hneg

theorem fits_of_reads {size samples : Nat} (hsize : size = 1 ∨ size = 2)
    (hwidth : mat.width = size * samples) (hle : mat.width ≤ mat.step) (hstep : mat.step < 2 ^ 31)
    (hrows : 0 < mat.rows) (hsamples : 0 < samples)
    (h : ∀ y < mat.rows, ∀ j < samples, Reads mat size (int (y * (mat.step / size : Nat) + j))) :
    Fits mat size samples ∧ (mat.rows = 1 ∨ size ∣ mat.step) := by
  have hpos : 0 < size := by omega
  have hdiv := Nat.div_le_self mat.step size
  constructor
  · by_contra hfits
    have hsamples' : samples ≤ mat.step / size := by
      rw [Nat.le_div_iff_mul_le hpos, Nat.mul_comm, ← hwidth]
      exact hle
    obtain ⟨y, hy, j, hj, hneg⟩ :=
      exists_of_not_fits hsamples hsamples' (by omega) hrows hfits
    have := (h y hy j hj).nonneg hpos
    omega
  · rcases hsize with rfl | rfl
    · exact .inr (one_dvd _)
    · by_contra hnot
      rw [not_or] at hnot
      -- the second row is read from the last byte before it
      have hsecond := h 1 (by omega) 0 hsamples 0 (by decide)
      have hint := int_of_lt (n := mat.step / 2) (by omega)
      have haddress :
          (mat.data : Int) + 2 * int (1 * (mat.step / 2 : Nat) + (0 : Nat)) + (0 : Nat) =
            mat.data + (0 * mat.step + (mat.step - 1) : Nat) := by
        rw [one_mul, Nat.cast_zero, add_zero, add_zero, hint]
        omega
      have hbad : ¬ InRows mat (mat.data + (0 * mat.step + (mat.step - 1) : Nat)) :=
        not_inRows (by omega) (.inl (by omega))
      rw [← haddress] at hbad
      exact hbad (by exact_mod_cast hsecond)

/-- The eight bits of a sample, or its highest eight bits. -/
def sample8 (memory : Memory) (mat : Mat) (y x c : Nat) : UInt8 :=
  memory (mat.data + (y * mat.step + channelSize (mat.type % 8) * (x * (mat.type / 8 + 1) + c)) +
    (channelSize (mat.type % 8) - 1))

/-- The colours a pixel has to have; a grey value is in all three. -/
def shown (memory : Memory) (mat : Mat) (y x : Nat) : QRgb :=
  if mat.type / 8 + 1 = 1 then
    ⟨sample8 memory mat y x 0, sample8 memory mat y x 0, sample8 memory mat y x 0⟩
  else ⟨sample8 memory mat y x 2, sample8 memory mat y x 1, sample8 memory mat y x 0⟩

/-- Only bytes of the rows are read, and the image shows all pixels. -/
def Faithful (memory : Memory) (mat : Mat) : Prop :=
  ∃ qimg, cvMatToQImage memory mat = some qimg ∧ qimg.width = mat.cols ∧
    qimg.height = mat.rows ∧
    ∀ y < mat.rows, ∀ x < mat.cols, qimg.pixel y x = shown memory mat y x

/-- The low byte of each sample is the same as the high one. -/
def BytesSame (memory : Memory) (mat : Mat) : Prop :=
  ∀ y < mat.rows, ∀ x < mat.cols, ∀ c < 3,
    memory (mat.data + (y * mat.step + 2 * (x * 3 + c))) =
      memory (mat.data + (y * mat.step + 2 * (x * 3 + c)) + 1)

def FaithfulWhen (memory : Memory) (mat : Mat) : Prop :=
  if mat.rows = 0 ∨ mat.cols = 0 then mat.rows = 0 ∧ mat.cols = 0
  else match mat.type with
    | 0 => True
    | 16 => Fits mat 1 (mat.cols * 3)
    | 2 => Fits mat 2 mat.cols ∧ (mat.rows = 1 ∨ 2 ∣ mat.step)
    | 18 | 19 => Fits mat 2 (mat.cols * 3) ∧ (mat.rows = 1 ∨ 2 ∣ mat.step) ∧ BytesSame memory mat
    | _ => False

theorem bgrAt_isSome {channelAt : Int → Option Nat} {size : Nat}
    (hread : ∀ index, (channelAt index).isSome ↔ Reads mat size index) (n : Int) :
    (bgrAt channelAt (int n)).isSome ↔ ∀ c < 3, Reads mat size (int (n + (c : Nat))) := by
  unfold bgrAt
  rw [int_add, int_add, int_add]
  constructor
  · intro h c hc
    rw [← hread]
    obtain ⟨rgb, hrgb⟩ := Option.isSome_iff_exists.mp h
    obtain ⟨blue, hblue, hrest⟩ := Option.bind_eq_some_iff.mp hrgb
    obtain ⟨green, hgreen, hrest⟩ := Option.bind_eq_some_iff.mp hrest
    obtain ⟨red, hred, -⟩ := Option.bind_eq_some_iff.mp hrest
    obtain rfl | rfl | rfl : c = 0 ∨ c = 1 ∨ c = 2 := by omega
    · exact Option.isSome_iff_exists.mpr ⟨blue, hblue⟩
    · exact Option.isSome_iff_exists.mpr ⟨green, hgreen⟩
    · exact Option.isSome_iff_exists.mpr ⟨red, hred⟩
  · intro h
    obtain ⟨blue, hblue⟩ := Option.isSome_iff_exists.mp ((hread _).mpr (h 0 (by decide)))
    obtain ⟨green, hgreen⟩ := Option.isSome_iff_exists.mp ((hread _).mpr (h 1 (by decide)))
    obtain ⟨red, hred⟩ := Option.isSome_iff_exists.mp ((hread _).mpr (h 2 (by decide)))
    have hblue' : channelAt (int (n + 0)) = some blue := hblue
    have hgreen' : channelAt (int (n + 1)) = some green := hgreen
    have hred' : channelAt (int (n + 2)) = some red := hred
    rw [hblue', hgreen', hred']
    rfl

/-- The loops for three channels come to their end when all samples can be read. -/
theorem convertLines_bgr_isSome {channelAt : Int → Option Nat} {size : Nat} {step : Int}
    (hread : ∀ index, (channelAt index).isSome ↔ Reads mat size index)
    (hstep : ∀ y k : Int, int (y * step + k) = int (y * (mat.step / size : Nat) + k))
    {image : Nat × Nat → QRgb} :
    (∃ image', convertLines mat.rows mat.cols step 3 (bgrAt channelAt) image = some image') ↔
      ∀ y < mat.rows, ∀ j < mat.cols * 3,
        Reads mat size (int (y * (mat.step / size : Nat) + j)) := by
  rw [convertLines_isSome]
  simp only [bgrAt_isSome hread]
  constructor
  · intro h y hy j hj
    have hc := h y hy (j / 3) (by omega) (j % 3) (by omega)
    have hindex : (j / 3 : Nat) * (3 : Int) + (j % 3 : Nat) = j := by omega
    rw [add_assoc, hindex, hstep] at hc
    exact hc
  · intro h y hy x hx c hc
    have hj := h y hy (x * 3 + c) (by omega)
    rw [add_assoc, hstep]
    push_cast at hj ⊢
    exact hj

/-- What is in the image then, if the channels are the bytes at these places. -/
theorem convertLines_bgr {channelAt : Int → Option Nat} {size : Nat} {step : Int}
    (hvalue : ∀ index v, channelAt index = some v →
      UInt8.ofNat v = memory (mat.data + size * index).toNat)
    (hstep : ∀ y k : Int, int (y * step + k) = int (y * (mat.step / size : Nat) + k))
    (hsize : 0 < size) (hwidth : mat.width = size * (mat.cols * 3))
    (hfits : Fits mat size (mat.cols * 3)) (hrow : mat.rows = 1 ∨ size ∣ mat.step)
    {image image' : Nat × Nat → QRgb}
    (h : convertLines mat.rows mat.cols step 3 (bgrAt channelAt) image = some image')
    {y x : Nat} (hy : y < mat.rows) (hx : x < mat.cols) :
    image' (y, x) = ⟨memory (mat.data + (y * mat.step + size * (x * 3 + 2))),
      memory (mat.data + (y * mat.step + size * (x * 3 + 1))),
      memory (mat.data + (y * mat.step + size * (x * 3 + 0)))⟩ := by
  have hpixel := (convertLines_iff.mp h).1 y hy x hx
  obtain ⟨blue, hblue, hrest⟩ := Option.bind_eq_some_iff.mp hpixel
  obtain ⟨green, hgreen, hrest⟩ := Option.bind_eq_some_iff.mp hrest
  obtain ⟨red, hred, hrgb⟩ := Option.bind_eq_some_iff.mp hrest
  have hbyte : ∀ (c : Nat) v, c < 3 → channelAt (int (int (y * step + x * 3) + c)) = some v →
      UInt8.ofNat v = memory (mat.data + (y * mat.step + size * (x * 3 + c))) := by
    intro c v hc hv
    have haddress := ((reads_of_fits hwidth hfits hrow hy (j := x * 3 + c) (by omega)).2 0 hsize).1
    have hindex : int (int (y * step + x * 3) + c) =
        int (y * (mat.step / size : Nat) + (x * 3 + c : Nat)) := by
      rw [int_add, add_assoc, hstep]
      push_cast
      rfl
    rw [Nat.cast_zero, add_zero, add_zero, ← hindex] at haddress
    rw [hvalue _ _ hv, haddress, ← Nat.cast_add, Int.toNat_natCast]
  rw [← Option.some.inj hrgb]
  unfold qRgb
  rw [hbyte 0 blue (by decide) hblue, hbyte 1 green (by decide) hgreen,
    hbyte 2 red (by decide) hred]

theorem ofNat_short (low high : UInt8) : UInt8.ofNat (low.toNat + 256 * high.toNat) = low ∧
    UInt8.ofNat ((low.toNat + 256 * high.toNat) >>> 8) = high ∧
    UInt8.ofNat (low.toNat + 256 * high.toNat + (2 ^ 32 - 2 ^ 16)) = low := by
  have hlow := low.toNat_lt
  have hhigh := high.toNat_lt
  refine ⟨?_, ?_, ?_⟩
  all_goals
    apply UInt8.toNat_inj.mp
    rw [UInt8.toNat_ofNat']
  · omega
  · rw [Nat.shiftRight_eq_div_pow]
    omega
  · omega

theorem uchar_value {index : Int} {v : Nat} (h : ucharAt memory mat index = some v) :
    UInt8.ofNat v = memory (mat.data + (1 : Nat) * index).toNat := by
  obtain ⟨byte, hbyte, rfl⟩ := Option.map_eq_some_iff.mp h
  unfold byteAt at hbyte
  split at hbyte
  · cases hbyte
    rw [UInt8.ofNat_toNat, Nat.cast_one, one_mul]
  · cases hbyte

/-- The two bytes of a short. -/
theorem uint16_bytes {index : Int} {v : Nat} (h : uint16At memory mat index = some v) :
    v = (memory (mat.data + 2 * index).toNat).toNat +
      256 * (memory (mat.data + 2 * index + 1).toNat).toNat := by
  obtain ⟨low, hlow, hrest⟩ := Option.bind_eq_some_iff.mp h
  obtain ⟨high, hhigh, hv⟩ := Option.bind_eq_some_iff.mp hrest
  unfold byteAt at hlow hhigh
  split at hlow
  · split at hhigh
    · cases hlow
      cases hhigh
      exact (Option.some.inj hv).symm
    · cases hhigh
  · cases hlow

theorem uint16_value {index : Int} {v : Nat} (h : uint16At memory mat index = some v) :
    UInt8.ofNat v = memory (mat.data + (2 : Nat) * index).toNat := by
  rw [uint16_bytes h]
  exact (ofNat_short _ _).1

theorem int16_value {index : Int} {v : Nat} (h : int16At memory mat index = some v) :
    UInt8.ofNat v = memory (mat.data + (2 : Nat) * index).toNat := by
  obtain ⟨short, hshort, rfl⟩ := Option.map_eq_some_iff.mp h
  rw [uint16_bytes hshort]
  split
  · exact (ofNat_short _ _).1
  · exact (ofNat_short _ _).2.2

/-- The types with three channels, where the lowest bytes are shown. -/
theorem faithful_bgr {channelAt : Int → Option Nat} {size : Nat} {step : Int}
    (hread : ∀ index, (channelAt index).isSome ↔ Reads mat size index)
    (hvalue : ∀ index v, channelAt index = some v →
      UInt8.ofNat v = memory (mat.data + size * index).toNat)
    (hstep : ∀ y k : Int, int (y * step + k) = int (y * (mat.step / size : Nat) + k))
    (hsize : size = 1 ∨ size = 2) (hwidth : mat.width = size * (mat.cols * 3))
    (hle : mat.width ≤ mat.step) (hrows : mat.rows ≠ 0) (hcols : mat.cols ≠ 0)
    (hconvert : cvMatToQImage memory mat =
      (convertLines mat.rows mat.cols step 3 (bgrAt channelAt) fun _ => ⟨0, 0, 0⟩).map
        (QImage.format_RGB32 mat.cols mat.rows)) :
    (Fits mat size (mat.cols * 3) ∧ (mat.rows = 1 ∨ size ∣ mat.step) →
      (Faithful memory mat ↔ ∀ y < mat.rows, ∀ x < mat.cols,
        (⟨memory (mat.data + (y * mat.step + size * (x * 3 + 2))),
          memory (mat.data + (y * mat.step + size * (x * 3 + 1))),
          memory (mat.data + (y * mat.step + size * (x * 3 + 0)))⟩ : QRgb) = shown memory mat y x)) ∧
    (mat.step < 2 ^ 31 → Faithful memory mat →
      Fits mat size (mat.cols * 3) ∧ (mat.rows = 1 ∨ size ∣ mat.step)) := by
  have hend : (∃ image, convertLines mat.rows mat.cols step 3 (bgrAt channelAt)
      (fun _ => ⟨0, 0, 0⟩) = some image) ↔ _ := convertLines_bgr_isSome hread hstep
  have hformat : ∀ image, QImage.format_RGB32 mat.cols mat.rows image =
      .rgb32 mat.cols mat.rows image := fun image => if_neg (by omega)
  constructor
  · rintro ⟨hfits, hrow⟩
    obtain ⟨image, himage⟩ := hend.mpr fun y hy j hj k hk => by
      obtain ⟨haddress, hk⟩ := (reads_of_fits hwidth hfits hrow hy hj).2 k hk
      rw [haddress]
      exact inRows hy hk hle
    have hpixel := fun y x => convertLines_bgr hvalue hstep (by omega) hwidth hfits hrow himage
      (y := y) (x := x)
    rw [himage, Option.map_some, hformat] at hconvert
    constructor
    · rintro ⟨qimg, hqimg, -, -, hshown⟩ y hy x hx
      rw [hconvert] at hqimg
      cases hqimg
      rw [← hpixel y x hy hx]
      exact hshown y hy x hx
    · intro h
      refine ⟨_, hconvert, rfl, rfl, fun y hy x hx => ?_⟩
      rw [← h y hy x hx, ← hpixel y x hy hx]
      rfl
  · rintro hlt ⟨qimg, hqimg, -⟩
    rw [hconvert, Option.map_eq_some_iff] at hqimg
    obtain ⟨image, himage, -⟩ := hqimg
    exact fits_of_reads hsize hwidth hle hlt (by omega) (by omega) (hend.mp ⟨image, himage⟩)

theorem width_eq {type : Nat} (htype : mat.type = type) : mat.width = mat.cols * elemSize type := by
  unfold Mat.width Mat.pixelSize
  rw [htype]

theorem int_step (y k : Int) :
    int (y * int (mat.step / 2 : Nat) + k) = int (y * (mat.step / 2 : Nat) + k) := int_mul _ _ _

theorem convert16UC1_isSome : (∃ qimg, convert16UC1 memory mat = some qimg) ↔
    ∀ y < mat.rows, ∀ x < mat.cols, Reads mat 2 (int (y * (mat.step / 2 : Nat) + x)) := by
  have hend : (∃ image, convertLines mat.rows mat.cols (int (mat.step / 2 : Nat)) 1
      (greyAt (uint16At memory mat)) (fun _ => 0) = some image) ↔ _ := convertLines_isSome
  simp only [greyAt, Option.isSome_map, uint16At_isSome, int_step, mul_one] at hend
  rw [← hend]
  unfold convert16UC1
  simp only [Option.map_eq_some_iff]
  constructor
  · rintro ⟨_, image, himage, -⟩
    exact ⟨image, himage⟩
  · rintro ⟨image, himage⟩
    exact ⟨_, image, himage, rfl⟩

theorem faithful_8UC1 (htype : mat.type = 0) (hle : mat.width ≤ mat.step) (hrows : mat.rows ≠ 0)
    (hcols : mat.cols ≠ 0) : Faithful memory mat := by
  have hwidth : mat.width = mat.cols := by
    rw [width_eq htype]
    exact Nat.mul_one _
  have hcopy : copyLines mat.rows mat.cols mat.step
      (fun offset => byteAt memory mat (mat.data + offset)) (fun _ => 0) =
      some fun p => if p.1 < mat.rows ∧ p.2 < mat.cols then
        memory (mat.data + (p.1 * mat.step + p.2)) else 0 := by
    refine copyLines_iff.mpr ⟨fun y hy x hx => ?_, fun p hp => if_neg hp⟩
    dsimp only
    unfold byteAt
    rw [if_pos (inRows hy (by omega) hle), if_pos ⟨hy, hx⟩, ← Nat.cast_add, Int.toNat_natCast]
  have hconvert : cvMatToQImage memory mat = ((convert8UC1 memory mat).map
      (QImage.setColorTable fun i => qRgb i.toNat i.toNat i.toNat)) := by
    unfold cvMatToQImage
    rw [htype]
    rfl
  unfold convert8UC1 at hconvert
  rw [hcopy, Option.map_some, Option.map_some] at hconvert
  unfold QImage.format_Indexed8 at hconvert
  rw [if_neg (by omega)] at hconvert
  refine ⟨_, hconvert, rfl, rfl, fun y hy x hx => ?_⟩
  have hscan : (if y < mat.rows ∧ x < mat.cols then
      memory (mat.data + (y * mat.step + x)) else 0) = sample8 memory mat y x 0 := by
    unfold sample8
    rw [if_pos ⟨hy, hx⟩, htype]
    simp [channelSize]
  unfold shown
  rw [htype, if_pos (by decide)]
  change qRgb _ _ _ = _
  dsimp only
  rw [hscan]
  unfold qRgb
  rw [UInt8.ofNat_toNat]

theorem faithful_16UC1 (htype : mat.type = 2) (hle : mat.width ≤ mat.step) (hrows : mat.rows ≠ 0)
    (hcols : mat.cols ≠ 0) :
    (Fits mat 2 mat.cols ∧ (mat.rows = 1 ∨ 2 ∣ mat.step) → Faithful memory mat) ∧
      (mat.step < 2 ^ 31 → Faithful memory mat →
        Fits mat 2 mat.cols ∧ (mat.rows = 1 ∨ 2 ∣ mat.step)) := by
  have hwidth : mat.width = 2 * mat.cols := by
    rw [width_eq htype, Nat.mul_comm]
    rfl
  have hconvert : cvMatToQImage memory mat = ((convert16UC1 memory mat).map
      (QImage.setColorTable fun i => qRgb i.toNat i.toNat i.toNat)) := by
    unfold cvMatToQImage
    rw [htype]
    rfl
  constructor
  · rintro ⟨hfits, hrow⟩
    obtain ⟨qimg, hqimg⟩ := convert16UC1_isSome.mpr fun y hy x hx k hk => by
      obtain ⟨haddress, hk⟩ := (reads_of_fits hwidth hfits hrow hy hx).2 k hk
      rw [haddress]
      exact inRows hy hk hle
    rw [hqimg, Option.map_some] at hconvert
    obtain ⟨image, himage, rfl⟩ := Option.map_eq_some_iff.mp hqimg
    unfold QImage.format_Indexed8 at hconvert
    rw [if_neg (by omega)] at hconvert
    refine ⟨_, hconvert, rfl, rfl, fun y hy x hx => ?_⟩
    obtain ⟨v, hv, hscan⟩ := Option.map_eq_some_iff.mp ((convertLines_iff.mp himage).1 y hy x hx)
    have haddress := ((reads_of_fits hwidth hfits hrow hy hx).2 1 (by decide)).1
    have hsample : image (y, x) = sample8 memory mat y x 0 := by
      rw [← hscan, uint16_bytes hv, (ofNat_short _ _).2.1, mul_one, int_step]
      unfold sample8
      rw [htype]
      have hindex : (mat.data : Int) + 2 * int (y * (mat.step / 2 : Nat) + x) + 1 =
          mat.data + (y * mat.step + (2 * x + 1) : Nat) := by exact_mod_cast haddress
      have hplace : mat.data + (y * mat.step + (2 * x + 1)) =
          mat.data + (y * mat.step + channelSize (2 % 8) * (x * (2 / 8 + 1) + 0)) +
            (channelSize (2 % 8) - 1) := by
        simp [channelSize, Nat.add_assoc]
      rw [hindex, ← Nat.cast_add, Int.toNat_natCast]
      exact congrArg memory hplace
    unfold shown
    rw [htype, if_pos (by decide)]
    change qRgb _ _ _ = _
    rw [hsample]
    unfold qRgb
    rw [UInt8.ofNat_toNat]
  · rintro hlt ⟨qimg, hqimg, -⟩
    rw [hconvert, Option.map_eq_some_iff] at hqimg
    obtain ⟨image, himage, -⟩ := hqimg
    exact fits_of_reads (.inr rfl) hwidth hle hlt (by omega) (by omega)
      (convert16UC1_isSome.mp ⟨image, himage⟩)

/-- Where the short images of one channel run into those of three, the last row is read beyond
its end. -/
theorem not_faithful_16S (htype : mat.type = 3) (hle : mat.width ≤ mat.step)
    (hlt : mat.step < 2 ^ 31) (hrows : mat.rows ≠ 0) (hcols : mat.cols ≠ 0) :
    ¬ Faithful memory mat := by
  have hwidth : mat.width = 2 * mat.cols := by
    rw [width_eq htype, Nat.mul_comm]
    rfl
  have hconvert : cvMatToQImage memory mat = ((convert16S memory mat).map
      (QImage.setColorTable fun i => qRgb i.toNat i.toNat i.toNat)) := by
    unfold cvMatToQImage
    rw [htype]
    rfl
  rintro ⟨qimg, hqimg, -⟩
  rw [hconvert, Option.map_eq_some_iff] at hqimg
  obtain ⟨image, himage, -⟩ := hqimg
  obtain ⟨grey, hgrey, hcolour⟩ := Option.bind_eq_some_iff.mp himage
  obtain ⟨hfits, hrow⟩ := fits_of_reads (.inr rfl) hwidth hle hlt (by omega) (by omega)
    (convert16UC1_isSome.mp ⟨grey, hgrey⟩)
  obtain ⟨scanLine, hscanLine, -⟩ := Option.map_eq_some_iff.mp hcolour
  have hread := (convertLines_bgr_isSome int16At_isSome int_step).mp ⟨scanLine, hscanLine⟩
    (mat.rows - 1) (by omega) mat.cols (by omega)
  have hnonneg := hread.nonneg (by decide)
  unfold Fits at hfits
  have hindex : int ((mat.rows - 1 : Nat) * (mat.step / 2 : Nat) + mat.cols) =
      ((mat.rows - 1) * (mat.step / 2) + mat.cols : Nat) := by
    rw [← Nat.cast_mul, ← Nat.cast_add] at hnonneg ⊢
    refine int_of_lt (lt_of_le_of_ne hfits fun heq => ?_)
    have hneg := int_of_le heq.ge (by omega)
    omega
  have hline : 2 * ((mat.rows - 1) * (mat.step / 2)) = (mat.rows - 1) * mat.step := by
    rcases hrow with hone | hdvd
    · rw [hone]
      simp
    · rw [Nat.mul_left_comm, Nat.mul_div_cancel' hdvd]
  refine @not_inRows mat (mat.rows - 1) mat.width le_rfl (.inr (by omega)) ?_
  have hlast := hread 0 (by decide)
  have haddress : (mat.data + (2 : Nat) * ((mat.rows - 1) * (mat.step / 2) + mat.cols : Nat) +
      (0 : Nat) : Int) = mat.data + ((mat.rows - 1) * mat.step + mat.width : Nat) := by
    rw [hwidth, ← hline]
    push_cast
    ring
  rw [hindex, haddress] at hlast
  exact hlast

def IsNull (qimg : QImage) : Prop := qimg.width = 0 ∧ qimg.height = 0

theorem convertLines_empty {β : Type} (hempty : mat.rows = 0 ∨ mat.cols = 0) (step channels : Int)
    (pixelAt : Int → Option β) (image : Nat × Nat → β) :
    ∃ image', convertLines mat.rows mat.cols step channels pixelAt image = some image' :=
  convertLines_isSome.mpr fun y hy x hx => by omega

theorem isNull_rgb32 (hempty : mat.rows = 0 ∨ mat.cols = 0) (scanLine : Nat × Nat → QRgb) :
    IsNull (QImage.format_RGB32 mat.cols mat.rows scanLine) := by
  unfold QImage.format_RGB32
  rw [if_pos hempty.symm]
  exact ⟨rfl, rfl⟩

theorem isNull_indexed8 (hempty : mat.rows = 0 ∨ mat.cols = 0) (scanLine : Nat × Nat → UInt8) :
    IsNull (QImage.format_Indexed8 mat.cols mat.rows scanLine) := by
  unfold QImage.format_Indexed8
  rw [if_pos hempty.symm]
  exact ⟨rfl, rfl⟩

theorem isNull_setColorTable {qimg : QImage} (h : IsNull qimg) (colorTable : UInt8 → QRgb) :
    IsNull (qimg.setColorTable colorTable) := by
  cases qimg <;> exact h

theorem convertLines_bgr_empty (hempty : mat.rows = 0 ∨ mat.cols = 0) (step : Int)
    (channelAt : Int → Option Nat) : ∃ qimg,
    (convertLines mat.rows mat.cols step 3 (bgrAt channelAt) fun _ => ⟨0, 0, 0⟩).map
      (QImage.format_RGB32 mat.cols mat.rows) = some qimg ∧ IsNull qimg := by
  obtain ⟨image, himage⟩ :=
    convertLines_empty hempty step 3 (bgrAt channelAt) fun _ => (⟨0, 0, 0⟩ : QRgb)
  rw [himage]
  exact ⟨_, rfl, isNull_rgb32 hempty image⟩

theorem convert16UC1_empty (hempty : mat.rows = 0 ∨ mat.cols = 0) :
    ∃ qimg, convert16UC1 memory mat = some qimg ∧ IsNull qimg := by
  obtain ⟨image, himage⟩ := convertLines_empty hempty (int (mat.step / 2 : Nat)) 1
    (greyAt (uint16At memory mat)) fun _ => (0 : UInt8)
  unfold convert16UC1
  rw [himage]
  exact ⟨_, rfl, isNull_indexed8 hempty image⟩

theorem cvMatToQImage_empty (htype : mat.type ∈ [0, 16, 2, 18, 3, 19])
    (hempty : mat.rows = 0 ∨ mat.cols = 0) :
    ∃ qimg, cvMatToQImage memory mat = some qimg ∧ IsNull qimg := by
  have hgrey : ∀ {convert : Option QImage}, (∃ qimg, convert = some qimg ∧ IsNull qimg) →
      ∃ qimg, convert.map (QImage.setColorTable fun i => qRgb i.toNat i.toNat i.toNat) =
        some qimg ∧ IsNull qimg := by
    rintro convert ⟨qimg, rfl, hnull⟩
    exact ⟨_, rfl, isNull_setColorTable hnull _⟩
  have hbgr := fun step channelAt => @convertLines_bgr_empty mat hempty step channelAt
  unfold cvMatToQImage
  simp only [List.mem_cons, List.not_mem_nil, or_false] at htype
  rcases htype with htype | htype | htype | htype | htype | htype <;> rw [htype]
  · have hcopy : copyLines mat.rows mat.cols mat.step
        (fun offset => byteAt memory mat (mat.data + offset)) (fun _ => 0) = some fun _ => 0 :=
      copyLines_iff.mpr ⟨fun y hy x hx => by omega, fun _ _ => rfl⟩
    refine hgrey ⟨_, ?_, isNull_indexed8 hempty fun _ => 0⟩
    unfold convert8UC1
    rw [hcopy]
    rfl
  · exact hbgr _ _
  · exact hgrey (convert16UC1_empty hempty)
  · exact hbgr _ _
  · obtain ⟨grey, hgrey', -⟩ := @convert16UC1_empty memory mat hempty
    obtain ⟨qimg, hqimg, hnull⟩ := hbgr (int (mat.step / 2 : Nat)) (int16At memory mat)
    refine hgrey ⟨qimg, ?_, hnull⟩
    unfold convert16S
    rw [hgrey']
    exact hqimg
  · exact hbgr _ _

theorem faithful_empty (htype : mat.type ∈ [0, 16, 2, 18, 3, 19])
    (hempty : mat.rows = 0 ∨ mat.cols = 0) :
    Faithful memory mat ↔ mat.rows = 0 ∧ mat.cols = 0 := by
  obtain ⟨qimg, hqimg, hwidth, hheight⟩ := @cvMatToQImage_empty memory mat htype hempty
  constructor
  · rintro ⟨qimg', hqimg', hcols, hrows, -⟩
    rw [hqimg] at hqimg'
    cases hqimg'
    exact ⟨hrows.symm.trans hheight, hcols.symm.trans hwidth⟩
  · rintro ⟨hrows, hcols⟩
    refine ⟨qimg, hqimg, hwidth.trans hcols.symm, hheight.trans hrows.symm, fun y hy => ?_⟩
    omega

theorem shown_one (htype : mat.type = 16) (y x : Nat) :
    (⟨memory (mat.data + (y * mat.step + 1 * (x * 3 + 2))),
      memory (mat.data + (y * mat.step + 1 * (x * 3 + 1))),
      memory (mat.data + (y * mat.step + 1 * (x * 3 + 0)))⟩ : QRgb) = shown memory mat y x := by
  unfold shown sample8
  rw [htype, if_neg (by decide)]
  rfl

theorem shown_two (htype : mat.type = 18 ∨ mat.type = 19) :
    (∀ y < mat.rows, ∀ x < mat.cols,
      (⟨memory (mat.data + (y * mat.step + 2 * (x * 3 + 2))),
        memory (mat.data + (y * mat.step + 2 * (x * 3 + 1))),
        memory (mat.data + (y * mat.step + 2 * (x * 3 + 0)))⟩ : QRgb) = shown memory mat y x) ↔
      BytesSame memory mat := by
  have hshown : ∀ y x, shown memory mat y x =
      ⟨memory (mat.data + (y * mat.step + 2 * (x * 3 + 2)) + 1),
        memory (mat.data + (y * mat.step + 2 * (x * 3 + 1)) + 1),
        memory (mat.data + (y * mat.step + 2 * (x * 3 + 0)) + 1)⟩ := by
    intro y x
    unfold shown sample8
    rcases htype with htype | htype
    · rw [htype, if_neg (by decide)]
      rfl
    · rw [htype, if_neg (by decide)]
      rfl
  simp only [hshown, QRgb.mk.injEq]
  unfold BytesSame
  constructor
  · intro h y hy x hx c hc
    obtain ⟨htwo, hone, hzero⟩ := h y hy x hx
    obtain rfl | rfl | rfl : c = 0 ∨ c = 1 ∨ c = 2 := by omega
    · exact hzero
    · exact hone
    · exact htwo
  · exact fun h y hy x hx => ⟨h y hy x hx 2 (by decide), h y hy x hx 1 (by decide),
      h y hy x hx 0 (by decide)⟩

/-- Images with two bytes for each of three channels. -/
theorem faithful_16C3 {channelAt : Int → Option Nat} (htype : mat.type = 18 ∨ mat.type = 19)
    (hread : ∀ index, (channelAt index).isSome ↔ Reads mat 2 index)
    (hvalue : ∀ index v, channelAt index = some v →
      UInt8.ofNat v = memory (mat.data + (2 : Nat) * index).toNat)
    (hle : mat.width ≤ mat.step) (hrows : mat.rows ≠ 0) (hcols : mat.cols ≠ 0)
    (hconvert : cvMatToQImage memory mat = (convertLines mat.rows mat.cols
      (int (mat.step / 2 : Nat)) 3 (bgrAt channelAt) fun _ => ⟨0, 0, 0⟩).map
        (QImage.format_RGB32 mat.cols mat.rows)) :
    (Fits mat 2 (mat.cols * 3) ∧ (mat.rows = 1 ∨ 2 ∣ mat.step) ∧ BytesSame memory mat →
      Faithful memory mat) ∧
    (mat.step < 2 ^ 31 → Faithful memory mat →
      Fits mat 2 (mat.cols * 3) ∧ (mat.rows = 1 ∨ 2 ∣ mat.step) ∧ BytesSame memory mat) := by
  have hwidth : mat.width = 2 * (mat.cols * 3) := by
    have hsize : elemSize mat.type = 6 := by rcases htype with htype | htype <;> rw [htype] <;> rfl
    rw [width_eq rfl, hsize]
    ring
  obtain ⟨hiff, hfits⟩ :=
    faithful_bgr hread hvalue int_step (.inr rfl) hwidth hle hrows hcols hconvert
  constructor
  · rintro ⟨hf, hrow, hsame⟩
    exact (hiff ⟨hf, hrow⟩).mpr ((shown_two htype).mpr hsame)
  · intro hlt h
    obtain ⟨hf, hrow⟩ := hfits hlt h
    exact ⟨hf, hrow, (shown_two htype).mp ((hiff ⟨hf, hrow⟩).mp h)⟩

end

/-- One byte a sample is shown as it is, and so are the high bytes of grey images, while the
indices fit in an int. Three channels of two bytes show the low bytes, and signed grey images are
read as if they had three channels. -/
theorem cvMatToQImage_faithful (memory : Memory) (mat : Mat)
    (htype : mat.type ∈ [0, 16, 2, 18, 3, 19]) (hstep : mat.width ≤ mat.step) :
    (FaithfulWhen memory mat → Faithful memory mat) ∧
      (mat.step < 2 ^ 31 → Faithful memory mat → FaithfulWhen memory mat) := by
  unfold FaithfulWhen
  by_cases hempty : mat.rows = 0 ∨ mat.cols = 0
  · rw [if_pos hempty]
    have hiff := @faithful_empty memory mat htype hempty
    exact ⟨hiff.mpr, fun _ => hiff.mp⟩
  rw [if_neg hempty]
  obtain ⟨hrows, hcols⟩ := not_or.mp hempty
  simp only [List.mem_cons, List.not_mem_nil, or_false] at htype
  rcases htype with htype | htype | htype | htype | htype | htype <;> rw [htype]
  · exact ⟨fun _ => faithful_8UC1 htype hstep hrows hcols, fun _ _ => trivial⟩
  · have hwidth : mat.width = 1 * (mat.cols * 3) := by
      rw [width_eq htype, Nat.one_mul]
      rfl
    have hone : ∀ y k : Int, int (y * mat.step + k) = int (y * (mat.step / 1 : Nat) + k) := by
      intro y k
      rw [Nat.div_one]
    have hconvert : cvMatToQImage memory mat = convert8UC3 memory mat := by
      unfold cvMatToQImage
      rw [htype]
      rfl
    obtain ⟨hiff, hfits⟩ := faithful_bgr ucharAt_isSome (fun _ _ => uchar_value) hone (.inl rfl)
      hwidth hstep hrows hcols hconvert
    exact ⟨fun hf => (hiff ⟨hf, .inr (one_dvd _)⟩).mpr fun y _ x _ => shown_one htype y x,
      fun hlt h => (hfits hlt h).1⟩
  · exact faithful_16UC1 htype hstep hrows hcols
  · have hconvert : cvMatToQImage memory mat = convert16UC3 memory mat := by
      unfold cvMatToQImage
      rw [htype]
      rfl
    exact faithful_16C3 (.inl htype) uint16At_isSome (fun _ _ => uint16_value) hstep hrows hcols
      hconvert
  · exact ⟨False.elim, fun hlt h => not_faithful_16S htype hstep hlt hrows hcols h⟩
  · have hconvert : cvMatToQImage memory mat = convert16SC3 memory mat := by
      unfold cvMatToQImage
      rw [htype]
      rfl
    exact faithful_16C3 (.inr htype) int16At_isSome (fun _ _ => int16_value) hstep hrows hcols
      hconvert

/-- Grey pixels of two bytes, in three rows of two that are padded. -/
theorem cvMatToQImage_faithful_grey : Faithful UInt8.ofNat (.onBuffer 2 3 2 6 0) := by
  refine (cvMatToQImage_faithful UInt8.ofNat (.onBuffer 2 3 2 6 0) (by decide) (by decide)).1 ?_
  unfold FaithfulWhen
  rw [if_neg (by decide)]
  exact ⟨by unfold Fits; decide, .inr (by decide)⟩

/-- One signed grey pixel, which is zero. -/
theorem signed_grey_lost : ¬ ∀ (memory : Memory) (mat : Mat), mat.type ∈ [0, 16, 2, 18, 3, 19] →
    mat.width ≤ mat.step → Faithful memory mat := by
  intro hall
  have hfaithful := hall (fun _ => 0) (.onBuffer 3 1 1 2 0) (by decide) (by decide)
  exact not_faithful_16S (by decide) (by decide) (by decide) (by decide) (by decide) hfaithful

end ImageConverter

end ParleVision.Images
