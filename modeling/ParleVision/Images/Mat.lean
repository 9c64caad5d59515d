import Mathlib.Tactic.Ring
import Mathlib.Tactic.Common

namespace ParleVision.Images

abbrev Memory := Nat → UInt8

def channelSize : Nat → Nat
  | 0 | 1 => 1
  | 2 | 3 => 2
  | 4 | 5 => 4
  | _ => 8

/-- `CV_ELEM_SIZE( type )`: the depth is in the three lowest bits, and above it the number of
channels less one. -/
def elemSize (type : Nat) : Nat := (type / 8 + 1) * channelSize (type % 8)

structure Mat where
  flags : Nat
  rows : Nat
  cols : Nat
  /-- the distance between rows in bytes -/
  step : Nat
  data : Nat
  datastart : Nat
  dataend : Nat
  deriving DecidableEq, Repr

namespace Mat

def type (m : Mat) : Nat := m.flags % 2 ^ 12

def pixelSize (m : Mat) : Nat := elemSize m.type

def width (m : Mat) : Nat := m.cols * m.pixelSize

def size (m : Mat) : Nat := m.rows * m.width

/-- A matrix over a buffer of its own, which ends behind the last pixel. -/
def onBuffer (flags rows cols step data : Nat) : Mat :=
  ⟨flags, rows, cols, step, data, data, data + step * (rows - 1) + cols * elemSize (flags % 2 ^ 12)⟩

def roi (m : Mat) (x y width height : Nat) : Mat :=
  { m with rows := height, cols := width, data := m.data + y * m.step + x * m.pixelSize }

/-- What a cv::Mat that is not empty can look like: a whole buffer, with rows that may be
padded, or a region of such a matrix. Rows and columns are ints. -/
inductive Value : Mat → Prop where
  | onBuffer (flags rows cols step data : Nat) : 0 < rows → rows < 2 ^ 31 → 0 < cols →
      cols < 2 ^ 31 → cols * elemSize (flags % 2 ^ 12) ≤ step →
      Value (onBuffer flags rows cols step data)
  | roi (m : Mat) (x y width height : Nat) : Value m → 0 < width → 0 < height →
      x + width ≤ m.cols → y + height ≤ m.rows → Value (m.roi x y width height)

def pixel (memory : Memory) (m : Mat) (r c : Nat) : List UInt8 :=
  (List.range m.pixelSize).map fun k => memory (m.data + r * m.step + c * m.pixelSize + k)

theorem channelSize_pos (depth : Nat) : 0 < channelSize depth := by
  unfold channelSize
  split
  all_goals decide

theorem pixelSize_pos (m : Mat) : 0 < m.pixelSize :=
  Nat.mul_pos (Nat.succ_pos _) (channelSize_pos _)

/-- A matrix lies in a buffer of some rows and columns, of which it may be a part. -/
theorem Value.inside {m : Mat} (h : m.Value) :
    ∃ R C x y, x + m.cols ≤ C ∧ y + m.rows ≤ R ∧ C * m.pixelSize ≤ m.step ∧
      m.data = m.datastart + y * m.step + x * m.pixelSize ∧
      m.dataend = m.datastart + m.step * (R - 1) + C * m.pixelSize := by
  induction h with
  | onBuffer flags rows cols step data _ _ _ _ hstep =>
    exact ⟨rows, cols, 0, 0, (Nat.zero_add _).le, (Nat.zero_add _).le, hstep, by simp [Mat.onBuffer],
      rfl⟩
  | roi m x y width height _ _ _ hw hh ih =>
    obtain ⟨R, C, x', y', hx, hy, hstep, hdata, hend⟩ := ih
    refine ⟨R, C, x' + x, y' + y, ?_, ?_, hstep, ?_, hend⟩
    · change x' + x + width ≤ C
      omega
    · change y' + y + height ≤ R
      omega
    · change m.data + y * m.step + x * m.pixelSize =
        m.datastart + (y' + y) * m.step + (x' + x) * m.pixelSize
      rw [hdata]
      ring

theorem Value.bounds {m : Mat} (h : m.Value) :
    0 < m.rows ∧ m.rows < 2 ^ 31 ∧ 0 < m.cols ∧ m.cols < 2 ^ 31 := by
  induction h with
  | onBuffer flags rows cols step data hr hr' hc hc' _ => exact ⟨hr, hr', hc, hc'⟩
  | roi m x y width height _ hw hh hx hy ih =>
    obtain ⟨-, hr, -, hc⟩ := ih
    change 0 < height ∧ height < 2 ^ 31 ∧ 0 < width ∧ width < 2 ^ 31
    omega

def Whole (m : Mat) : Prop :=
  m.data = m.datastart ∧ m.dataend = m.data + m.step * (m.rows - 1) + m.width

def Packed (m : Mat) : Prop := m.rows = 1 ∨ m.step = m.width

theorem size_pos {m : Mat} (h : m.Value) : 0 < m.size := by
  obtain ⟨hr, -, hc, -⟩ := h.bounds
  exact Nat.mul_pos hr (Nat.mul_pos hc m.pixelSize_pos)

/-- The buffer has no other bytes than those of the pixels exactly when the matrix is all of
it and its rows are packed. -/
theorem extent_eq_size_iff {m : Mat} (h : m.Value) :
    m.dataend - m.datastart = m.size ↔ m.Whole ∧ m.Packed := by
  obtain ⟨hr, -, hc, -⟩ := h.bounds
  obtain ⟨R, C, x, y, hx, hy, hstep, hdata, hend⟩ := h.inside
  have hpos := m.pixelSize_pos
  have hextent : m.dataend - m.datastart = m.step * (R - 1) + C * m.pixelSize := by
    rw [hend]
    omega
  rw [hextent]
  constructor
  · intro he
    have hrows : m.step * (R - 1) ≥ C * m.pixelSize * (R - 1) := Nat.mul_le_mul_right _ hstep
    have hall : C * m.pixelSize * (R - 1) + C * m.pixelSize = R * (C * m.pixelSize) := by
      obtain ⟨R', rfl⟩ : ∃ R', R = R' + 1 := ⟨R - 1, by omega⟩
      rw [Nat.add_sub_cancel]
      ring
    have hcols : m.width ≤ C * m.pixelSize := Nat.mul_le_mul_right _ (by omega)
    have hle : m.rows * (C * m.pixelSize) ≤ R * (C * m.pixelSize) :=
      Nat.mul_le_mul_right _ (by omega)
    have hle' : m.size ≤ m.rows * (C * m.pixelSize) := Nat.mul_le_mul_left _ hcols
    -- every inequality on the way is an equality
    have hC : m.width = C * m.pixelSize :=
      Nat.eq_of_mul_eq_mul_left hr (by change m.size = _; omega)
    have hCpos : 0 < C * m.pixelSize := Nat.mul_pos (by omega) hpos
    have hR : m.rows = R := Nat.eq_of_mul_eq_mul_right hCpos (by omega)
    have hceq : m.cols = C := Nat.eq_of_mul_eq_mul_right hpos hC
    have hx0 : x = 0 := by omega
    have hy0 : y = 0 := by omega
    have hdata' : m.data = m.datastart := by rw [hdata, hx0, hy0]; simp
    refine ⟨⟨hdata', ?_⟩, ?_⟩
    · rw [hend, hdata', hR, hC]
    · by_cases hone : m.rows = 1
      · exact .inl hone
      · right
        have hmul : m.step * (R - 1) = C * m.pixelSize * (R - 1) := by omega
        rw [hC]
        exact Nat.eq_of_mul_eq_mul_right (by omega) hmul
  · rintro ⟨⟨hdata', hend'⟩, hpacked⟩
    have hsum : m.step * (R - 1) + C * m.pixelSize = m.step * (m.rows - 1) + m.width := by
      rw [hdata'] at hend'
      omega
    rw [hsum, size]
    cases hpacked with
    | inl hone => rw [hone]; simp
    | inr hpacked =>
      obtain ⟨n, hn⟩ : ∃ n, m.rows = n + 1 := ⟨m.rows - 1, by omega⟩
      rw [hpacked, hn, Nat.add_sub_cancel]
      ring

/-- A pixel inside the matrix lies inside its bytes. -/
theorem index_lt {m : Mat} {r c k : Nat} (hr : r < m.rows) (hc : c < m.cols)
    (hk : k < m.pixelSize) : r * m.width + c * m.pixelSize + k < m.size := by
  have hrow : c * m.pixelSize + m.pixelSize ≤ m.width := by
    rw [← Nat.succ_mul]
    exact Nat.mul_le_mul_right _ hc
  have hall : r * m.width + m.width ≤ m.size := by
    rw [← Nat.succ_mul]
    exact Nat.mul_le_mul_right _ hr
  omega

end Mat

end ParleVision.Images
