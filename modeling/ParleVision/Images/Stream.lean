import ParleVision.Images.Mat
import ParleVision.Tcp.Wire

namespace ParleVision.Images
open Tcp

def bytesAt (memory : Memory) (address length : Nat) : Bytes :=
  (List.range length).map fun i => memory (address + i)

def writeBytes (bytes : Bytes) : Bytes := writeU32 (UInt32.ofNat bytes.length) ++ bytes

/-- `QDataStream::readBytes`, which yields nothing when the stream is too short. -/
def readBytes (bs : Bytes) : Bytes × Bytes :=
  let length := readU32 bs
  if length.2.length < length.1.toNat then ([], [])
  else (length.2.take length.1.toNat, length.2.drop length.1.toNat)

/-- `int length = mat.dataend - mat.datastart;` -/
def Mat.length (m : Mat) : Int := ((m.dataend : Int) - m.datastart).bmod (2 ^ 32)

/-- `operator<<`; nothing when `assert( length > 0 )` fails. An int is at most INT_MAX. -/
def writeMat (memory : Memory) (m : Mat) : Option Bytes :=
  if 0 < m.length then
    some (writeU32 (UInt32.ofNat m.type) ++ writeU32 (UInt32.ofNat m.rows) ++
      writeU32 (UInt32.ofNat m.cols) ++ writeU32 (UInt32.ofNat m.length.toNat) ++
      writeBytes (bytesAt memory m.data m.length.toNat))
  else none

/-- `cv::Mat mat( rows, cols, type )`, at the start of fresh memory -/
def Mat.create (rows cols : Int) (type : Nat) : Mat :=
  .onBuffer type rows.toNat cols.toNat (cols.toNat * elemSize (type % 2 ^ 12)) 0

/-- `operator>>`, with the memory of the matrix it makes and what is left of the stream. Nothing
when the assertion about the length fails or memcpy reads beyond the bytes that were read. -/
def readMat (bs : Bytes) : Option ((Memory × Mat) × Bytes) :=
  let type := readU32 bs
  let rows := readU32 type.2
  let cols := readU32 rows.2
  let len := readU32 cols.2
  let data := readBytes len.2
  let mat := Mat.create (toInt rows.1) (toInt cols.1) type.1.toNat
  if UInt32.ofNat mat.size = UInt32.ofNat data.1.length ∧ mat.size ≤ data.1.length then
    some ((fun i => data.1.getD i 0, mat), data.2)
  else none

def RoundTrips (memory : Memory) (m : Mat) : Prop :=
  ∀ rest, ∃ bs, writeMat memory m = some bs ∧
    ∃ memory' m', readMat (bs ++ rest) = some ((memory', m'), rest) ∧
      m'.rows = m.rows ∧ m'.cols = m.cols ∧ m'.type = m.type ∧
      ∀ r < m.rows, ∀ c < m.cols, Mat.pixel memory' m' r c = Mat.pixel memory m r c

theorem bytesAt_length (memory : Memory) (address length : Nat) :
    (bytesAt memory address length).length = length := by simp [bytesAt]

theorem bytesAt_getD {memory : Memory} {address length i : Nat} (h : i < length) :
    (bytesAt memory address length).getD i 0 = memory (address + i) := by
  simp [bytesAt, h]

theorem readBytes_writeBytes {bytes : Bytes} (h : bytes.length < 2 ^ 32) (rest : Bytes) :
    readBytes (writeBytes bytes ++ rest) = (bytes, rest) := by
  have hlen : (UInt32.ofNat bytes.length).toNat = bytes.length := by
    rw [UInt32.toNat_ofNat', Nat.mod_eq_of_lt h]
  rw [readBytes, writeBytes, List.append_assoc]
  simp only [readU32_writeU32, hlen]
  rw [if_neg (by simp)]
  simp

/-- What is read back of a matrix, where nothing fails. -/
theorem readMat_writeMat {memory : Memory} {m : Mat} (h : m.Value) {bs : Bytes}
    (hbs : writeMat memory m = some bs) (rest : Bytes) :
    readMat (bs ++ rest) =
      if UInt32.ofNat m.size = UInt32.ofNat m.length.toNat ∧ m.size ≤ m.length.toNat then
        some ((fun i => (bytesAt memory m.data m.length.toNat).getD i 0,
          Mat.create m.rows m.cols m.type), rest)
      else none := by
  obtain ⟨-, hrows, -, hcols⟩ := h.bounds
  have hint : ∀ n : Nat, n < 2 ^ 31 → toInt (UInt32.ofNat n) = n := by
    intro n hn
    have hnat : (UInt32.ofNat n).toNat = n := by
      rw [UInt32.toNat_ofNat', Nat.mod_eq_of_lt (by omega)]
    rw [toInt_of_lt (by omega), hnat]
  have htype : (UInt32.ofNat m.type).toNat = m.type := by
    have : m.type < 2 ^ 12 := Nat.mod_lt _ (by decide)
    rw [UInt32.toNat_ofNat', Nat.mod_eq_of_lt (by omega)]
  have hmat : (Mat.create m.rows m.cols m.type).size = m.size := by
    change m.rows * (m.cols * elemSize (m.type % 2 ^ 12)) = _
    rw [Mat.type, Nat.mod_mod]
    rfl
  have hlength : m.length.toNat < 2 ^ 32 := by
    rw [Mat.length, Int.bmod_def]
    split
    all_goals omega
  have hbytes : (bytesAt memory m.data m.length.toNat).length < 2 ^ 32 := by
    rw [bytesAt_length]
    exact hlength
  unfold writeMat at hbs
  split at hbs
  · cases hbs
    simp only [readMat, List.append_assoc, readU32_writeU32, hint _ hrows, hint _ hcols, htype,
      readBytes_writeBytes hbytes, bytesAt_length, hmat]
  · cases hbs

def InSequence (memory : Memory) (m : Mat) : Prop :=
  ∀ r < m.rows, ∀ c < m.cols, ∀ k < m.pixelSize,
    memory (m.data + (r * m.width + c * m.pixelSize + k)) =
      memory (m.data + r * m.step + c * m.pixelSize + k)

theorem Mat.Packed.inSequence {m : Mat} (h : m.Packed) (memory : Memory) : InSequence memory m := by
  intro r hr c _ k _
  cases h with
  | inl hone =>
    have hr0 : r = 0 := by omega
    rw [hr0]
    simp [Nat.add_assoc]
  | inr hstep => rw [hstep, Nat.add_assoc m.data, Nat.add_assoc m.data]

theorem pixels_read_iff {memory : Memory} {m : Mat} {n : Nat} (hn : m.size ≤ n) :
    (∀ r < m.rows, ∀ c < m.cols,
      Mat.pixel (fun i => (bytesAt memory m.data n).getD i 0) (Mat.create m.rows m.cols m.type) r c =
        Mat.pixel memory m r c) ↔ InSequence memory m := by
  have hsize : (Mat.create m.rows m.cols m.type).pixelSize = m.pixelSize := by
    change elemSize (m.type % 2 ^ 12) = _
    rw [Mat.type, Nat.mod_mod]
    rfl
  have hstep : (Mat.create m.rows m.cols m.type).step = m.width := by
    change m.cols * elemSize (m.type % 2 ^ 12) = _
    rw [Mat.type, Nat.mod_mod]
    rfl
  have hdata : (Mat.create m.rows m.cols m.type).data = 0 := rfl
  apply forall₂_congr
  intro r hr
  apply forall₂_congr
  intro c hc
  rw [Mat.pixel, Mat.pixel, hsize, hstep, hdata, List.map_inj_left]
  simp only [List.mem_range]
  apply forall₂_congr
  intro k hk
  rw [Nat.zero_add, bytesAt_getD (lt_of_lt_of_le (Mat.index_lt hr hc hk) hn)]

/-- A matrix round-trips exactly when the bytes that are written are as many as its pixels
have, and are those of its pixels. -/
theorem roundTrips_iff {memory : Memory} {m : Mat} (h : m.Value) :
    RoundTrips memory m ↔ m.length = m.size ∧ InSequence memory m := by
  have hpos := Mat.size_pos h
  have hbound : m.length < 2 ^ 31 := by
    rw [Mat.length]
    exact Int.bmod_lt (by decide)
  constructor
  · intro hround
    obtain ⟨bs, hbs, memory', m', hread, -, -, -, hpixels⟩ := hround []
    rw [readMat_writeMat h hbs] at hread
    have hlen : 0 < m.length := by
      by_contra hno
      rw [writeMat, if_neg hno] at hbs
      cases hbs
    split at hread
    · rename_i hsizes
      obtain ⟨hsame, hle⟩ := hsizes
      have hnat := congrArg UInt32.toNat hsame
      simp only [UInt32.toNat_ofNat'] at hnat
      cases hread
      exact ⟨by omega, (pixels_read_iff hle).mp hpixels⟩
    · cases hread
  · rintro ⟨hlen, hsequence⟩ rest
    have hnat : m.length.toNat = m.size := by omega
    have hwrite : writeMat memory m = some _ := if_pos (by omega)
    refine ⟨_, hwrite, _, _, ?_, ?_, ?_, ?_, (pixels_read_iff (le_refl _)).mpr hsequence⟩
    · rw [readMat_writeMat h hwrite, hnat, if_pos ⟨rfl, le_refl _⟩]
    · rfl
    · rfl
    · change m.type % 2 ^ 12 = m.type
      rw [Mat.type, Nat.mod_mod]

/-- A matrix round-trips exactly when the buffer's extent, as an int, is the number of bytes
of its pixels and these follow each other. In a buffer of less than 4 GiB this means: when it
is the whole buffer, its rows are packed, and it has less than 2 GiB. -/
theorem stream_roundTrip (memory : Memory) (m : Mat) (h : m.Value) :
    (RoundTrips memory m ↔ m.length = m.size ∧ InSequence memory m) ∧
    (m.dataend - m.datastart < 2 ^ 32 →
      (RoundTrips memory m ↔ m.Whole ∧ m.Packed ∧ m.size < 2 ^ 31)) := by
  refine ⟨roundTrips_iff h, fun hextent => ?_⟩
  have hpos := Mat.size_pos h
  obtain ⟨R, C, x, y, -, -, -, -, hend⟩ := h.inside
  have hlength : m.length = m.size ↔
      m.dataend - m.datastart = m.size ∧ m.size < 2 ^ 31 := by
    rw [Mat.length, Int.bmod_def]
    split
    all_goals omega
  rw [roundTrips_iff h, hlength, Mat.extent_eq_size_iff h]
  constructor
  · rintro ⟨⟨⟨hwhole, hpacked⟩, hsize⟩, -⟩
    exact ⟨hwhole, hpacked, hsize⟩
  · rintro ⟨hwhole, hpacked, hsize⟩
    exact ⟨⟨⟨hwhole, hpacked⟩, hsize⟩, hpacked.inSequence memory⟩

/-- Two rows of three pixels with two channels. -/
theorem stream_roundTrip_small : RoundTrips (fun i => UInt8.ofNat i) (.onBuffer 8 2 3 6 100) := by
  have hvalue : Mat.Value (.onBuffer 8 2 3 6 100) :=
    .onBuffer 8 2 3 6 100 (by decide) (by decide) (by decide) (by decide) (by decide)
  refine ((stream_roundTrip _ _ hvalue).2 (by decide)).mpr ⟨⟨rfl, rfl⟩, .inr rfl, by decide⟩

/-- A margin of one pixel around the middle of a gray image of three by three pixels. -/
theorem stream_roundTrip_cropped :
    Mat.Value ((Mat.onBuffer 0 3 3 3 100).roi 1 1 1 1) ∧
      ¬ RoundTrips (fun i => UInt8.ofNat i) ((Mat.onBuffer 0 3 3 3 100).roi 1 1 1 1) := by
  have hwhole : Mat.Value (.onBuffer 0 3 3 3 100) :=
    .onBuffer 0 3 3 3 100 (by decide) (by decide) (by decide) (by decide) (by decide)
  have hregion : Mat.Value ((Mat.onBuffer 0 3 3 3 100).roi 1 1 1 1) :=
    .roi _ 1 1 1 1 hwhole (by decide) (by decide) (by decide) (by decide)
  refine ⟨hregion, fun hround => ?_⟩
  have hlength := ((roundTrips_iff hregion).mp hround).1
  revert hlength
  decide

end ParleVision.Images
