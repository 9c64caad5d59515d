import ParleVision.Images.Mat
import ParleVision.Lib.Run
import Mathlib.Logic.Function.Basic
import Mathlib.Data.List.Nodup

namespace ParleVision.Images
open Lib

/-- A cv::Mat: a header and the buffer it shares, in which the header's addresses lie. -/
structure SharedMat where
  mat : Mat
  buffer : Nat
  deriving DecidableEq, Repr

namespace SharedMat

def HasByte (m : SharedMat) (i : Nat) : Prop :=
  ∃ r < m.mat.rows, ∃ c < m.mat.cols, ∃ k < m.mat.pixelSize,
    m.mat.data + r * m.mat.step + c * m.mat.pixelSize + k = i

def Overlap (m m' : SharedMat) : Prop := m.buffer = m'.buffer ∧ ∃ i, m.HasByte i ∧ m'.HasByte i

theorem Overlap.symm {m m' : SharedMat} (h : m.Overlap m') : m'.Overlap m := by
  obtain ⟨hb, i, hi, hi'⟩ := h
  exact ⟨hb.symm, i, hi', hi⟩

end SharedMat

/-- The buffers, the MatData objects and the CvMatData values that are alive. -/
structure Heap where
  buffers : Nat → Memory
  nextBuffer : Nat
  matData : Nat → SharedMat
  nextMatData : Nat
  alive : List Nat
  /-- the `QSharedDataPointer<MatData> d` of each value -/
  d : Nat → Nat
  /-- the values whose `cv::Mat&` was obtained, and that were not copied or assigned since -/
  obtained : List Nat

namespace Heap

def start : Heap where
  buffers := fun _ _ => 0
  nextBuffer := 0
  matData := fun _ => ⟨.onBuffer 0 0 0 0 0, 0⟩
  nextMatData := 0
  alive := []
  d := fun _ => 0
  obtained := []

/-- What `const cv::Mat&` shows of a value. -/
def mat (s : Heap) (v : Nat) : SharedMat := s.matData (s.d v)

def pixel (s : Heap) (v r c : Nat) : List UInt8 :=
  Mat.pixel (s.buffers (s.mat v).buffer) (s.mat v).mat r c

/-- The pixels that can be read through a value, row by row. -/
def image (s : Heap) (v : Nat) : List (List (List UInt8)) :=
  (List.range (s.mat v).mat.rows).map fun r =>
    (List.range (s.mat v).mat.cols).map fun c => s.pixel v r c

/-- `QSharedData::ref`: the number of values that share a MatData. -/
def ref (s : Heap) (p : Nat) : Nat := s.alive.countP fun v => s.d v == p

def newMatData (s : Heap) (v : Nat) (m : SharedMat) : Heap :=
  { s with matData := Function.update s.matData s.nextMatData m
           nextMatData := s.nextMatData + 1
           d := Function.update s.d v s.nextMatData }

/-- `cv::Mat::clone` copies the rows of a matrix to a new buffer, without padding. -/
def clone (s : Heap) (m : SharedMat) : Heap × SharedMat :=
  ({ s with
      buffers := Function.update s.buffers s.nextBuffer fun i =>
        s.buffers m.buffer (m.mat.data + i / m.mat.width * m.mat.step + i % m.mat.width)
      nextBuffer := s.nextBuffer + 1 },
    ⟨.onBuffer m.mat.flags m.mat.rows m.mat.cols m.mat.width 0, s.nextBuffer⟩)

/-- What QSharedDataPointer does before it hands out a MatData that is not const. -/
def detach (s : Heap) (v : Nat) : Heap :=
  if s.ref (s.d v) = 1 then s
  else (s.clone (s.mat v)).1.newMatData v (s.clone (s.mat v)).2

inductive Event where
  /-- a buffer for a cv::Mat that no value has yet -/
  | allocate (content : Memory)
  /-- `CvMatData v;` -/
  | construct (v : Nat)
  /-- `CvMatData v( m, copyData );` -/
  | fromMat (v : Nat) (m : SharedMat) (copyData : Bool)
  /-- `CvMatData v( w );` -/
  | copy (v w : Nat)
  /-- `v = w;` -/
  | assign (v w : Nat)
  /-- `v = m;` -/
  | assignMat (v : Nat) (m : SharedMat)
  | destroy (v : Nat)
  /-- `cv::Mat& m = v;` -/
  | obtain (v : Nat)
  /-- writes a byte of a pixel through that reference -/
  | write (v r c k : Nat) (byte : UInt8)

def step (s : Heap) : Event → Option Heap
  | .allocate content =>
    some { s with buffers := Function.update s.buffers s.nextBuffer content
                  nextBuffer := s.nextBuffer + 1 }
  | .construct v =>
    if v ∉ s.alive then
      -- no byte of the buffer belongs to the empty matrix
      let s' : Heap := { s with nextBuffer := s.nextBuffer + 1, alive := s.alive.insert v }
      some (s'.newMatData v ⟨.onBuffer 0 0 0 0 0, s.nextBuffer⟩)
    else none
  | .fromMat v m copyData =>
    if v ∉ s.alive ∧ m.buffer < s.nextBuffer then
      let s' : Heap := { s with alive := s.alive.insert v }
      if copyData then some ((s'.clone m).1.newMatData v (s'.clone m).2)
      else some (s'.newMatData v m)
    else none
  | .copy v w =>
    if v ∉ s.alive ∧ w ∈ s.alive then
      some { s with alive := s.alive.insert v, d := Function.update s.d v (s.d w)
                    obtained := s.obtained.filter (· ≠ w) }
    else none
  | .assign v w =>
    if v ∈ s.alive ∧ w ∈ s.alive then
      if v = w then some s
      else some { s with d := Function.update s.d v (s.d w)
                         obtained := s.obtained.filter fun x => x ≠ v ∧ x ≠ w }
    else none
  | .assignMat v m =>
    if v ∈ s.alive ∧ m.buffer < s.nextBuffer then
      let s := s.detach v
      some { s with matData := Function.update s.matData (s.d v) m
                    obtained := s.obtained.filter (· ≠ v) }
    else none
  | .destroy v =>
    if v ∈ s.alive then
      some { s with alive := s.alive.filter (· ≠ v), obtained := s.obtained.filter (· ≠ v) }
    else none
  | .obtain v =>
    if v ∈ s.alive then
      let s := s.detach v
      some { s with obtained := v :: s.obtained }
    else none
  | .write v r c k byte =>
    if v ∈ s.obtained ∧ r < (s.mat v).mat.rows ∧ c < (s.mat v).mat.cols ∧
        k < (s.mat v).mat.pixelSize then
      let m := s.mat v
      some { s with buffers := Function.update s.buffers m.buffer (Function.update
        (s.buffers m.buffer) (m.mat.data + r * m.mat.step + c * m.mat.pixelSize + k) byte) }
    else none

end Heap

end ParleVision.Images
