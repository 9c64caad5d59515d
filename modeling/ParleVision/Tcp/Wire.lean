import ParleVision.Lib.Framing
import Mathlib.Data.List.Forall2
import Mathlib.Algebra.Order.Ring.Int

namespace ParleVision.Tcp
open Lib

abbrev Bytes := List UInt8

/-- `QDataStream << quint32`, big endian. -/
def writeU32 (n : UInt32) : Bytes :=
  [UInt8.ofNat (n.toNat / 2 ^ 24), UInt8.ofNat (n.toNat / 2 ^ 16),
    UInt8.ofNat (n.toNat / 2 ^ 8), UInt8.ofNat n.toNat]

/-- `QDataStream >> quint32`. Reading past the end takes what is left and
yields 0. -/
def readU32 : Bytes → UInt32 × Bytes
  | a :: b :: c :: d :: rest =>
    (UInt32.ofNat (a.toNat * 2 ^ 24 + b.toNat * 2 ^ 16 + c.toNat * 2 ^ 8 + d.toNat), rest)
  | _ => (0, [])

def toInt (n : UInt32) : Int :=
  if n.toNat < 2 ^ 31 then n.toNat else (n.toNat : Int) - 2 ^ 32

/-- `QDataStream::skipRawData` on a socket: a negative length skips nothing. -/
def skipRawData (len : Int) (bs : Bytes) : Bytes := bs.drop len.toNat

@[simp] theorem writeU32_length (n : UInt32) : (writeU32 n).length = 4 := rfl

@[simp] theorem readU32_writeU32 (n : UInt32) (rest : Bytes) :
    readU32 (writeU32 n ++ rest) = (n, rest) := by
  have hn : n.toNat < 2 ^ 32 := n.toNat_lt
  simp only [writeU32, List.cons_append, List.nil_append, readU32, Prod.mk.injEq, and_true]
  apply UInt32.toNat_inj.mp
  simp only [UInt32.toNat_ofNat', UInt8.toNat_ofNat']
  omega

theorem readU32_rest {bs : Bytes} (h : 4 ≤ bs.length) : (readU32 bs).2 = bs.drop 4 := by
  match bs with
  | [] | [_] | [_, _] | [_, _, _] => simp at h
  | _ :: _ :: _ :: _ :: rest => simp [readU32]

theorem readU32_take {bs : Bytes} (h : 4 ≤ bs.length) :
    (readU32 (bs.take 4)).1 = (readU32 bs).1 := by
  match bs with
  | [] | [_] | [_, _] | [_, _, _] => simp at h
  | _ :: _ :: _ :: _ :: rest => simp [readU32]

theorem toInt_of_lt {n : UInt32} (h : n.toNat < 2 ^ 31) : toInt n = n.toNat := if_pos h

/-- Every message starts with its length in four bytes, which do not count. -/
def blocks : Framing UInt8 where
  size := 4
  positive := by decide
  len := fun bs => (readU32 bs).1.toNat

/-- A payload behind its length, as both sides write it. -/
def block (payload : Bytes) : Bytes := writeU32 (UInt32.ofNat payload.length) ++ payload

theorem block_isBlock {payload : Bytes} (h : payload.length < 2 ^ 32) :
    blocks.IsBlock (block payload) payload := by
  refine ⟨writeU32 (UInt32.ofNat payload.length), rfl, ?_, rfl⟩
  have := readU32_writeU32 (UInt32.ofNat payload.length) []
  simp only [List.append_nil] at this
  simp only [blocks, this, UInt32.toNat_ofNat']
  omega

/-- Blocks behind each other are split into their payloads. -/
theorem split_blocks {payloads : List Bytes} (h : ∀ p ∈ payloads, p.length < 2 ^ 32) :
    blocks.split (payloads.map block).flatten = (payloads, []) := by
  apply Framing.split_stream
  refine ⟨payloads.map block, ?_, rfl⟩
  rw [List.forall₂_map_left_iff, List.forall₂_same]
  exact fun p hp => block_isBlock (h p hp)

end ParleVision.Tcp
