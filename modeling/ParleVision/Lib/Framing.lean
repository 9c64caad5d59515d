import Mathlib.Data.List.Basic

namespace ParleVision.Lib

/-- Blocks on a byte stream: a header of fixed size that tells how many
elements of payload follow it. -/
structure Framing (β : Type) where
  size : Nat
  positive : 0 < size
  len : List β → Nat

namespace Framing
variable {β : Type} (F : Framing β)

/-- The complete blocks at the front of what has been received, and what is
left after them. This is what a framing reader is for, with no state of its own. -/
def split (bs : List β) : List (List β) × List β :=
  if bs.length < F.size then ([], bs)
  else if (bs.drop F.size).length < F.len (bs.take F.size) then ([], bs)
  else
    let r := split ((bs.drop F.size).drop (F.len (bs.take F.size)))
    ((bs.drop F.size).take (F.len (bs.take F.size)) :: r.1, r.2)
termination_by bs.length
decreasing_by
  have := F.positive
  simp only [List.length_drop]
  omega

theorem split_short {bs : List β} (h : bs.length < F.size) : F.split bs = ([], bs) := by
  rw [split, if_pos h]

theorem split_partial {bs : List β} (h : (bs.drop F.size).length < F.len (bs.take F.size)) :
    F.split bs = ([], bs) := by
  rw [split]
  split
  · rfl
  · rfl

def IsBlock (b m : List β) : Prop :=
  ∃ hdr, hdr.length = F.size ∧ F.len hdr = m.length ∧ b = hdr ++ m

variable {F}

theorem IsBlock.split {b m : List β} (h : F.IsBlock b m) (rest : List β) :
    F.split (b ++ rest) = (m :: (F.split rest).1, (F.split rest).2) := by
  obtain ⟨hdr, hs, hl, rfl⟩ := h
  have htake : (hdr ++ m ++ rest).take F.size = hdr := by
    rw [List.append_assoc, ← hs, List.take_left']
    rfl
  have hdrop : (hdr ++ m ++ rest).drop F.size = m ++ rest := by
    rw [List.append_assoc, ← hs, List.drop_left']
    rfl
  rw [Framing.split, htake, hdrop, hl, if_neg (by simp [← hs]), if_neg (by simp)]
  simp

variable (F)

/-- Splitting does not depend on where the received elements were cut. -/
theorem split_append (xs ys : List β) :
    F.split (xs ++ ys) =
      ((F.split xs).1 ++ (F.split ((F.split xs).2 ++ ys)).1,
        (F.split ((F.split xs).2 ++ ys)).2) := by
  induction xs using split.induct F with
  | case1 xs h => simp [F.split_short h]
  | case2 xs _ h => simp [F.split_partial h]
  | case3 xs hs hp ih =>
    have hb : F.IsBlock (xs.take (F.size + F.len (xs.take F.size)))
        ((xs.drop F.size).take (F.len (xs.take F.size))) := by
      refine ⟨xs.take F.size, by simp; omega, ?_, by rw [List.take_add]⟩
      simp only [List.length_drop] at hp
      simp only [List.length_take, List.length_drop]
      omega
    have hx : xs = xs.take (F.size + F.len (xs.take F.size)) ++
        (xs.drop F.size).drop (F.len (xs.take F.size)) := by
      rw [List.drop_drop, List.take_append_drop]
    have hfirst := hb.split ((xs.drop F.size).drop (F.len (xs.take F.size)))
    have hboth := hb.split ((xs.drop F.size).drop (F.len (xs.take F.size)) ++ ys)
    rw [← hx] at hfirst
    rw [← List.append_assoc, ← hx] at hboth
    rw [hboth, hfirst, ih]
    simp

variable {F}

/-- A stream of blocks splits into exactly their payloads. -/
theorem split_stream {ms : List (List β)} {stream : List β}
    (h : ∃ bs, List.Forall₂ F.IsBlock bs ms ∧ stream = bs.flatten) :
    F.split stream = (ms, []) := by
  obtain ⟨bs, hb, rfl⟩ := h
  induction hb with
  | nil => exact F.split_short (by simpa using F.positive)
  | cons hm _ ih => rw [List.flatten_cons, hm.split, ih]

/-- A block that has not arrived to its end is not split off. -/
theorem IsBlock.split_prefix {b m bs : List β} (h : F.IsBlock b m) (hp : bs <+: b)
    (hlt : bs.length < b.length) : F.split bs = ([], bs) := by
  obtain ⟨hdr, hs, hl, rfl⟩ := h
  by_cases hshort : bs.length < F.size
  · exact F.split_short hshort
  · have hb : bs = hdr ++ bs.drop hdr.length := by
      have htake : bs.take hdr.length = hdr := by
        rw [List.prefix_iff_eq_take.mp hp, List.take_take, Nat.min_eq_left (by omega),
          List.take_left']
        rfl
      calc bs = bs.take hdr.length ++ bs.drop hdr.length := (List.take_append_drop _ _).symm
        _ = hdr ++ bs.drop hdr.length := by rw [htake]
    apply F.split_partial
    have hhdr : bs.take F.size = hdr := by
      rw [hb, ← hs, List.take_left']
      rfl
    rw [hhdr, hl]
    simp only [List.length_append] at hlt
    simp only [List.length_drop]
    omega

/-- More input leaves the complete blocks in place. -/
theorem split_prefix {xs ys : List β} (h : xs <+: ys) : (F.split xs).1 <+: (F.split ys).1 := by
  obtain ⟨rest, rfl⟩ := h
  rw [F.split_append]
  exact List.prefix_append _ _

/-- Where nothing is left over, the first header announced the first payload. -/
theorem split_header {bs : List β} (hsize : F.size ≤ bs.length) (hrest : (F.split bs).2 = []) :
    ∃ m ∈ (F.split bs).1, F.len (bs.take F.size) = m.length := by
  have hpos := F.positive
  have hne : bs ≠ [] := by rintro rfl; simp at hsize; omega
  by_cases hp : (bs.drop F.size).length < F.len (bs.take F.size)
  · rw [F.split_partial hp] at hrest
    exact absurd hrest hne
  · rw [split, if_neg (by omega), if_neg hp]
    refine ⟨_, List.mem_cons_self, ?_⟩
    simp only [List.length_take]
    omega

/-- Whatever has been received of a stream, its complete blocks come first in
the stream and the header at the front of the rest announces one of the others. -/
theorem split_received {xs ys : List β} {ms : List (List β)} (h : F.split (xs ++ ys) = (ms, [])) :
    (∀ m ∈ (F.split xs).1, m ∈ ms) ∧
    (F.size ≤ (F.split xs).2.length →
      ∃ m ∈ ms, F.len ((F.split xs).2.take F.size) = m.length) := by
  rw [F.split_append] at h
  obtain ⟨rfl, hrest⟩ := Prod.mk.inj h
  refine ⟨fun m hm => List.mem_append_left _ hm, fun hsize => ?_⟩
  obtain ⟨m, hm, hl⟩ := split_header (by simp; omega) hrest
  rw [List.take_append_of_le_length hsize] at hl
  exact ⟨m, List.mem_append_right _ hm, hl⟩

end Framing

/-- A machine that is in the right state after each prefix of its input is in
the right state however the input was cut. -/
theorem foldl_canonical {α : Type u} {β : Type v} {stream : List β} (step : α → List β → α)
    (canon : List β → α)
    (h : ∀ p c, p ++ c <+: stream → step (canon p) c = canon (p ++ c)) :
    ∀ (chunks : List (List β)) (p : List β), p ++ chunks.flatten <+: stream →
      chunks.foldl step (canon p) = canon (p ++ chunks.flatten) := by
  intro chunks
  induction chunks with
  | nil => intro p _; simp
  | cons c cs ih =>
    intro p hp
    rw [List.flatten_cons, ← List.append_assoc] at hp ⊢
    rw [List.foldl_cons, h p c ((List.prefix_append _ _).trans hp), ih _ hp]

end ParleVision.Lib
