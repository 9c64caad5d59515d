import Mathlib.Data.List.Basic
import Mathlib.Data.List.Induction
import Mathlib.Data.List.Nodup
import Mathlib.Order.Lattice
import Mathlib.Tactic.Common

namespace ParleVision.Opencv

structure DelayImage (α : Type) where
  m_images : List α
  m_steps : Int
  /-- the range of `setSteps` -/
  le_max : 0 ≤ m_steps ∧ m_steps ≤ 100

inductive DelayEvent (α : Type) where
  | setSteps (i : Int)
  | input (img : α)

namespace DelayImage
variable {α : Type}

def new : DelayImage α := ⟨[], 5, by decide⟩

/-- It asserts that nothing is held back. -/
def start (s : DelayImage α) : Option (DelayImage α) :=
  if s.m_images.isEmpty then some s else none

def stop (s : DelayImage α) : DelayImage α := { s with m_images := [] }

def setSteps (s : DelayImage α) (i : Int) : DelayImage α where
  m_images := s.m_images
  m_steps := if i < 0 then 0 else if i > 100 then 100 else i
  le_max := by split <;> [decide; (split <;> omega)]

def process (s : DelayImage α) (imgIn : α) : DelayImage α × Option α :=
  let m_images := s.m_images ++ [imgIn]
  if m_images.length ≥ s.m_steps then ({ s with m_images := m_images.tail }, m_images.head?)
  else ({ s with m_images }, none)

def step (s : DelayImage α) : DelayEvent α → DelayImage α
  | .setSteps i => s.setSteps i
  | .input img => (s.process img).1

def after (s : DelayImage α) (es : List (DelayEvent α)) : DelayImage α := es.foldl step s

end DelayImage

namespace DelayEvent
variable {α : Type}

def input? : DelayEvent α → Option α
  | .setSteps _ => none
  | .input img => some img

def inputs (es : List (DelayEvent α)) : List α := es.filterMap input?

end DelayEvent

namespace DelayImage
variable {α : Type} {s s₀ : DelayImage α}
open DelayEvent

def stepsAt (s : DelayImage α) : List (DelayEvent α) → List Int
  | [] => []
  | .setSteps i :: es => stepsAt (s.setSteps i) es
  | .input img :: es => s.m_steps :: stepsAt (s.process img).1 es

/-- With the next image the number of steps will have been the same for 100 images, or since the
start. -/
def Steady (s : DelayImage α) (es : List (DelayEvent α)) (k : Nat) : Prop :=
  (s.after es).m_steps = k ∧
    ∀ k' ∈ (s.stepsAt es).drop ((s.stepsAt es).length - 99), k' = (k : Int)

def delayed (k : Nat) (inputs : List α) : Option α :=
  if inputs.length > k then inputs[inputs.length - k - 1]? else none

def grow (length : Nat) (steps : Int) : Nat := if length + 1 ≥ steps then length else length + 1

theorem process_length (s : DelayImage α) (img : α) :
    (s.process img).1.m_images.length = grow s.m_images.length s.m_steps := by
  unfold process grow
  dsimp only
  rw [List.length_append, List.length_singleton]
  push_cast
  split
  · rw [List.length_tail, List.length_append, List.length_singleton, Nat.add_sub_cancel]
  · rw [List.length_append, List.length_singleton]

theorem length_after (s : DelayImage α) (es : List (DelayEvent α)) :
    (s.after es).m_images.length = (s.stepsAt es).foldl grow s.m_images.length := by
  induction es generalizing s with
  | nil => rfl
  | cons e es ih =>
    cases e with
    | setSteps i => exact ih (s.setSteps i)
    | input img =>
      have hafter := ih (s.process img).1
      rw [process_length] at hafter
      exact hafter

theorem length_stepsAt (s : DelayImage α) (es : List (DelayEvent α)) :
    (s.stepsAt es).length = (inputs es).length := by
  induction es generalizing s with
  | nil => rfl
  | cons e es ih =>
    cases e with
    | setSteps i => exact ih (s.setSteps i)
    | input img => exact congrArg (· + 1) (ih (s.process img).1)

/-- With the image that comes in there are at most 100. -/
theorem process_lt (h : s.m_images.length < 100) (img : α) :
    (s.process img).1.m_images.length < 100 := by
  rw [process_length]
  unfold grow
  have := s.le_max
  split <;> omega

theorem after_lt (h : s.m_images.length < 100) (es : List (DelayEvent α)) :
    (s.after es).m_images.length < 100 := by
  induction es generalizing s with
  | nil => exact h
  | cons e es ih =>
    cases e with
    | setSteps i => exact ih h
    | input img => exact ih (process_lt h img)

/-- A constant number of steps fills the buffer up to one less. -/
theorem le_foldl_grow {k : Nat} (ks : List Int) (hks : ∀ k' ∈ ks, k' = (k : Int)) (length : Nat) :
    min (k - 1) (length + ks.length) ≤ ks.foldl grow length := by
  induction ks generalizing length with
  | nil => exact Nat.min_le_right _ _
  | cons k' ks ih =>
    obtain ⟨rfl, hrest⟩ := List.forall_mem_cons.mp hks
    have hle := ih hrest (grow length k)
    rw [List.foldl_cons, List.length_cons]
    refine Nat.le_trans ?_ hle
    unfold grow
    split <;> omega

theorem foldl_grow_le {k : Nat} (ks : List Int) (hks : ∀ k' ∈ ks, k' = (k : Int)) (length : Nat) :
    ks.foldl grow length ≤ max length (k - 1) := by
  induction ks generalizing length with
  | nil => exact Nat.le_max_left _ _
  | cons k' ks ih =>
    obtain ⟨rfl, hrest⟩ := List.forall_mem_cons.mp hks
    have hle := ih hrest (grow length k)
    rw [List.foldl_cons]
    refine Nat.le_trans hle ?_
    unfold grow
    split <;> omega

/-- The buffer holds the last inputs. -/
theorem suffix_after {before : List α} (h : s.m_images <:+ before) (es : List (DelayEvent α)) :
    (s.after es).m_images <:+ before ++ inputs es := by
  induction es generalizing s before with
  | nil =>
    rw [show inputs ([] : List (DelayEvent α)) = [] from rfl, List.append_nil]
    exact h
  | cons e es ih =>
    cases e with
    | setSteps i => exact ih (s := s.setSteps i) h
    | input img =>
      have hnext : (s.process img).1.m_images <:+ before ++ [img] := by
        have happend : s.m_images ++ [img] <:+ before ++ [img] := by
          obtain ⟨front, rfl⟩ := h
          exact ⟨front, by rw [List.append_assoc]⟩
        unfold process
        dsimp only
        split
        · exact (List.tail_suffix _).trans happend
        · exact happend
      have hrest := ih hnext
      rw [List.append_assoc] at hrest
      exact hrest

theorem start_some (h : s₀.start = some s) : s.m_images = [] := by
  unfold start at h
  split at h
  · rename_i hempty
    cases h
    exact List.isEmpty_iff.mp hempty
  · cases h

/-- An output is as many images old as the buffer is long. -/
theorem process_output {before : List α} (h : s.m_images <:+ before) (img : α) :
    (s.process img).2 =
      if s.m_images.length + 1 ≥ s.m_steps then delayed s.m_images.length (before ++ [img])
      else none := by
  obtain ⟨front, rfl⟩ := h
  unfold process
  dsimp only
  have hlength : ((s.m_images ++ [img]).length : Int) = s.m_images.length + 1 := by simp
  rw [hlength]
  by_cases hle : (s.m_images.length : Int) + 1 ≥ s.m_steps
  · rw [if_pos hle, if_pos hle]
    unfold delayed
    have hindex : (front ++ s.m_images ++ [img]).length - s.m_images.length - 1 =
        front.length := by
      simp only [List.length_append, List.length_singleton]
      omega
    rw [if_pos (by simp; omega), hindex, List.append_assoc,
      List.getElem?_append_right (Nat.le_refl _), Nat.sub_self, List.head?_eq_getElem?]
  · rw [if_neg hle, if_neg hle]

theorem delayed_some {k : Nat} {inputs : List α} (h : k < inputs.length) :
    delayed k inputs = some (inputs[inputs.length - k - 1]) := by
  unfold delayed
  rw [if_pos h, List.getElem?_eq_getElem]

theorem delayed_none {k : Nat} {inputs : List α} (h : inputs.length ≤ k) :
    delayed k inputs = none := by
  unfold delayed
  rw [if_neg (by omega)]

/-- Images that are all different tell how old they are. -/
theorem delayed_eq_iff {j k : Nat} {inputs : List α} (hd : inputs.Nodup) (hj : j < inputs.length)
    (hk : k < inputs.length) : delayed j inputs = delayed k inputs ↔ j = k := by
  rw [delayed_some hj, delayed_some hk, Option.some.injEq, hd.getElem_inj_iff]
  omega

theorem Steady.le_length {es : List (DelayEvent α)} {k : Nat} (h : Steady s es k) :
    min (k - 1) (min 99 (inputs es).length) ≤ (s.after es).m_images.length := by
  have hle := le_foldl_grow _ h.2
    (((s.stepsAt es).take ((s.stepsAt es).length - 99)).foldl grow s.m_images.length)
  rw [← List.foldl_append, List.take_append_drop, ← length_after, List.length_drop,
    length_stepsAt] at hle
  omega

/-- The delay is the length of the buffer, which is one too small when the number of steps was
the same from the start, and does not shrink with the number of steps. -/
theorem delay_right (hstart : s₀.start = some s) (es : List (DelayEvent α)) :
    (s.after es).m_images.length < 100 ∧
    ∀ img k, Steady s es k →
      (((s.after es).process img).2 = delayed k (inputs es ++ [img]) ↔
        if (inputs es).length + 1 ≤ k then (inputs es).length + 1 < k
        else delayed (s.after es).m_images.length (inputs es ++ [img]) =
          delayed k (inputs es ++ [img])) ∧
      (k ≤ (inputs es).length → (inputs es ++ [img]).Nodup →
        (delayed (s.after es).m_images.length (inputs es ++ [img]) =
          delayed k (inputs es ++ [img]) ↔ (s.after es).m_images.length = k)) ∧
      (k ≤ (inputs es).length → (∀ k' ∈ s.stepsAt es, k' = (k : Int)) →
        (s.after es).m_images.length = k - 1) := by
  have hempty := start_some hstart
  have hnil : s.m_images <:+ [] := hempty ▸ List.suffix_refl _
  have hsuffix : (s.after es).m_images <:+ inputs es := suffix_after hnil es
  have hlength := hsuffix.length_le
  refine ⟨after_lt (by simp [hempty]) es, fun img k hsteady => ⟨?_, fun hk hd => ?_, ?_⟩⟩
  · have hle := hsteady.le_length
    have hmax := (s.after es).le_max
    have hcount : (inputs es ++ [img]).length = (inputs es).length + 1 := by simp
    rw [process_output hsuffix, hsteady.1]
    rw [hsteady.1] at hmax
    split
    case isTrue hge =>
      split
      · -- the first images: the buffer is one image shorter than the number of steps
        rw [delayed_none (k := k) (by omega), delayed_some (by omega)]
        exact iff_of_false (by simp) (by omega)
      · exact Iff.rfl
    case isFalse hlt =>
      rw [if_pos (by omega), delayed_none (k := k) (by omega)]
      exact iff_of_true rfl (by omega)
  · exact delayed_eq_iff hd (by simp; omega) (by simp; omega)
  · intro hk hks
    have hge := le_foldl_grow _ hks s.m_images.length
    have hle := foldl_grow_le _ hks s.m_images.length
    rw [← length_after, hempty, List.length_nil] at hge hle
    rw [length_stepsAt] at hge
    omega

/-- Without a delay. -/
theorem delay_right_zero :
    (((new : DelayImage Nat).after [.setSteps 0, .input 1]).process 2).2 = some 2 ∧
      ((new : DelayImage Nat).after [.setSteps 0, .input 1]).m_images.length = 0 - 1 := by
  have hsteady : Steady (new : DelayImage Nat) [.setSteps 0, .input 1] 0 := ⟨rfl, by decide⟩
  have hstart : (new : DelayImage Nat).start = some new := rfl
  obtain ⟨-, hall⟩ := delay_right hstart [.setSteps 0, .input 1]
  obtain ⟨houtput, hsame, hlength⟩ := hall 2 0 hsteady
  have hzero := hlength (by decide) (by decide)
  exact ⟨houtput.mpr ((hsame (by decide) (by decide)).mpr hzero), hzero⟩

/-- The fifth of five images brings the first, four images before it. -/
theorem delay_short : ¬ ∀ (es : List (DelayEvent Nat)) img k, Steady new es k →
    ((new.after es).process img).2 = delayed k (inputs es ++ [img]) := by
  intro hall
  have hfifth := hall [.input 1, .input 2, .input 3, .input 4] 5 5 ⟨rfl, by decide⟩
  have hfirst : some 1 = none := hfifth
  cases hfirst

end DelayImage

end ParleVision.Opencv
