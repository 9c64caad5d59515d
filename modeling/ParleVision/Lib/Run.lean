import Mathlib.Data.List.Basic
import Mathlib.Data.List.Induction

namespace ParleVision.Lib

/-- What can be reached from a state by steps that are allowed where they are taken.
A step that is not possible has no result. -/
inductive Reaches {σ : Type u} {ε : Type v} (step : σ → ε → Option σ) (allowed : σ → ε → Prop)
    (s₀ : σ) : σ → Prop where
  | start : Reaches step allowed s₀ s₀
  | step {s s' : σ} (e : ε) : Reaches step allowed s₀ s → allowed s e → step s e = some s' →
      Reaches step allowed s₀ s'

def run {σ : Type u} {ε : Type v} (step : σ → ε → Option σ) : σ → List ε → Option σ
  | s, [] => some s
  | s, e :: es => (step s e).bind fun s' => run step s' es

def guarded {σ : Type u} {ε : Type v} (step : σ → ε → Option σ) (allowed : σ → ε → Prop)
    [∀ s e, Decidable (allowed s e)] (s : σ) (e : ε) : Option σ :=
  if allowed s e then step s e else none

/-- One of the steps of a list, in the state where it is taken. -/
def Occurs {σ : Type u} {ε : Type v} (step : σ → ε → Option σ) (p : σ → ε → Prop) (s : σ)
    (es : List ε) : Prop :=
  ∃ before e after t, es = before ++ e :: after ∧ run step s before = some t ∧ p t e

/-- It is true of every state on the way. -/
def Always {σ : Type u} {ε : Type v} (step : σ → ε → Option σ) (I : σ → Prop) (s : σ)
    (es : List ε) : Prop :=
  ∀ before after t, es = before ++ after → run step s before = some t → I t

def Sometime {α : Type u} (p : List α → α → Prop) (l : List α) : Prop :=
  ∃ earlier x later, l = earlier ++ x :: later ∧ p earlier x

theorem sometime_nil {α : Type u} (p : List α → α → Prop) : ¬ Sometime p [] := by
  rintro ⟨earlier, x, later, hl, -⟩
  simp at hl

/-- Of the last, or of one before. -/
theorem sometime_concat {α : Type u} {p : List α → α → Prop} (l : List α) (a : α) :
    Sometime p (l ++ [a]) ↔ Sometime p l ∨ p l a := by
  constructor
  · rintro ⟨earlier, x, later, hl, hp⟩
    rcases List.eq_nil_or_concat later with rfl | ⟨later, a', rfl⟩
    · obtain ⟨rfl, hx⟩ := List.append_inj' hl rfl
      obtain rfl : a = x := by simpa using hx
      exact .inr hp
    · rw [List.concat_eq_append, ← List.cons_append, ← List.append_assoc] at hl
      obtain ⟨rfl, -⟩ := List.append_inj' hl rfl
      exact .inl ⟨earlier, x, later, rfl, hp⟩
  · rintro (⟨earlier, x, later, rfl, hp⟩ | hp)
    · exact ⟨earlier, x, later ++ [a], by simp, hp⟩
    · exact ⟨l, a, [], rfl, hp⟩

/-- Of a longer list too. -/
theorem Sometime.of_prefix {α : Type u} {p : List α → α → Prop} {l l' : List α}
    (h : Sometime p l) (hl : l <+: l') : Sometime p l' := by
  obtain ⟨earlier, x, later, rfl, hp⟩ := h
  obtain ⟨rest, rfl⟩ := hl
  exact ⟨earlier, x, later ++ rest, by rw [List.append_assoc, List.cons_append], hp⟩

section
variable {σ : Type u} {ε : Type v} {step : σ → ε → Option σ} {s t : σ}

theorem run_concat (es : List ε) (e : ε) :
    run step s (es ++ [e]) = (run step s es).bind fun t => step t e := by
  induction es generalizing s with
  | nil =>
    change (step s e).bind some = step s e
    exact Option.bind_fun_some _
  | cons e' es ih =>
    change (step s e').bind _ = ((step s e').bind _).bind _
    rw [Option.bind_assoc]
    exact Option.bind_congr fun t _ => ih

/-- A part of the state that goes its own way is led by the same steps. -/
theorem run_map {τ : Type w} {step' : τ → ε → Option τ} {f : σ → τ}
    (hstep : ∀ s e, (step s e).map f = step' (f s) e) (s : σ) (es : List ε) :
    (run step s es).map f = run step' (f s) es := by
  induction es generalizing s with
  | nil => rfl
  | cons e es ih =>
    change ((step s e).bind _).map f = (step' (f s) e).bind _
    rw [← hstep s e, Option.map_bind, Option.bind_map]
    exact Option.bind_congr fun t _ => ih t

theorem occurs_iff {p : σ → ε → Prop} {es : List ε} : Occurs step p s es ↔
    Sometime (fun before e => ∃ t, run step s before = some t ∧ p t e) es := by
  constructor
  · rintro ⟨before, e, after, t, hes, hr, hp⟩
    exact ⟨before, e, after, hes, t, hr, hp⟩
  · rintro ⟨before, e, after, hes, t, hr, hp⟩
    exact ⟨before, e, after, t, hes, hr, hp⟩

theorem occurs_nil (p : σ → ε → Prop) : ¬ Occurs step p s [] :=
  fun h => sometime_nil _ (occurs_iff.mp h)

/-- The last step of a list is it, or it was there before. -/
theorem occurs_concat {p : σ → ε → Prop} {es : List ε} {e : ε} (h : run step s es = some t) :
    Occurs step p s (es ++ [e]) ↔ Occurs step p s es ∨ p t e := by
  have hlast : (∃ t', run step s es = some t' ∧ p t' e) ↔ p t e := by simp [h]
  rw [occurs_iff, occurs_iff, sometime_concat, hlast]

/-- What no step of a list is allowed to be does not occur in it. -/
theorem not_occurs_of_guarded {p : σ → ε → Prop} [∀ s e, Decidable (¬ p s e)] {es : List ε}
    (h : run (guarded step fun s e => ¬ p s e) s es = some t) :
    run step s es = some t ∧ ¬ Occurs step p s es := by
  induction es using List.reverseRecOn generalizing t with
  | nil => exact ⟨h, occurs_nil _⟩
  | append_singleton es e ih =>
    rw [run_concat] at h
    obtain ⟨u, hu, hlast⟩ := Option.bind_eq_some_iff.mp h
    obtain ⟨hrun, hnot⟩ := ih hu
    unfold guarded at hlast
    split at hlast
    case isTrue hp =>
      refine ⟨?_, fun hoccurs => ((occurs_concat hrun).mp hoccurs).elim hnot hp⟩
      rw [run_concat, hrun]
      exact hlast
    case isFalse => cases hlast

theorem always_last {I : σ → Prop} {es : List ε} (hI : Always step I s es)
    (h : run step s es = some t) : I t :=
  hI es [] t (List.append_nil es).symm h

theorem always_concat {I : σ → Prop} {es : List ε} {e : ε} (h : run step s (es ++ [e]) = some t) :
    Always step I s (es ++ [e]) ↔ Always step I s es ∧ I t := by
  constructor
  · intro hI
    refine ⟨fun before after u hes hu => ?_, always_last hI h⟩
    exact hI before (after ++ [e]) u (by rw [hes, List.append_assoc]) hu
  · rintro ⟨hI, hlast⟩ before after u hes hu
    rcases List.eq_nil_or_concat after with rfl | ⟨after, e', rfl⟩
    · rw [List.append_nil] at hes
      rw [← hes, h] at hu
      cases hu
      exact hlast
    · rw [List.concat_eq_append, ← List.append_assoc] at hes
      exact hI before after u (List.append_inj' hes rfl).1 hu

/-- What holds at first, and is lost by the bad steps only, holds all the way as long as none
of them is taken; where its loss depends on more, an invariant tells which these are. -/
theorem always_iff {allowed : ε → Prop} {J I : σ → Prop} {bad : σ → ε → Prop} {es : List ε}
    (hJ : J s) (hI : I s)
    (hstep : ∀ t e t', J t → allowed e → step t e = some t' → J t' ∧ (I t → (I t' ↔ ¬ bad t e)))
    (hes : ∀ e ∈ es, allowed e) (h : run step s es = some t) :
    J t ∧ (Always step I s es ↔ ¬ Occurs step bad s es) := by
  induction es using List.reverseRecOn generalizing t with
  | nil =>
    cases h
    refine ⟨hJ, iff_of_true (fun before after t hes ht => ?_) (occurs_nil _)⟩
    obtain ⟨rfl, -⟩ := List.append_eq_nil_iff.mp hes.symm
    cases ht
    exact hI
  | append_singleton es e ih =>
    have hrun := h
    rw [run_concat] at hrun
    obtain ⟨u, hu, hlast⟩ := Option.bind_eq_some_iff.mp hrun
    obtain ⟨hJu, ih⟩ := ih (fun e he => hes e (List.mem_append_left _ he)) hu
    obtain ⟨hJt, hloss⟩ := hstep u e t hJu (hes e (by simp)) hlast
    refine ⟨hJt, ?_⟩
    rw [always_concat h, occurs_concat hu, not_or, ih]
    refine and_congr_right fun hnot => ?_
    exact hloss (always_last (ih.mpr hnot) hu)

end

namespace Reaches
variable {σ : Type u} {ε : Type v} {step : σ → ε → Option σ} {allowed : σ → ε → Prop}
  {s₀ s s' : σ}

/-- What holds at first and is kept by every allowed step holds in every state reached. -/
theorem invariant {I : σ → Prop} (h : Reaches step allowed s₀ s) (h₀ : I s₀)
    (hstep : ∀ s e s', I s → allowed s e → step s e = some s' → I s') : I s := by
  induction h with
  | start => exact h₀
  | step e _ ha hs ih => exact hstep _ e _ ih ha hs

theorem trans (h : Reaches step allowed s₀ s) (h' : Reaches step allowed s s') :
    Reaches step allowed s₀ s' := by
  induction h' with
  | start => exact h
  | step e _ ha hs ih => exact .step e ih ha hs

/-- A list of steps that can be taken, and may be, leads to a state that is reached. -/
theorem of_run {es : List ε} (hes : ∀ s, ∀ e ∈ es, allowed s e) (hr : run step s₀ es = some s) :
    Reaches step allowed s₀ s := by
  induction es generalizing s₀ with
  | nil =>
    cases hr
    exact .start
  | cons e es ih =>
    obtain ⟨s', hs', hr⟩ := Option.bind_eq_some_iff.mp hr
    have hone : Reaches step allowed s₀ s' := .step e .start (hes s₀ e (by simp)) hs'
    exact hone.trans (ih (fun s e he => hes s e (by simp [he])) hr)

/-- The same where it depends on the states on the way whether a step may be taken. -/
theorem of_guarded_run [∀ s e, Decidable (allowed s e)] {es : List ε}
    (hr : run (guarded step allowed) s₀ es = some s) : Reaches step allowed s₀ s := by
  induction es generalizing s₀ with
  | nil =>
    cases hr
    exact .start
  | cons e es ih =>
    obtain ⟨s', hs', hr⟩ := Option.bind_eq_some_iff.mp hr
    unfold guarded at hs'
    split at hs'
    case isTrue hallowed =>
      have hone : Reaches step allowed s₀ s' := .step e .start hallowed hs'
      exact hone.trans (ih hr)
    · cases hs'

end Reaches

end ParleVision.Lib
