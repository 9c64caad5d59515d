import ParleVision.Lib.Run

namespace ParleVision.Lib

/-- A list of steps, each allowed where it is taken, and the state they lead to. -/
inductive Path {σ : Type u} {ε : Type v} (step : σ → ε → Option σ) (allowed : σ → ε → Prop)
    (s₀ : σ) : List ε → σ → Prop where
  | nil : Path step allowed s₀ [] s₀
  | concat {es : List ε} {s s' : σ} (e : ε) : Path step allowed s₀ es s → allowed s e →
      step s e = some s' → Path step allowed s₀ (es ++ [e]) s'

namespace Path
variable {σ : Type u} {ε : Type v} {step : σ → ε → Option σ} {allowed : σ → ε → Prop}
  {s s' t : σ} {es es' : List ε}

theorem cons (e : ε) (ha : allowed s e) (hs : step s e = some s')
    (h : Path step allowed s' es t) : Path step allowed s (e :: es) t := by
  induction h with
  | nil => exact .concat e .nil ha hs
  | concat e' _ ha' hs' ih => exact .concat e' ih ha' hs'

theorem append (h : Path step allowed s es s') (h' : Path step allowed s' es' t) :
    Path step allowed s (es ++ es') t := by
  induction h' with
  | nil => rwa [List.append_nil]
  | concat e _ ha hs ih =>
    rw [← List.append_assoc]
    exact .concat e ih ha hs

theorem of_guarded_run [∀ s e, Decidable (allowed s e)]
    (hr : run (guarded step allowed) s es = some t) : Path step allowed s es t := by
  induction es generalizing s with
  | nil =>
    cases hr
    exact .nil
  | cons e es ih =>
    obtain ⟨s', hs', hr⟩ := Option.bind_eq_some_iff.mp hr
    unfold guarded at hs'
    split at hs'
    case isTrue hallowed => exact cons e hallowed hs' (ih hr)
    · cases hs'

/-- What is kept by every allowed step is kept by a path. -/
theorem invariant {I : σ → Prop} (h : Path step allowed s es t) (hI : I s)
    (hstep : ∀ s e s', I s → allowed s e → step s e = some s' → I s') : I t := by
  induction h with
  | nil => exact hI
  | concat e _ ha hs ih => exact hstep _ e _ ih ha hs

/-- What comes of each of the steps so far comes of the whole path. -/
theorem induction_on {J : List ε → σ → Prop} {I : σ → Prop} (h : Path step allowed s es t)
    (hI : I s) (hJ : J [] s)
    (hstep : ∀ es s e s', I s → J es s → allowed s e → step s e = some s' →
      I s' ∧ J (es ++ [e]) s') : I t ∧ J es t := by
  induction h with
  | nil => exact ⟨hI, hJ⟩
  | concat e _ ha hs ih => exact hstep _ _ e _ ih.1 ih.2 ha hs

end Path

inductive Repeats {σ : Type u} (r : σ → σ → Prop) (s₀ : σ) : Nat → σ → Prop where
  | zero : Repeats r s₀ 0 s₀
  | succ {n : Nat} {s s' : σ} : Repeats r s₀ n s → r s s' → Repeats r s₀ (n + 1) s'

namespace Repeats
variable {σ : Type u} {r : σ → σ → Prop} {s t : σ} {n : Nat} {I : σ → Prop}

theorem invariant (h : Repeats r s n t) (hI : I s) (hstep : ∀ s s', I s → r s s' → I s') : I t := by
  induction h with
  | zero => exact hI
  | succ _ hr ih => exact hstep _ _ ih hr

theorem trans {m : Nat} {u : σ} (h : Repeats r s n t) (h' : Repeats r t m u) :
    Repeats r s (n + m) u := by
  induction h' with
  | zero => exact h
  | succ _ hr ih => exact .succ ih hr

/-- A measure that goes down as long as there is something left comes to nothing. -/
theorem exhausts {μ : σ → Nat} (h : Repeats r s n t) (hI : I s)
    (hstep : ∀ s s', I s → r s s' → I s' ∧ μ s' ≤ μ s - 1) (hn : μ s ≤ n) :
    μ t = 0 := by
  have hboth : I t ∧ μ t ≤ μ s - n := by
    clear hn
    induction h with
    | zero => exact ⟨hI, Nat.le_refl _⟩
    | succ _ hr ih =>
      obtain ⟨hi, hle⟩ := ih
      obtain ⟨hi', hle'⟩ := hstep _ _ hi hr
      exact ⟨hi', by omega⟩
  omega

end Repeats

end ParleVision.Lib
