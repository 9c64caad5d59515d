import Mathlib.Data.List.ProdSigma
import Mathlib.Logic.Function.Iterate
import Mathlib.Data.List.Nodup
import Mathlib.Tactic.Common

namespace ParleVision.Lib

/-- The values of `for( i = lo; i < hi; ++i )`. -/
def span (lo hi : Int) : List Int := (List.range (hi - lo).toNat).map fun (n : Nat) => lo + n

theorem mem_span {lo hi i : Int} : i ∈ span lo hi ↔ lo ≤ i ∧ i < hi := by
  unfold span
  rw [List.mem_map]
  constructor
  · rintro ⟨n, hn, rfl⟩
    have := List.mem_range.mp hn
    omega
  · intro h
    exact ⟨(i - lo).toNat, List.mem_range.mpr (by omega), by omega⟩

theorem span_nodup (lo hi : Int) : (span lo hi).Nodup := by
  refine List.nodup_range.map fun m n h => ?_
  change lo + (m : Int) = lo + n at h
  omega

section
variable {ι : Type u} {κ : Type v} {σ : Type w}

/-- A counter that a loop carries along. -/
theorem foldlM_counter (next : κ → κ) (body : κ → Nat → σ → Option σ) (n : Nat) (c : κ) (s : σ) :
    (List.range n).foldlM (fun (p : κ × σ) x =>
        (body p.1 x p.2).map fun s' => (next p.1, s')) (c, s) =
      ((List.range n).foldlM (fun s x => body (next^[x] c) x s) s).map
        fun s' => (next^[n] c, s') := by
  induction n with
  | zero => rfl
  | succ n ih =>
    rw [List.range_succ, List.foldlM_append, List.foldlM_append, ih]
    cases (List.range n).foldlM (fun s x => body (next^[x] c) x s) s with
    | none => rfl
    | some t =>
      rw [Function.iterate_succ_apply']
      change ((body (next^[n] c) n t).map _).bind some =
        ((body (next^[n] c) n t).bind some).map _
      rw [Option.bind_fun_some, Option.bind_fun_some]

/-- A loop in a loop runs over all pairs. -/
theorem foldlM_product (is : List ι) (js : List κ) (body : σ → ι → κ → Option σ) (s : σ) :
    is.foldlM (fun s i => js.foldlM (fun s j => body s i j) s) s =
      (is ×ˢ js).foldlM (fun s p => body s p.1 p.2) s := by
  induction is generalizing s with
  | nil => rfl
  | cons i is ih =>
    rw [List.foldlM_cons, List.product_cons, List.foldlM_append, List.foldlM_map]
    exact bind_congr fun s' => ih s'

end

section
variable {ι : Type u} {α : Type v} {β : Type w} [DecidableEq α] {pos : ι → α}
  {v : ι → β → Option β}

/-- A loop that writes every place at most once: each gets the value for what was there
before the loop. -/
theorem foldlM_update_iff {is : List ι} (hd : (is.map pos).Nodup) {f f' : α → β} :
    is.foldlM (fun f i => (v i (f (pos i))).map (Function.update f (pos i))) f = some f' ↔
      (∀ i ∈ is, v i (f (pos i)) = some (f' (pos i))) ∧ ∀ a ∉ is.map pos, f' a = f a := by
  induction is generalizing f with
  | nil =>
    simp only [List.foldlM_nil, List.map_nil]
    constructor
    · intro h
      cases h
      exact ⟨(fun i hi => by cases hi), fun _ _ => rfl⟩
    · rintro ⟨-, h⟩
      exact congrArg some (funext fun a => (h a List.not_mem_nil).symm)
  | cons i is ih =>
    rw [List.map_cons, List.nodup_cons] at hd
    rw [List.foldlM_cons]
    cases hv : v i (f (pos i)) with
    | none =>
      refine iff_of_false (by simp) fun h => ?_
      have := h.1 i List.mem_cons_self
      rw [hv] at this
      cases this
    | some b =>
      have hother : ∀ j ∈ is, Function.update f (pos i) b (pos j) = f (pos j) := by
        intro j hj
        refine Function.update_of_ne (fun heq => hd.1 ?_) _ _
        exact heq ▸ List.mem_map_of_mem hj
      change List.foldlM _ (Function.update f (pos i) b) is = some f' ↔ _
      rw [ih hd.2]
      constructor
      · rintro ⟨hwritten, hrest⟩
        have hi : f' (pos i) = b := by
          rw [hrest (pos i) hd.1, Function.update_self]
        refine ⟨fun j hj => ?_, fun a ha => ?_⟩
        · rcases List.mem_cons.mp hj with rfl | hj
          · rw [hv, hi]
          · rw [← hwritten j hj, hother j hj]
        · rw [List.map_cons, List.mem_cons, not_or] at ha
          rw [hrest a ha.2, Function.update_of_ne ha.1]
      · rintro ⟨hwritten, hrest⟩
        have hi : f' (pos i) = b := by
          have := hwritten i List.mem_cons_self
          rw [hv] at this
          exact (Option.some.inj this).symm
        refine ⟨fun j hj => ?_, fun a ha => ?_⟩
        · rw [hother j hj]
          exact hwritten j (List.mem_cons_of_mem _ hj)
        · by_cases hsame : a = pos i
          · rw [hsame, Function.update_self, hi]
          · rw [Function.update_of_ne hsame]
            refine hrest a fun hmem => ?_
            rcases List.mem_cons.mp hmem with heq | hmem
            · exact hsame heq
            · exact ha hmem

/-- It comes to its end if and only if each value exists. -/
theorem foldlM_update_isSome {is : List ι} (hd : (is.map pos).Nodup) {f : α → β} :
    (∃ f', is.foldlM (fun f i => (v i (f (pos i))).map (Function.update f (pos i))) f =
      some f') ↔ ∀ i ∈ is, (v i (f (pos i))).isSome := by
  constructor
  · rintro ⟨f', h⟩ i hi
    rw [((foldlM_update_iff hd).mp h).1 i hi]
    rfl
  · intro h
    induction is generalizing f with
    | nil => exact ⟨f, rfl⟩
    | cons i is ih =>
      rw [List.map_cons, List.nodup_cons] at hd
      obtain ⟨b, hb⟩ := Option.isSome_iff_exists.mp (h i List.mem_cons_self)
      rw [List.foldlM_cons, hb]
      refine ih hd.2 fun j hj => ?_
      have hne : pos j ≠ pos i := by
        intro heq
        have hmem := List.mem_map_of_mem (f := pos) hj
        rw [heq] at hmem
        exact hd.1 hmem
      rw [Function.update_of_ne hne]
      exact h j (List.mem_cons_of_mem _ hj)

end

end ParleVision.Lib
