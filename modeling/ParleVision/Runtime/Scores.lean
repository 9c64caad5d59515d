import ParleVision.Runtime.Frames
import Mathlib.Algebra.Order.BigOperators.Group.List
import Mathlib.Algebra.Order.Group.Nat

namespace ParleVision.Runtime
open Lib

variable {E P C : Type} {net : Network E P C} {first : Nat} {stale : E → Nat → Nat}

theorem sum_map_succ {α : Type} {l : List α} {f g : α → Nat} {a : α} (hnodup : l.Nodup)
    (ha : a ∈ l) (hself : g a = f a + 1) (hother : ∀ b ∈ l, b ≠ a → g b = f b) :
    (l.map g).sum = (l.map f).sum + 1 := by
  induction l with
  | nil => cases ha
  | cons b l ih =>
    obtain ⟨hb, hnodup⟩ := List.nodup_cons.mp hnodup
    rw [List.map_cons, List.map_cons, List.sum_cons, List.sum_cons]
    by_cases hba : b = a
    · subst b
      have hrest : l.map g = l.map f := by
        apply List.map_congr_left
        intro b hbl
        exact hother b (List.mem_cons_of_mem a hbl) fun he => hb (he ▸ hbl)
      rw [hself, hrest]
      omega
    · have hal : a ∈ l := (List.mem_cons.mp ha).resolve_left fun he => hba he.symm
      rw [ih hnodup hal fun b' hb' => hother b' (List.mem_cons_of_mem b hb'),
        hother b (List.mem_cons_self ..) hba]
      omega

/-- How often a value comes as the serial in a list. -/
def times (l : List Nat) (value : Nat) : Nat := (l.map unsigned).count value

theorem times_append (l l' : List Nat) (value : Nat) :
    times (l ++ l') value = times l value + times l' value := by
  rw [times, List.map_append, List.count_append]
  rfl

theorem times_singleton (x value : Nat) :
    times [x] value = if value = unsigned x then 1 else 0 := by
  rw [times, List.map_singleton, List.count_singleton]
  exact if_congr (beq_iff_eq.trans eq_comm) rfl rfl

theorem times_le_of_sublist {l l' : List Nat} (h : l.Sublist l') (value : Nat) :
    times l value ≤ times l' value := (h.map unsigned).count_le value

theorem length_le_of_times_le {l l' : List Nat} (h : ∀ value, times l value ≤ times l' value) :
    l.length ≤ l'.length := by
  have hsub : List.Subperm (l.map unsigned) (l'.map unsigned) :=
    List.subperm_ext_iff.mpr fun value _ => h value
  simpa using hsub.length_le

/-- How often a serial with this value was notified on the synchronous pins. -/
def Flow.scored (net : Network E P C) (f : Flow E C) (e : E) (value : Nat) : Nat :=
  ((net.syncInputs e).map fun c => times (f.notified c) value).sum

/-- The scoreboards balance: each notification is counted or was announced, whatever serials
there are. -/
structure Scored (net : Network E P C) (stale : E → Nat → Nat) (f : Flow E C) : Prop where
  balance : ∀ e value, net.m_pincount e * times (f.announced e) value + f.m_lookup e value =
    stale e value + f.scored net e value
  low : ∀ e, net.m_hasSynchronousPin e = true → ∀ value, times (f.announced e) value ≠ 0 →
    stale e value < net.m_pincount e
  silent : ∀ e, net.isProducer e = false → (∀ c, net.target c ≠ e) → f.announced e = []

theorem m_pincount_of_not {e : E} (h : ¬ net.m_hasSynchronousPin e = true) :
    net.m_pincount e = 0 ∧ net.syncInputs e = [] := by
  have hnil : net.syncInputs e = [] := by
    rw [Network.syncInputs, List.filter_eq_nil_iff]
    exact fun c hc hs => h (List.any_eq_true.mpr ⟨c, hc, hs⟩)
  exact ⟨by rw [net.m_pincount_eq, hnil]; rfl, hnil⟩

theorem started_scored :
    Scored net stale (PipelineState.started first stale : PipelineState E P C).flow := by
  constructor
  case balance =>
    intro e value
    have hnone : Flow.scored net (PipelineState.started first stale : PipelineState E P C).flow e
        value = 0 := by
      apply List.sum_eq_zero
      intro n hn
      obtain ⟨c, -, rfl⟩ := List.mem_map.mp hn
      rfl
    rw [hnone]
    change _ * 0 + stale e value = _
    omega
  case low => exact fun e _ value h => absurd rfl h
  case silent => exact fun _ _ _ => rfl

/-- Only these fields are in it, and those without a synchronous pin may be announced. -/
theorem Scored.congr {f f' : Flow E C} (h : Scored net stale f)
    (hannounced : ∀ e, net.m_hasSynchronousPin e = true ∨
      net.isProducer e = false ∧ (∀ c, net.target c ≠ e) → f'.announced e = f.announced e)
    (hscored : ∀ e value, f'.scored net e value = f.scored net e value)
    (hlookup : f'.m_lookup = f.m_lookup) : Scored net stale f' := by
  constructor
  case balance =>
    intro e value
    have hold := h.balance e value
    rw [hscored, hlookup]
    by_cases hhas : net.m_hasSynchronousPin e = true
    · rw [hannounced e (.inl hhas)]
      exact hold
    · rw [(m_pincount_of_not hhas).1, Nat.zero_mul] at hold ⊢
      exact hold
  case low =>
    intro e hhas value
    rw [hannounced e (.inl hhas)]
    exact h.low e hhas value
  case silent =>
    intro e he hnone
    rw [hannounced e (.inr ⟨he, hnone⟩)]
    exact h.silent e he hnone

variable [DecidableEq E] {s s' : PipelineState E P C}

theorem Scored.turn (h : Scored net stale s.flow)
    (hproducing : ∀ todo, s.phase = .producing todo →
      todo.Nodup ∧ ∀ e ∈ todo, net.isProducer e = true)
    (ht : Turn net s s') : Scored net stale s'.flow := by
  cases ht with
  | moves => exact h
  | reaps => exact h
  | dispatches _ hq _ _ hf =>
    refine h.congr (fun e _ => ?_) (fun _ _ => by rw [hf]; rfl) (by rw [hf]; rfl)
    rw [hf, Flow.announced_dispatch hq]
  | @produces e _ _ hphase _ _ hf =>
    have he := (hproducing _ hphase).2 e (List.mem_cons_self ..)
    refine h.congr ?_ (fun _ _ => by rw [hf]; rfl) (by rw [hf]; rfl)
    intro e' he'
    have hne : e' ≠ e := by
      rintro rfl
      rw [he, net.producer_m_hasSynchronousPin he] at he'
      obtain he' | ⟨he', -⟩ := he'
      all_goals cases he'
    rw [hf]
    change Function.update s.dispatched e _ e' ++ _ = _
    rw [Function.update_of_ne hne]
    rfl
  | ticks => exact h.congr (fun _ _ => rfl) (fun _ _ => rfl) rfl

variable [DecidableEq C]

theorem Announces.scored_of_ne {f f' : Flow E C} {c : C} (hf : Announces net f c f') {e : E}
    (hne : e ≠ net.target c) (value : Nat) : f'.scored net e value = f.scored net e value := by
  rw [Flow.scored, Flow.scored]
  congr 1
  apply List.map_congr_left
  intro c' hc'
  have hcc : c' ≠ c := fun he => hne (by rw [← ((net.mem_syncInputs e c').mp hc').1, he])
  rw [hf.notified, Function.update_of_ne hcc]

/-- The serial that is announced counts for its own value. -/
theorem Announces.scored_target {f f' : Flow E C} {c : C} (hf : Announces net f c f')
    (hsync : net.isSynchronous c = true) (value : Nat) :
    f'.scored net (net.target c) value = f.scored net (net.target c) value +
      if value = unsigned (f.processingSerial (net.source c)) then 1 else 0 := by
  have hmem := (net.mem_syncInputs _ c).mpr ⟨rfl, hsync⟩
  have hnodup : (net.syncInputs (net.target c)).Nodup := (net.inputs_nodup _).filter _
  have hnotified {c' : C} (hne : c' ≠ c) : f'.notified c' = f.notified c' := by
    rw [hf.notified, Function.update_of_ne hne]
  have hc : times (f'.notified c) value = times (f.notified c) value +
      if value = unsigned (f.processingSerial (net.source c)) then 1 else 0 := by
    rw [hf.notified, Function.update_self, times_append, times_singleton]
  by_cases hv : value = unsigned (f.processingSerial (net.source c))
  · rw [if_pos hv] at hc ⊢
    exact sum_map_succ hnodup hmem hc fun c' _ hne => by rw [hnotified hne]
  · rw [if_neg hv] at hc ⊢
    rw [Nat.add_zero, Flow.scored, Flow.scored]
    congr 1
    apply List.map_congr_left
    intro c' _
    by_cases hne : c' = c
    · rw [hne]
      exact hc
    · rw [hnotified hne]

/-- The row of one serial gets a new count, and what it comes to is announced. -/
theorem Scored.counts {f f' : Flow E C} {c : C} {x : Nat} (h : Scored net stale f)
    (hf : Announces net f c f') (hsync : net.isSynchronous c = true)
    (hx : x = f.processingSerial (net.source c)) {l : List Nat} {count : Nat}
    (hlookup : f'.m_lookup = Function.update f.m_lookup (net.target c)
      (Function.update (f.m_lookup (net.target c)) (unsigned x) count))
    (hannounced : ∀ e, f'.announced e =
      if e = net.target c then f.announced (net.target c) ++ l else f.announced e)
    (hother : ∀ value, value ≠ unsigned x → times l value = 0)
    (hcount : net.m_pincount (net.target c) * times l (unsigned x) + count =
      f.m_lookup (net.target c) (unsigned x) + 1)
    (hfull : times l (unsigned x) ≠ 0 →
      f.m_lookup (net.target c) (unsigned x) < net.m_pincount (net.target c)) :
    Scored net stale f' := by
  have hself := hf.scored_target hsync
  rw [← hx] at hself
  constructor
  case balance =>
    intro e value
    by_cases he : e = net.target c
    · subst e
      have hold := h.balance (net.target c) value
      rw [hannounced, if_pos rfl, hlookup, Function.update_self, hself, times_append, Nat.mul_add]
      by_cases hv : value = unsigned x
      · subst value
        rw [Function.update_self, if_pos rfl]
        omega
      · rw [Function.update_of_ne hv, if_neg hv, hother value hv]
        omega
    · rw [hannounced, if_neg he, hlookup, Function.update_of_ne he, hf.scored_of_ne he]
      exact h.balance e value
  case low =>
    intro e hhas' value
    rw [hannounced]
    by_cases he : e = net.target c
    · subst e
      rw [if_pos rfl, times_append]
      intro hne
      by_cases hold : times (f.announced (net.target c)) value = 0
      · have hl : times l value ≠ 0 := by omega
        have hv : value = unsigned x := by
          by_contra hv
          exact hl (hother value hv)
        subst value
        have hbalance := h.balance (net.target c) (unsigned x)
        have hlt := hfull hl
        rw [hold, Nat.mul_zero, Nat.zero_add] at hbalance
        omega
      · exact h.low _ hhas' value hold
    · rw [if_neg he]
      exact h.low e hhas' value
  case silent =>
    intro e he hnone
    rw [hannounced, if_neg fun heq => hnone c heq.symm]
    exact h.silent e he hnone

/-- An item that is announced on a synchronous pin is scored. -/
theorem Scored.scores {f f' : Flow E C} {c : C} (h : Scored net stale f)
    (hf : Announces net f c f') (hsync : net.isSynchronous c = true) : Scored net stale f' := by
  set x := f.processingSerial (net.source c) with hx
  have hhas : net.m_hasSynchronousPin (net.target c) = true :=
    (net.m_hasSynchronousPin_iff _).mpr ⟨c, rfl, hsync⟩
  obtain ⟨hnot, -⟩ | ⟨-, hnot, -⟩ | ⟨-, -, ⟨hcount, hlookup, hready⟩ | ⟨-, hlookup, hready⟩⟩ :=
    hf.scored
  · rw [hhas] at hnot
    cases hnot
  · rw [hsync] at hnot
    cases hnot
  · refine h.counts (l := [x]) hf hsync hx hlookup ?_ ?_ ?_ ?_
    · intro e
      rw [Flow.announced, hf.dispatched, hready]
      by_cases he : e = net.target c
      · rw [he, Function.update_self, if_pos rfl, ← List.append_assoc]
        rfl
      · rw [Function.update_of_ne he, if_neg he]
        rfl
    · intro value hv
      rw [times_singleton, if_neg hv]
    · rw [times_singleton, if_pos rfl, Nat.mul_one, Nat.add_zero]
      exact hcount.symm
    · exact fun _ => Nat.lt_of_succ_le (Nat.le_of_eq hcount)
  · refine h.counts (l := []) hf hsync hx hlookup ?_ (fun _ _ => rfl) (Nat.zero_add _) (absurd rfl)
    intro e
    rw [Flow.announced, hf.dispatched, hready, List.append_nil]
    split
    case isTrue he => rw [he]; rfl
    case isFalse => rfl

theorem Scored.announces {f f' : Flow E C} {c : C} (h : Scored net stale f)
    (hf : Announces net f c f') : Scored net stale f' := by
  by_cases hsync : net.isSynchronous c = true
  · exact h.scores hf hsync
  · have hscored (e : E) (value : Nat) : f'.scored net e value = f.scored net e value := by
      rw [Flow.scored, Flow.scored]
      congr 1
      apply List.map_congr_left
      intro c' hc'
      have hne : c' ≠ c := by
        rintro rfl
        exact hsync ((net.mem_syncInputs e c').mp hc').2
      rw [hf.notified, Function.update_of_ne hne]
    obtain ⟨hhas, hlookup, hready⟩ | ⟨-, -, hlookup, hready⟩ | ⟨hsync', -⟩ := hf.scored
    · refine h.congr (fun e he => ?_) hscored hlookup
      have hne : e ≠ net.target c := by
        rintro rfl
        obtain he | ⟨-, hnone⟩ := he
        · rw [hhas] at he
          cases he
        · exact hnone c rfl
      rw [Flow.announced, hf.dispatched, hready, Function.update_of_ne hne]
      rfl
    · refine h.congr (fun e _ => ?_) hscored hlookup
      rw [Flow.announced, hf.dispatched, hready]
      rfl
    · exact absurd hsync' hsync

theorem Scored.works {e : E} {action : Action P C} {w' : Worker P C} (h : Scored net stale s.flow)
    (hw : Works net s e action s' w') : Scored net stale s'.flow := by
  have hrun := hw.run
  generalize s'.flow = f' at hrun
  cases hrun with
  | quiet => exact h
  | begins => exact h.congr (fun _ _ => rfl) (fun _ _ => rfl) rfl
  | pushes => exact h.congr (fun _ _ => rfl) (fun _ _ => rfl) rfl
  | announces _ hnew => exact h.announces (newData_announces hnew)
  | takes _ hget =>
    obtain ⟨queue, -, rfl⟩ := get_some hget
    exact h.congr (fun _ _ => rfl) (fun _ _ => rfl) rfl

theorem Scored.step [DecidableEq P] {event : Event E P C} (h : Scored net stale s.flow)
    (ha : Accounted net s) (hs : s.step net event = some s') : Scored net stale s'.flow := by
  cases event with
  | schedule order answer => exact h.turn ha.producing (schedule_cases hs)
  | work e action =>
    obtain ⟨w', hw⟩ := work_cases (ha.shaped e) hs
    exact h.works hw

/-- A row that is complete is removed: no count has come to the number of pins. -/
def Flow.Incomplete (net : Network E P C) (f : Flow E C) : Prop :=
  ∀ e, net.m_hasSynchronousPin e = true → ∀ value, f.m_lookup e value < net.m_pincount e

theorem Flow.Incomplete.announces {f f' : Flow E C} {c : C} (h : f.Incomplete net)
    (hf : Announces net f c f') : f'.Incomplete net := by
  intro e hhas value
  obtain ⟨-, hlookup, -⟩ | ⟨-, -, hlookup, -⟩ |
    ⟨-, -, ⟨hcount, hlookup, -⟩ | ⟨hcount, hlookup, -⟩⟩ := hf.scored
  · rw [hlookup]
    exact h e hhas value
  · rw [hlookup]
    exact h e hhas value
  all_goals
    have hold := h e hhas value
    rw [hlookup]
    by_cases he : e = net.target c
    · subst e
      rw [Function.update_self]
      by_cases hv : value = unsigned (f.processingSerial (net.source c))
      · subst value
        rw [Function.update_self]
        omega
      · rw [Function.update_of_ne hv]
        exact hold
    · rw [Function.update_of_ne he]
      exact hold

theorem Flow.Incomplete.step [DecidableEq P] {event : Event E P C} (h : s.flow.Incomplete net)
    (ha : Accounted net s) (hs : s.step net event = some s') : s'.flow.Incomplete net := by
  cases event with
  | schedule order answer =>
    have ht : Turn net s s' := schedule_cases hs
    cases ht with
    | moves => exact h
    | reaps => exact h
    | dispatches _ _ _ _ hf => rw [hf]; exact h
    | produces _ _ _ hf => rw [hf]; exact h
    | ticks => exact h
  | work e action =>
    obtain ⟨w', hw⟩ := work_cases (ha.shaped e) hs
    have hrun := hw.run
    generalize s'.flow = f' at hrun
    cases hrun with
    | quiet => exact h
    | begins => exact h
    | pushes => exact h
    | announces _ hnew => exact h.announces (newData_announces hnew)
    | takes _ hget =>
      obtain ⟨queue, -, rfl⟩ := get_some hget
      exact h

omit [DecidableEq E] in
/-- No element is announced more often than there were frames, even for one value of the serial. -/
theorem Scored.times_le (h : Scored net stale s.flow) (ha : Accounted net s)
    (hf : Framed net first s) (hacyclic : net.Acyclic) (hsync : ∀ c, net.isSynchronous c = true)
    (e : E) (value : Nat) :
    times (s.flow.announced e) value ≤ times (List.range' first (s.next - first)) value := by
  induction e using hacyclic.induction with
  | hstep e ih =>
    cases hp : net.isProducer e with
    | true => exact times_le_of_sublist (hf.dispatched_isPrefix hp).sublist value
    | false =>
      by_cases hhas : net.m_hasSynchronousPin e = true
      · by_contra hlt
        have hbalance := h.balance e value
        have hlow := h.low e hhas value (by omega)
        have hsum : s.flow.scored net e value ≤
            net.m_pincount e * times (List.range' first (s.next - first)) value := by
          have hlength : (net.syncInputs e).length =
              ((net.syncInputs e).map fun c => times (s.notified c) value).length :=
            (List.length_map _).symm
          rw [net.m_pincount_eq, Flow.scored, hlength, ← Nat.nsmul_eq_mul]
          apply List.sum_le_card_nsmul
          intro n hn
          obtain ⟨c, hc, rfl⟩ := List.mem_map.mp hn
          exact Nat.le_trans (times_le_of_sublist (ha.notified_announced c) value)
            (ih c ((net.mem_syncInputs e c).mp hc).1)
        have hmul := Nat.mul_le_mul_left (net.m_pincount e) (Nat.lt_of_not_le hlt)
        rw [Nat.mul_succ] at hmul
        omega
      · have hnone (c : C) : net.target c ≠ e := by
          intro hc
          exact hhas ((net.m_hasSynchronousPin_iff e).mpr ⟨c, hc, hsync c⟩)
        rw [h.silent e hp hnone]
        exact Nat.zero_le _

end ParleVision.Runtime
