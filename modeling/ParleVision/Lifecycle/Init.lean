import ParleVision.Lifecycle.FailedStart

namespace ParleVision.Lifecycle
open Lib ParleVision.Graph

def Ending.throws : Ending → Bool
  | .returns _ => false
  | .throwsPlv | .throwsOther => true

namespace ElementState

/-- `init` is seen to fail: it throws, or it returns false and there is an error then. -/
def initFails (e : ElementState) (call : Call) : Bool :=
  match call.ending with
  | .returns true => false
  | .returns false => (e.during call.setError).m_errorType ≠ .PlvNoError
  | .throwsPlv | .throwsOther => true

theorem during_m_state (e : ElementState) (error : Option PlvErrorType) :
    (e.during error).m_state = if error = none then e.m_state else .PLE_ERROR := by
  cases error with
  | none => rfl
  | some type => rfl

/-- What `__init` makes of an undefined element. -/
theorem init_cases {e : ElementState} (call : Call) (h : e.m_state = .PLE_UNDEFINED) :
    ∃ e', e.init call = some (e', call.ending) ∧
      (e.initFails call = true ↔ Pipeline.initError e' call.ending ≠ .PlvNoError) ∧
      e'.m_state = match call.ending with
        | .returns true => .PLE_INITIALIZED
        | .returns false => .PLE_ERROR
        | .throwsPlv | .throwsOther =>
          if call.setError = none then .PLE_UNDEFINED else .PLE_ERROR := by
  unfold init initFails
  rw [if_pos h]
  cases call.ending with
  | returns b =>
    cases b with
    | true => exact ⟨_, rfl, by simp [Pipeline.initError], rfl⟩
    | false => exact ⟨_, rfl, by simp [Pipeline.initError, setState], rfl⟩
  | throwsPlv =>
    refine ⟨_, rfl, by simp [Pipeline.initError], ?_⟩
    rw [during_m_state, h]
  | throwsOther =>
    refine ⟨_, rfl, by simp [Pipeline.initError], ?_⟩
    rw [during_m_state, h]

/-- When `init` is seen to fail, and what it leaves behind then and else. -/
theorem init_outcome {e : ElementState} (call : Call) (h : e.m_state = .PLE_UNDEFINED) :
    ∃ e', e.init call = some (e', call.ending) ∧
      (e.initFails call = true ↔ Pipeline.initError e' call.ending ≠ .PlvNoError) ∧
      (e.initFails call = true → e'.m_state =
        if call.ending.throws ∧ call.setError = none then .PLE_UNDEFINED else .PLE_ERROR) ∧
      (e.initFails call = false → e'.m_state = .PLE_ERROR ∨ e'.m_state = .PLE_INITIALIZED) ∧
      (call.ending = .returns true → e'.m_state = .PLE_INITIALIZED) := by
  obtain ⟨e', hinit, hfails, hstate⟩ := init_cases call h
  refine ⟨e', hinit, hfails, fun hf => ?_, fun hf => ?_, fun htrue => by rw [hstate, htrue]⟩
  · rw [hstate]
    cases hend : call.ending with
    | returns b =>
      cases b with
      | true => simp [initFails, hend] at hf
      | false => rfl
    | throwsPlv | throwsOther => simp [Ending.throws]
  · rw [hstate]
    cases hend : call.ending with
    | returns b =>
      cases b with
      | true => exact .inr rfl
      | false => exact .inl rfl
    | throwsPlv | throwsOther => simp [initFails, hend] at hf

theorem deinit_some {e : ElementState} {call : SafeCall} (hreturns : call.returns = true)
    (h : e.m_state = .PLE_ERROR ∨ e.m_state = .PLE_INITIALIZED) :
    ∃ e', e.deinit call = some (e', true) := by
  rw [deinit, if_pos h]
  simp [hreturns]

end ElementState

namespace Pipeline

variable {hooks : ElemPtr → Hooks}

/-- The elements can be deinitialised one after the other. -/
theorem deinitEach_some (st : States) {ps : List ElemPtr} (hnodup : ps.Nodup)
    (hreturns : ∀ p ∈ ps, (hooks p).deinit.returns = true)
    (h : ∀ p ∈ ps, (st p).m_state = .PLE_ERROR ∨ (st p).m_state = .PLE_INITIALIZED) :
    ∃ st', deinitEach hooks ps st = some st' := by
  induction ps generalizing st with
  | nil => exact ⟨st, rfl⟩
  | cons p ps ih =>
    obtain ⟨hnot, hnodup⟩ := List.nodup_cons.mp hnodup
    have hself := List.mem_cons_self (a := p) (l := ps)
    obtain ⟨e, he⟩ := ElementState.deinit_some (hreturns p hself) (h p hself)
    rw [deinitEach, he]
    apply ih _ hnodup
    · exact fun q hq => hreturns q (List.mem_cons_of_mem p hq)
    · intro q hq
      have hne : q ≠ p := fun heq => hnot (heq ▸ hq)
      rw [Function.update_of_ne hne]
      exact h q (List.mem_cons_of_mem p hq)

/-- The element that failed and those before it are deinitialised. -/
theorem deinitEach_failed (order : HashOrder ElemPtr) (st : States) {p : ElemPtr}
    {initialized ps : List ElemPtr} {e : ElementState} (hnodup : (initialized ++ p :: ps).Nodup)
    (hreturns : ∀ q ∈ initialized ++ p :: ps, (hooks q).deinit.returns = true)
    (hundefined : ∀ q ∈ ps, (st q).m_state = .PLE_UNDEFINED)
    (hready : ∀ q ∈ initialized, (st q).m_state = .PLE_ERROR ∨ (st q).m_state = .PLE_INITIALIZED)
    (herror : e.m_state = .PLE_ERROR) :
    ∃ st', deinitEach hooks (p :: order.order initialized) (Function.update st p e) = some st' ∧
      ∀ q ∈ initialized ++ p :: ps, (st' q).m_state = .PLE_UNDEFINED := by
  obtain ⟨hnot, hrest⟩ := List.nodup_cons.mp (List.nodup_middle.mp hnodup)
  rw [List.mem_append, not_or] at hnot
  have hperm := order.perm initialized
  have hall {q : ElemPtr} (hq : q ∈ p :: order.order initialized) : q ∈ initialized ++ p :: ps := by
    rw [List.mem_cons, hperm.mem_iff] at hq
    rw [List.mem_append, List.mem_cons]
    exact hq.elim (fun h => .inr (.inl h)) .inl
  have hdeinit : ∀ q ∈ p :: order.order initialized, (hooks q).deinit.returns = true :=
    fun q hq => hreturns q (hall hq)
  obtain ⟨st', hst'⟩ := deinitEach_some (Function.update st p e)
    (List.nodup_cons.mpr ⟨fun hq => hnot.1 (hperm.mem_iff.mp hq),
      hperm.nodup_iff.mpr (List.nodup_append.mp hrest).1⟩) hdeinit (by
      intro q hq
      obtain rfl | hq := List.mem_cons.mp hq
      · rw [Function.update_self]
        exact .inl herror
      · rw [hperm.mem_iff] at hq
        have hne : q ≠ p := fun he => hnot.1 (he ▸ hq)
        rw [Function.update_of_ne hne]
        exact hready q hq)
  obtain ⟨hin, hout⟩ := deinitEach_undefined hdeinit hst'
  refine ⟨st', hst', fun q hq => ?_⟩
  by_cases hmem : q ∈ p :: order.order initialized
  · exact hin q hmem
  · rw [List.mem_cons, hperm.mem_iff, not_or] at hmem
    rw [List.mem_append, List.mem_cons] at hq
    have hqs : q ∈ ps := (hq.resolve_left hmem.2).resolve_left hmem.1
    rw [hout q (by rw [List.mem_cons, hperm.mem_iff, not_or]; exact hmem),
      Function.update_of_ne hmem.1]
    exact hundefined q hqs

/-- What the loop of `Pipeline::init` comes to, given the first element that is seen to fail. -/
theorem initLoop_find (order : HashOrder ElemPtr) (st : States) {ps : List ElemPtr}
    (initialized : List ElemPtr) (hnodup : (initialized ++ ps).Nodup)
    (hreturns : ∀ p ∈ initialized ++ ps, (hooks p).deinit.returns = true)
    (hundefined : ∀ p ∈ ps, (st p).m_state = .PLE_UNDEFINED)
    (hready : ∀ p ∈ initialized, (st p).m_state = .PLE_ERROR ∨ (st p).m_state = .PLE_INITIALIZED) :
    match ps.find? fun p => (st p).initFails (hooks p).init with
    | none => ∃ st', initLoop hooks order ps initialized st = some (st', some (initialized ++ ps)) ∧
        (∀ p ∈ ps, (hooks p).init.ending = .returns true → (st' p).m_state = .PLE_INITIALIZED) ∧
        ∀ p, p ∉ ps → st' p = st p
    | some p => if (hooks p).init.ending.throws ∧ (hooks p).init.setError = none then
          initLoop hooks order ps initialized st = none
        else ∃ st', initLoop hooks order ps initialized st = some (st', none) ∧
          ∀ p ∈ initialized ++ ps, (st' p).m_state = .PLE_UNDEFINED := by
  induction ps generalizing initialized st with
  | nil => exact ⟨st, by simp [initLoop], by simp, fun _ _ => rfl⟩
  | cons p ps ih =>
    obtain ⟨e, hinit, hfails, hfailed, hgoes, htrue⟩ :=
      ElementState.init_outcome (hooks p).init (hundefined p (List.mem_cons_self ..))
    obtain ⟨hnot, -⟩ := List.nodup_cons.mp (List.nodup_middle.mp hnodup)
    have hother {q : ElemPtr} (hq : q ∈ initialized ++ ps) : q ≠ p := by
      rintro rfl
      exact hnot hq
    rw [List.mem_append, not_or] at hnot
    rw [List.find?_cons, initLoop, hinit]
    cases hf : (st p).initFails (hooks p).init with
    | true =>
      simp only [if_pos (hfails.mp hf)]
      split
      case isTrue hthrows =>
        -- `__deinit` finds the element as it was before
        have hundef : e.m_state = .PLE_UNDEFINED := by
          rw [hfailed hf, if_pos hthrows]
        rw [deinitEach, Function.update_self, ElementState.deinit, if_neg (by simp [hundef])]
      case isFalse hthrows =>
        have herror : e.m_state = .PLE_ERROR := by
          rw [hfailed hf, if_neg hthrows]
        obtain ⟨st', hst', hundef⟩ := deinitEach_failed order st hnodup hreturns
          (fun q hq => hundefined q (List.mem_cons_of_mem p hq)) hready herror
        exact ⟨st', by rw [hst'], hundef⟩
    | false =>
      have hok : ¬ initError e (hooks p).init.ending ≠ .PlvNoError := by
        rw [← hfails, hf]
        exact Bool.noConfusion
      simp only [if_neg hok]
      have hsplit : initialized ++ [p] ++ ps = initialized ++ p :: ps := by simp
      have hfind : (ps.find? fun q => (Function.update st p e q).initFails (hooks q).init) =
          ps.find? fun q => (st q).initFails (hooks q).init := by
        apply List.find?_congr
        intro q hq
        rw [Function.update_of_ne (hother (List.mem_append_right _ hq))]
      have hrec := ih (Function.update st p e) (initialized ++ [p])
        (by rw [hsplit]; exact hnodup) (by rw [hsplit]; exact hreturns) (by
          intro q hq
          rw [Function.update_of_ne (hother (List.mem_append_right _ hq))]
          exact hundefined q (List.mem_cons_of_mem p hq)) (by
          intro q hq
          obtain hq | hq := List.mem_append.mp hq
          · rw [Function.update_of_ne (hother (List.mem_append_left _ hq))]
            exact hready q hq
          · rw [List.mem_singleton.mp hq, Function.update_self]
            exact hgoes hf)
      rw [hfind, hsplit] at hrec
      cases hfound : ps.find? fun q => (st q).initFails (hooks q).init with
      | some q =>
        rw [hfound] at hrec
        exact hrec
      | none =>
        rw [hfound] at hrec
        obtain ⟨st', hst', hin, hout⟩ := hrec
        refine ⟨st', hst', fun q hq hreturned => ?_, fun q hq => ?_⟩
        · obtain rfl | hq := List.mem_cons.mp hq
          · rw [hout q hnot.2, Function.update_self, htrue hreturned]
          · exact hin q hq hreturned
        · rw [List.mem_cons, not_or] at hq
          rw [hout q hq.2, Function.update_of_ne hq.1]

/-- `init` returns true when every element has been initialised, and then all are; otherwise it
returns false and all are undefined again. -/
def AllOrNothing (hooks : ElemPtr → Hooks) (order : HashOrder ElemPtr) (s : Pipeline) : Prop :=
  ∃ t b, s.init hooks order = some (t, b) ∧
    (b = true ↔ ∀ p ∈ valuesOf s.m_children, (hooks p).init.ending = .returns true) ∧
    ∀ p ∈ valuesOf s.m_children,
      (t.states p).m_state = if b then .PLE_INITIALIZED else .PLE_UNDEFINED

/-- Each element is initialised; or one throws or returns false with an error, and the first that
does so has set the error when it throws. -/
def InitsCleanly (hooks : ElemPtr → Hooks) (s : Pipeline) : Prop :=
  match (valuesOf s.m_children).find? fun p => (s.states p).initFails (hooks p).init with
  | none => ∀ p ∈ valuesOf s.m_children, (hooks p).init.ending = .returns true
  | some p => ¬ ((hooks p).init.ending.throws ∧ (hooks p).init.setError = none)

theorem init_all_or_nothing {order : HashOrder ElemPtr} {s : Pipeline}
    (hid : ∀ (k : Int) p, s.m_children[k]? = some p → (s.elems p).m_id = k)
    (hundefined : ∀ p ∈ valuesOf s.m_children, (s.states p).m_state = .PLE_UNDEFINED)
    (hreturns : ∀ p ∈ valuesOf s.m_children, (hooks p).deinit.returns = true) :
    s.AllOrNothing hooks order ↔ s.InitsCleanly hooks := by
  have hnodup : (valuesOf s.m_children).Nodup := by
    apply valuesOf_nodup
    intro k k' p hk hk'
    rw [← hid k p hk, ← hid k' p hk']
  unfold AllOrNothing InitsCleanly init
  generalize valuesOf s.m_children = ps at hnodup hundefined hreturns ⊢
  have hloop := initLoop_find order s.states [] hnodup hreturns hundefined
    fun p hp => absurd hp List.not_mem_nil
  cases hfind : ps.find? fun p => (s.states p).initFails (hooks p).init with
  | none =>
    rw [hfind] at hloop
    obtain ⟨st, hst, hin, -⟩ := hloop
    constructor
    · rintro ⟨t, b, hinit, hiff, -⟩
      rw [hst] at hinit
      cases hinit
      exact hiff.mp rfl
    · intro hall
      refine ⟨_, true, by rw [hst], iff_of_true rfl hall, fun p hp => ?_⟩
      exact hin p hp (hall p hp)
  | some p =>
    rw [hfind] at hloop
    dsimp only at hloop
    split at hloop
    case isTrue hthrows =>
      refine iff_of_false ?_ (not_not.mpr hthrows)
      rintro ⟨t, b, hinit, -, -⟩
      rw [hloop] at hinit
      cases hinit
    case isFalse hthrows =>
      obtain ⟨st, hst, hall⟩ := hloop
      refine iff_of_true ⟨{ s with states := st }, false, by rw [hst], ?_, hall⟩ hthrows
      refine iff_of_false Bool.noConfusion fun htrue => ?_
      have hfails := List.find?_some hfind
      have hmem := List.mem_of_find?_eq_some hfind
      simp [ElementState.initFails, htrue p hmem] at hfails

/-- The second of two elements cannot be initialised and says so. -/
theorem init_all_or_nothing_error :
    (fresh (fun _ => Graph.Pipeline.source 5) 2).AllOrNothing
      (fun p => if p = 1 then
        { succeeding with init := ⟨some .PlvPipelineInitError, .returns false⟩ } else succeeding)
      (.ascending ElemPtr) := by
  have hchildren : (fresh (fun _ => Graph.Pipeline.source 5) 2).m_children =
      ((∅ : QMap ElemPtr).insert 0 0).insert 1 1 := rfl
  refine (init_all_or_nothing ?_ (fun _ _ => rfl) fun p _ => ?_).mpr ?_
  · intro k p hk
    rw [hchildren] at hk
    rcases QMap.of_insert hk with ⟨rfl, rfl⟩ | hk
    · rfl
    rcases QMap.of_insert hk with ⟨rfl, rfl⟩ | hk
    · rfl
    · simp at hk
  · split <;> rfl
  · exact fun hthrows => absurd hthrows.1 (by decide)

/-- An element whose `init()` returns false without an error is left in PLE_ERROR by an `init`
that returns true. -/
theorem init_all_or_nothing_fails :
    ¬ ∀ (hooks : ElemPtr → Hooks) (order : HashOrder ElemPtr) (s : Pipeline),
      (∀ (k : Int) p, s.m_children[k]? = some p → (s.elems p).m_id = k) →
      (∀ p ∈ valuesOf s.m_children, (s.states p).m_state = .PLE_UNDEFINED) →
      (∀ p ∈ valuesOf s.m_children, (hooks p).deinit.returns = true) →
      s.AllOrNothing hooks order := by
  intro hall
  have hchildren : (fresh (fun _ => sink 5) 1).m_children = (∅ : QMap ElemPtr).insert 0 0 := rfl
  have hid : ∀ (k : Int) p, (fresh (fun _ => sink 5) 1).m_children[k]? = some p →
      ((fresh (fun _ => sink 5) 1).elems p).m_id = k := by
    intro k p hk
    rw [hchildren] at hk
    rcases QMap.of_insert hk with ⟨rfl, rfl⟩ | hk
    · rfl
    · simp at hk
  obtain ⟨t, b, hinit, hiff, -⟩ :=
    hall (fun _ => { succeeding with init := ⟨none, .returns false⟩ }) (.ascending ElemPtr)
      (fresh (fun _ => sink 5) 1) hid (fun _ _ => rfl) (fun _ _ => rfl)
  have htrue : b = true := by
    cases hinit
    rfl
  exact absurd (hiff.mp htrue 0 (by decide)) (by decide)

end Pipeline

end ParleVision.Lifecycle
