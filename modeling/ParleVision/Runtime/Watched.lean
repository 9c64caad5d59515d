import ParleVision.Runtime.Scores

namespace ParleVision.Runtime
open Lib

variable {E P C : Type}

instance [DecidableEq C] (w : Worker P C) (c : C) : Decidable (w.untaken c) :=
  match w with
  | .peeking .. => .isTrue trivial
  | .flushing todo => inferInstanceAs (Decidable (c ∈ todo))
  | .processing calls | .putting calls .. => inferInstanceAs (Decidable (c ∉ calls.got))
  | .idle | .dispatched .. | .entered .. | .posting .. | .ending .. | .notError .. | .thrown
  | .leaving | .finished .. => .isFalse id

instance [DecidableEq P] [DecidableEq C] (net : Network E P C) (w : Worker P C) (c : C) :
    Decidable (w.unput net c) :=
  match w with
  | .peeking .. | .flushing .. => .isTrue trivial
  | .processing calls => inferInstanceAs (Decidable (net.fromPin c ∉ calls.put))
  | .putting calls todo pushed =>
    inferInstanceAs (Decidable (net.fromPin c ∉ calls.put ∨ c ∈ if pushed then todo.tail else todo))
  | .posting todo pushed _ => inferInstanceAs (Decidable (c ∈ if pushed then todo.tail else todo))
  | .idle | .dispatched .. | .entered .. | .ending .. | .notError .. | .thrown | .leaving
  | .finished .. => .isFalse id

/-- A run is over with a pin when `process()` returns, and with an asynchronous one when a NULL was
found, since the synchronous pins alone are flushed then. -/
def Worker.over (net : Network E P C) (w : Worker P C) (action : Action P C) (c : C) : Bool :=
  match w, action with
  | .peeking [] true, _ => !net.isSynchronous c
  | .processing _, .returns _ => true
  | _, _ => false

/-- How many frames the source of a pin is behind its target. A run of the source has come up with
a frame when it has put an item on the pin, or can put none any more. -/
def PipelineState.behind [DecidableEq P] [DecidableEq C] (net : Network E P C)
    (s : PipelineState E P C) (c : C) : Nat :=
  (s.runs (net.target c)).length + (if (s.worker (net.source c)).unput net c then 1 else 0) -
    (s.runs (net.source c)).length

/-- A pipeline, and a record of what its runs find on their pins and leave there. -/
structure Watched (E P C : Type) extends pipeline : PipelineState E P C where
  /-- the pins that held an item, not NULL, when the last run of their element began -/
  held : C → Bool
  /-- the frames that are left out of a pin -/
  omitted : C → Nat

namespace Watched

def started (serial : Nat) (stale : E → Nat → Nat) : Watched E P C where
  pipeline := .started serial stale
  held _ := false
  omitted _ := 0

variable [DecidableEq E] [DecidableEq P] [DecidableEq C] (net : Network E P C) (s : Watched E P C)

def heldAfter : Event E P C → C → Bool
  | .work e _, c =>
    match s.worker e with
    | .entered _ =>
      if net.target c = e then (s.m_queue c).head?.any fun d => !d.isNull else s.held c
    | _ => s.held c
  | .schedule .., c => s.held c

/-- When a run is over with an empty pin, as many frames are left out of it as its source is behind.
When there is an item, it is one frame more if the run has taken none. -/
def omittedAfter : Event E P C → C → Nat
  | .work e action, c =>
    if net.target c = e ∧ (s.worker e).over net action c = true then
      if s.m_queue c = [] then s.behind net c
      else if (s.worker e).untaken c then s.omitted c + 1 else s.omitted c
    else s.omitted c
  | .schedule .., c => s.omitted c

def step (event : Event E P C) : Option (Watched E P C) :=
  (s.pipeline.step net event).map fun t =>
    ⟨t, s.heldAfter net event, s.omittedAfter net event⟩

theorem step_pipeline (event : Event E P C) :
    (s.step net event).map Watched.pipeline = s.pipeline.step net event := by
  rw [step, Option.map_map]
  exact Option.map_id'

omit [DecidableEq P] [DecidableEq C] in
theorem heldAfter_entered {e : E} {action : Action P C} {c : C} {serial : Nat}
    (htarget : net.target c = e) (hw : s.worker e = .entered serial) :
    s.heldAfter net (.work e action) c = (s.m_queue c).head?.any fun d => !d.isNull := by
  rw [heldAfter, hw]
  exact if_pos htarget

omit [DecidableEq P] [DecidableEq C] in
theorem heldAfter_of_not {e : E} {action : Action P C} {c : C}
    (hnot : ¬ (net.target c = e ∧ ∃ serial, s.worker e = .entered serial)) :
    s.heldAfter net (.work e action) c = s.held c := by
  rw [heldAfter]
  split
  case h_1 serial hw => exact if_neg fun htarget => hnot ⟨htarget, serial, hw⟩
  case h_2 => rfl

/-- The pipeline runs as it does when nobody watches. -/
theorem run_pipeline (es : List (Event E P C)) :
    (run (step net) s es).map Watched.pipeline = run (PipelineState.step net) s.pipeline es :=
  run_map (step_pipeline net) s es

end Watched

/-- The run of an element has taken an item from each pin that held one. -/
def Worker.TakenItems (net : Network E P C) (held : C → Bool) (e : E) : Worker P C → Prop
  | .processing calls => ∀ c ∈ net.inputs e, held c = true → c ∈ calls.got
  | _ => True

/-- A `process()` takes an item from each pin that holds one, not NULL, when it is run. -/
def TakesItems (net : Network E P C) (s : Watched E P C) : Event E P C → Prop
  | .work e (.returns _) => (s.worker e).TakenItems net s.held e
  | _ => True

/-- The runs of an element with a synchronous pin leave out four frames of a pin at most. -/
def SeldomLeavesOut [DecidableEq E] [DecidableEq P] [DecidableEq C] (net : Network E P C)
    (s : Watched E P C) : Event E P C → Prop
  | .work e action => net.m_hasSynchronousPin e = true →
    ∀ c ∈ net.inputs e, s.omittedAfter net (.work e action) c ≤ 4
  | .schedule .. => True

theorem one_le_one_of_imp {p q : Prop} [Decidable p] [Decidable q] (h : p → q) :
    (if p then 1 else 0) ≤ if q then 1 else 0 := by
  by_cases hp : p
  · rw [if_pos hp, if_pos (h hp)]
  · rw [if_neg hp]
    exact Nat.zero_le _

section
variable {net : Network E P C} [DecidableEq E] [DecidableEq C] {f f' : Flow E C} {e : E}
  {w w' : Worker P C} {action : Action P C} {c : C}

/-- A run that has failed stays so. -/
theorem Run.failed (hr : Run net f e w action f' w') (h : w.failed) : w'.failed := by
  cases hr with
  | quiet hq => exact hq.failed h
  | begins hw =>
    rw [hw] at h
    exact h.elim
  | pushes _ _ hu => exact absurd hu (Worker.failed_not_underway h)
  | announces _ _ hu => exact absurd hu (Worker.failed_not_underway h)
  | takes _ _ hu => exact absurd hu (Worker.failed_not_underway h)

theorem Run.runs_eq (hr : Run net f e w action f' w') (hnot : ∀ serial, w ≠ .entered serial) :
    f'.runs = f.runs := by
  cases hr with
  | quiet => rfl
  | begins hw => exact absurd hw (hnot _)
  | pushes => rfl
  | announces _ hnew => exact (newData_announces hnew).runs
  | takes _ hget =>
    obtain ⟨queue, -, rfl⟩ := get_some hget
    rfl

/-- A run puts on a pin once, or leaves it out. -/
theorem Run.put_le [DecidableEq P] (hr : Run net f e w action f' w') :
    (f'.put c).length + (if w'.unput net c then 1 else 0) + (f.runs e).length ≤
      (f.put c).length + (if w.unput net c then 1 else 0) + (f'.runs e).length := by
  cases hr with
  | quiet hq =>
    have hmono := one_le_one_of_imp (hq.unput c)
    omega
  | @begins serial =>
    change _ ≤ _ + (Function.update f.runs e _ e).length
    rw [Function.update_self, List.length_append]
    change (f.put c).length + _ + _ ≤ _ + ((f.runs e).length + 1)
    split <;> omega
  | @pushes c₁ _ _ _ _ _ _ hu hunput =>
    change (Function.update f.put c₁ _ c).length + _ + _ ≤ _ + (f.runs e).length
    by_cases hc : c = c₁
    · subst c₁
      rw [Function.update_self, List.length_append, if_pos hu,
        if_neg fun hu' => ((hunput c).mp hu').2 rfl]
      change (f.put c).length + 1 + 0 + _ ≤ _
      omega
    · have hmono := one_le_one_of_imp fun hu' => ((hunput c).mp hu').1
      rw [Function.update_of_ne hc]
      omega
  | announces _ hnew _ _ hunput =>
    have hf := newData_announces hnew
    have hmono := one_le_one_of_imp (hunput c).mp
    rw [hf.put, hf.runs]
    omega
  | takes _ hget _ _ hnext =>
    obtain ⟨queue, -, rfl⟩ := get_some hget
    have hmono : (if w'.unput net c then 1 else 0) ≤ if w.unput net c then 1 else 0 := by
      apply one_le_one_of_imp
      intro hu'
      obtain hfailed | ⟨-, hunput, -⟩ := hnext
      · exact absurd (Worker.unput_underway hu') (Worker.failed_not_underway hfailed)
      · exact (hunput c).mp hu'
    exact Nat.add_le_add_right (Nat.add_le_add_left hmono _) _

omit [DecidableEq E] [DecidableEq C] in
/-- What was to be taken from a pin still is, as long as the run is not over with it. -/
theorem Quiet.untaken_of_not_over (hq : Quiet net e w action w') (htarget : net.target c = e)
    (hfailed : ¬ w'.failed) (hover : w.over net action c = false) (hu : w.untaken c) :
    w'.untaken c := by
  refine hq.untaken_kept hfailed ?_ c htarget ?_ hu
  · rintro calls b rfl rfl
    cases hover
  · by_cases hw : w = .peeking [] true
    · rw [hw, Worker.over, Bool.not_eq_false'] at hover
      exact .inl hover
    · exact .inr hw

/-- A run takes from a pin once, or is over with it before. -/
theorem Run.le_taken (hr : Run net f e w action f' w') (htarget : net.target c = e)
    (hfailed : ¬ w'.failed) (hover : w.untaken c → w.over net action c = false) :
    (f'.runs e).length + (f.taken c).length + (if w.untaken c then 1 else 0) ≤
      (f.runs e).length + (f'.taken c).length + (if w'.untaken c then 1 else 0) := by
  cases hr with
  | quiet hq =>
    have hmono := one_le_one_of_imp fun hu =>
      hq.untaken_of_not_over htarget hfailed (hover hu) hu
    omega
  | @begins serial _ hw hw' =>
    have hbefore : ¬ w.untaken c := by rw [hw]; exact id
    have hafter : w'.untaken c := by
      obtain ⟨-, -, rfl⟩ | ⟨-, rfl⟩ := hw'
      · exact List.not_mem_nil
      · trivial
    rw [if_neg hbefore, if_pos hafter]
    change (Function.update f.runs e _ e).length + _ + _ ≤ _
    rw [Function.update_self, List.length_append]
    change (f.runs e).length + 1 + (f.taken c).length + 0 ≤ (f.runs e).length + (f.taken c).length + 1
    omega
  | pushes _ _ _ _ _ _ huntaken =>
    have hmono := one_le_one_of_imp (huntaken c).mpr
    change (f.runs e).length + (f.taken c).length + _ ≤ (f.runs e).length + (f.taken c).length + _
    omega
  | announces _ hnew _ _ _ huntaken =>
    have hf := newData_announces hnew
    have hmono := one_le_one_of_imp (huntaken c).mpr
    rw [hf.runs, hf.taken]
    omega
  | @takes c₁ _ d _ _ hget _ huntaken hnext =>
    obtain ⟨queue, -, rfl⟩ := get_some hget
    obtain ⟨-, -, hiff⟩ := hnext.resolve_left hfailed
    change (f.runs e).length + (f.taken c).length + _ ≤
      (f.runs e).length + (Function.update f.taken c₁ _ c).length + _
    by_cases hc : c = c₁
    · subst c₁
      rw [Function.update_self, List.length_append, if_pos huntaken]
      change _ ≤ _ + ((f.taken c).length + 1) + _
      omega
    · have hmono := one_le_one_of_imp fun hu : w.untaken c => (hiff c).mpr ⟨hu, hc⟩
      rw [Function.update_of_ne hc]
      omega

/-- Announcing adds to what an element is to be run for. -/
theorem Announces.announced_le (h : Announces net f c f') (e : E) :
    (f.announced e).length ≤ (f'.announced e).length := by
  have hgrow {l : List Nat} : (f.m_readyQueue e).length ≤
      (Function.update f.m_readyQueue (net.target c)
        (f.m_readyQueue (net.target c) ++ l) e).length := by
    by_cases he : e = net.target c
    · rw [he, Function.update_self, List.length_append]
      omega
    · rw [Function.update_of_ne he]
  rw [Flow.announced, Flow.announced, List.length_append, List.length_append, h.dispatched]
  apply Nat.add_le_add_left
  obtain ⟨-, -, hr⟩ | ⟨-, -, -, hr⟩ | ⟨-, -, ⟨-, -, hr⟩ | ⟨-, -, hr⟩⟩ := h.scored
  · rw [hr]
    exact hgrow
  · rw [hr]
  · rw [hr]
    exact hgrow
  · rw [hr]

theorem Run.announced_le (hr : Run net f e w action f' w') (e' : E) :
    (f.announced e').length ≤ (f'.announced e').length := by
  cases hr with
  | quiet => exact Nat.le_refl _
  | begins => exact Nat.le_refl _
  | pushes => exact Nat.le_refl _
  | announces _ hnew => exact (newData_announces hnew).announced_le e'
  | takes _ hget =>
    obtain ⟨queue, -, rfl⟩ := get_some hget
    exact Nat.le_refl _

/-- The owner of an asynchronous pin is announced for each item, unless it has synchronous ones. -/
theorem Run.put_announced (hr : Run net f e w action f' w')
    (hasync : net.m_hasSynchronousPin (net.target c) = false) :
    (f'.put c).length + (f.announced (net.target c)).length +
        (if w.announcing = some c then 1 else 0) ≤
      (f.put c).length + (f'.announced (net.target c)).length +
        (if w'.announcing = some c then 1 else 0) := by
  have hnone {w : Worker P C} (ha : w.announcing = none) : ¬ w.announcing = some c := by
    rw [ha]
    exact (Option.some_ne_none c).symm
  cases hr with
  | quiet hq =>
    rw [if_neg (hnone hq.not_announcing.1), if_neg (hnone hq.not_announcing.2)]
  | begins hw =>
    rw [if_neg (hnone (by rw [hw]; rfl))]
    exact Nat.le_add_right _ _
  | @pushes c₁ isNull _ _ _ _ _ _ _ _ ha ha' =>
    change (Function.update f.put c₁ _ c).length + _ + _ ≤ _
    rw [if_neg (hnone ha), ha']
    by_cases hc : c = c₁
    · subst c₁
      rw [Function.update_self, List.length_append, if_pos rfl]
      change (f.put c).length + 1 + (f.announced (net.target c)).length + 0 ≤
        (f.put c).length + (f.announced (net.target c)).length + 1
      omega
    · rw [Function.update_of_ne hc]
      exact Nat.le_add_right _ _
  | @announces c₁ _ _ _ hnew _ _ _ _ ha ha' =>
    have hf := newData_announces hnew
    rw [hf.put, if_neg (hnone ha'), ha]
    by_cases hc : c = c₁
    · subst c₁
      have hlength : (f'.announced (net.target c)).length =
          (f.announced (net.target c)).length + 1 := by
        obtain ⟨-, -, hready⟩ | ⟨hhas, -⟩ | ⟨hsync, -⟩ := hf.scored
        · rw [Flow.announced, hf.dispatched, hready, Function.update_self, ← List.append_assoc,
            List.length_append]
          rfl
        · rw [hasync] at hhas
          cases hhas
        · rw [(net.m_hasSynchronousPin_iff _).mpr ⟨c, rfl, hsync⟩] at hasync
          cases hasync
      rw [hlength, if_pos rfl]
      omega
    · have hgrows := hf.announced_le (net.target c)
      rw [if_neg fun he => hc (Option.some.inj he).symm]
      omega
  | takes _ hget _ _ _ ha ha' =>
    obtain ⟨queue, -, rfl⟩ := get_some hget
    rw [if_neg (hnone ha), if_neg (hnone ha')]
    exact Nat.le_refl _

/-- An asynchronous pin gets no NULL. -/
def Flow.HoldsData (net : Network E P C) (f : Flow E C) : Prop :=
  ∀ c, net.isSynchronous c = false → ∀ d ∈ f.m_queue c, d.isNull = false

omit [DecidableEq E] [DecidableEq C] in
/-- A pin that holds no item is empty. -/
theorem Flow.HoldsData.empty (h : f.HoldsData net) (hasync : net.isSynchronous c = false)
    (hnone : (f.m_queue c).head?.any (fun d => !d.isNull) = false) : f.m_queue c = [] := by
  cases hqueue : f.m_queue c with
  | nil => rfl
  | cons d queue =>
    have hnull := h c hasync d (by rw [hqueue]; exact List.mem_cons_self)
    rw [hqueue, List.head?_cons, Option.any_some, hnull] at hnone
    cases hnone

theorem Flow.HoldsData.run (h : f.HoldsData net) (hr : Run net f e w action f' w') :
    f'.HoldsData net := by
  intro c hc d hd
  cases hr with
  | quiet => exact h c hc d hd
  | begins => exact h c hc d hd
  | @pushes c₁ isNull _ _ hnull =>
    change d ∈ Function.update f.m_queue c₁ _ c at hd
    by_cases hcc : c = c₁
    · subst c₁
      rw [Function.update_self, List.mem_append, List.mem_singleton] at hd
      obtain hd | rfl := hd
      · exact h c hc d hd
      · by_contra hnot
        rw [hnull (Bool.not_eq_false _ ▸ hnot)] at hc
        cases hc
    · rw [Function.update_of_ne hcc] at hd
      exact h c hc d hd
  | announces _ hnew =>
    rw [(newData_announces hnew).m_queue] at hd
    exact h c hc d hd
  | @takes c₁ _ _ _ _ hget =>
    obtain ⟨queue, hqueue, rfl⟩ := get_some hget
    change d ∈ Function.update f.m_queue c₁ queue c at hd
    by_cases hcc : c = c₁
    · subst c₁
      rw [Function.update_self] at hd
      exact h c hc d (hqueue ▸ List.mem_cons_of_mem _ hd)
    · rw [Function.update_of_ne hcc] at hd
      exact h c hc d hd

/-- The owner of an asynchronous pin that is its only one is announced for each item. -/
theorem Run.announced_alone (hr : Run net f e w action f' w')
    (halone : net.inputs (net.target c) = [c]) (hasync : net.isSynchronous c = false)
    (h : f.announced (net.target c) = f.notified c) :
    f'.announced (net.target c) = f'.notified c := by
  cases hr with
  | quiet => exact h
  | begins => exact h
  | pushes => exact h
  | @announces c₁ _ _ _ hnew =>
    have hf := newData_announces hnew
    have honly {c' : C} (hc' : net.target c' = net.target c) : c' = c := by
      rw [← List.mem_singleton, ← halone, net.mem_inputs]
      exact hc'
    rw [Flow.announced, hf.dispatched, hf.notified]
    by_cases hc : c₁ = c
    · subst c₁
      obtain ⟨-, -, hready⟩ | ⟨hhas, -⟩ | ⟨hsync, -⟩ := hf.scored
      · rw [hready, Function.update_self, Function.update_self, ← List.append_assoc]
        exact congrArg (· ++ _) h
      · rw [net.m_hasSynchronousPin_iff] at hhas
        obtain ⟨c', hc', hsync⟩ := hhas
        rw [honly hc', hasync] at hsync
        cases hsync
      · rw [hasync] at hsync
        cases hsync
    · have hready : f'.m_readyQueue (net.target c) = f.m_readyQueue (net.target c) := by
        have hne : net.target c ≠ net.target c₁ := fun he => hc (honly he.symm)
        obtain ⟨-, -, hr⟩ | ⟨-, -, -, hr⟩ | ⟨-, -, ⟨-, -, hr⟩ | ⟨-, -, hr⟩⟩ := hf.scored
        · rw [hr, Function.update_of_ne hne]
        · rw [hr]
        · rw [hr, Function.update_of_ne hne]
        · rw [hr]
      rw [hready, Function.update_of_ne (fun he => hc he.symm)]
      exact h
  | takes _ hget =>
    obtain ⟨queue, -, rfl⟩ := get_some hget
    exact h

end

section
variable {net : Network E P C} [DecidableEq E] [DecidableEq C] {s s' : PipelineState E P C} {e : E}
  {action : Action P C} {w' : Worker P C} {c : C}

theorem Works.failed (hw : Works net s e action s' w') {e' : E} (h : (s.worker e').failed) :
    (s'.worker e').failed := by
  rw [hw.worker]
  by_cases he : e' = e
  · subst e'
    rw [Function.update_self]
    exact hw.run.failed h
  · rw [Function.update_of_ne he]
    exact h

theorem Works.put_le [DecidableEq P] (hw : Works net s e action s' w') (c : C) :
    (s'.put c).length + (if (s'.worker (net.source c)).unput net c then 1 else 0) +
        (s.runs (net.source c)).length ≤
      (s.put c).length + (if (s.worker (net.source c)).unput net c then 1 else 0) +
        (s'.runs (net.source c)).length := by
  rw [hw.worker]
  by_cases he : net.source c = e
  · rw [he, Function.update_self]
    exact hw.run.put_le
  · have hsame := hw.run.others he
    rw [Function.update_of_ne he, hsame.put c rfl, hsame.runs]

theorem Works.le_taken (hw : Works net s e action s' w')
    (hfailed : ¬ (s'.worker (net.target c)).failed)
    (hover : net.target c = e → (s.worker e).untaken c → (s.worker e).over net action c = false) :
    (s'.runs (net.target c)).length + (s.taken c).length +
        (if (s.worker (net.target c)).untaken c then 1 else 0) ≤
      (s.runs (net.target c)).length + (s'.taken c).length +
        (if (s'.worker (net.target c)).untaken c then 1 else 0) := by
  rw [hw.worker] at hfailed ⊢
  by_cases he : net.target c = e
  · rw [he, Function.update_self] at hfailed ⊢
    exact hw.run.le_taken he hfailed (hover he)
  · have hsame := hw.run.others he
    rw [Function.update_of_ne he, hsame.taken c rfl, hsame.runs]

theorem Works.put_announced (hw : Works net s e action s' w')
    (hasync : net.m_hasSynchronousPin (net.target c) = false) :
    (s'.put c).length + (s.flow.announced (net.target c)).length +
        (if (s.worker (net.source c)).announcing = some c then 1 else 0) ≤
      (s.put c).length + (s'.flow.announced (net.target c)).length +
        (if (s'.worker (net.source c)).announcing = some c then 1 else 0) := by
  rw [hw.worker]
  by_cases he : net.source c = e
  · rw [he, Function.update_self]
    exact hw.run.put_announced hasync
  · have hgrows := hw.run.announced_le (net.target c)
    rw [Function.update_of_ne he, (hw.run.others he).put c rfl]
    omega

theorem Works.runs_eq (hw : Works net s e action s' w') {e' : E}
    (hnot : ∀ serial, e' = e → s.worker e ≠ .entered serial) : s'.runs e' = s.runs e' := by
  by_cases he : e' = e
  · rw [hw.run.runs_eq fun serial => hnot serial he]
  · exact (hw.run.others he).runs

omit [DecidableEq C] in
/-- The thread of the pipeline puts nothing. -/
theorem Turn.connections (ht : Turn net s s') : s'.m_queue = s.m_queue ∧ s'.put = s.put := by
  cases ht with
  | moves => exact ⟨rfl, rfl⟩
  | reaps => exact ⟨rfl, rfl⟩
  | dispatches _ _ _ _ hf => rw [hf]; exact ⟨rfl, rfl⟩
  | produces _ _ _ hf => rw [hf]; exact ⟨rfl, rfl⟩
  | ticks => exact ⟨rfl, rfl⟩

omit [DecidableEq C] in
/-- Producers are dispatched without being announced. -/
theorem Turn.announced (ht : Turn net s s') {e : E} (he : net.isProducer e = false)
    (hproducing : ∀ todo, s.phase = .producing todo → todo.Nodup ∧
      ∀ e ∈ todo, net.isProducer e = true) :
    s'.flow.announced e = s.flow.announced e ∧ s'.notified = s.notified := by
  cases ht with
  | moves => exact ⟨rfl, rfl⟩
  | reaps => exact ⟨rfl, rfl⟩
  | dispatches _ hq _ _ hf => rw [hf, Flow.announced_dispatch hq]; exact ⟨rfl, rfl⟩
  | @produces e' todo _ hphase _ _ hf =>
    rw [hf]
    refine ⟨?_, rfl⟩
    have hne : e ≠ e' := by
      rintro rfl
      rw [(hproducing _ hphase).2 e List.mem_cons_self] at he
      cases he
    exact congrArg (· ++ _) (Function.update_of_ne hne ..)
  | ticks => exact ⟨rfl, rfl⟩

/-- What is read of a run is the same when none is underway. -/
theorem Turn.reads {α : Type} (ha : Accounted net s) (ht : Turn net s s') (g : Worker P C → α)
    (hfinished : g (.finished true) = g .idle)
    (hdispatched : ∀ serial, g (.dispatched serial) = g .idle)
    (e : E) : g (s'.worker e) = g (s.worker e) := by
  obtain ⟨hsame, -⟩ | ⟨-, hw, hw'⟩ | ⟨serial, hw, hw'⟩ := ht.worker_cases ha e
  · rw [hsame]
  · rw [hw, hw', hfinished]
  · rw [hw, hw', hdispatched]

variable [DecidableEq P]

/-- The first step of a run takes nothing. -/
theorem work_entered {serial : Nat} (hs : s.work net e action = some s')
    (hw : s.worker e = .entered serial) : s'.m_queue = s.m_queue := by
  unfold PipelineState.work at hs
  simp only [hw] at hs
  split at hs
  · split at hs
    · cases hs
      rfl
    · cases hs
  · split at hs
    · cases hs
      rfl
    · cases hs

/-- A run that comes to be over with a pin does nothing else. -/
theorem work_over (hs : s.work net e action = some s')
    (hover : (s.worker e).over net action c = true) : s'.flow = s.flow := by
  unfold PipelineState.work at hs
  cases hw : s.worker e with
  | peeking todo nullDetected =>
    rw [hw] at hover
    cases todo with
    | nil =>
      simp only [hw] at hs
      cases hs
      rfl
    | cons => cases hover
  | processing calls =>
    rw [hw] at hover
    simp only [hw] at hs
    cases action with
    | returns b =>
      cases hs
      rfl
    | get | clear | put | setError | throws => cases hover
  | idle | dispatched | entered | flushing | putting | posting | ending | notError | thrown
  | leaving | finished =>
    rw [hw] at hover
    cases hover

end

end ParleVision.Runtime
