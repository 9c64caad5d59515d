import ParleVision.Runtime.Frames

namespace ParleVision.Runtime
open Lib

variable {E P C : Type} {net : Network E P C} {first : Nat} {stale : E → Nat → Nat}

def Worker.Live : Worker P C → Prop
  | .peeking .. | .flushing .. | .processing .. | .putting .. | .posting .. | .ending _ => True
  | _ => False

/-- The step is a `get()` or a `clear()` in the `process()` of the element, or an item is removed by
`flushFirstOnSynchronousPins`, and the serial is the one in front. -/
def Removes (e : E) (c : C) (serial : Nat) (s : PipelineState E P C) : Event E P C → Prop
  | .schedule .. => False
  | .work e' action => e' = e ∧ (s.m_queue c).head?.map Data.serial = some serial ∧
    match s.worker e with
    | .processing _ => action = .get c ∨ action = .clear c
    | .flushing (c' :: _) => c' = c
    | _ => False

/-- What a step of a run that goes on takes from a pin. -/
inductive Takes (s s' : PipelineState E P C) (event : Event E P C) (e : E) (c : C) : Prop where
  | nothing : s'.taken c = s.taken c → (∀ x, ¬ Removes e c x s event) →
      ((s'.worker e).untaken c → (s.worker e).untaken c) → Takes s s' event e c
  | first (x : Nat) : s'.taken c = s.taken c ++ [x] → (∀ y, Removes e c y s event ↔ x = y) →
      (s.worker e).untaken c → ¬ (s'.worker e).untaken c → Takes s s' event e c

section
variable [DecidableEq E] [DecidableEq P] [DecidableEq C] {s s' : PipelineState E P C} {e : E} {c : C}
  {action : Action P C}

omit [DecidableEq P] [DecidableEq C] in
theorem goto_worker {t : PipelineState E P C} {w : Worker P C} : (t.goto e w).worker e = w :=
  Function.update_self ..

omit [DecidableEq E] [DecidableEq P] in
theorem Removes.of_get {x : Nat} {f : Flow E C} {d : Data} (hget : s.flow.get c = some (f, d)) :
    (s.m_queue c).head?.map Data.serial = some x ↔ d.serial = x := by
  obtain ⟨queue, hq, -⟩ := get_some hget
  rw [hq]
  exact Option.some_inj

omit [DecidableEq P] [DecidableEq C] in
/-- A step that goes on without taking anything. -/
theorem goto_takes_nothing {t : PipelineState E P C} {w' : Worker P C} (hs : s' = t.goto e w')
    (hruns : t.runs = s.runs) (htaken : t.taken = s.taken)
    (hnot : ∀ x, ¬ Removes e c x s (.work e action))
    (huntaken : w'.untaken c → (s.worker e).untaken c) :
    s'.runs e = s.runs e ∧ Takes s s' (.work e action) e c := by
  subst hs
  refine ⟨congrFun hruns e, .nothing (congrFun htaken c) hnot ?_⟩
  rw [goto_worker]
  exact huntaken

omit [DecidableEq P] in
/-- A step of `process()` that takes the item of one pin. -/
theorem get_takes_of {calls : Calls P C} {c' : C} {f : Flow E C} {d : Data}
    (hw : s.worker e = .processing calls) (haction : action = .get c' ∨ action = .clear c')
    (hgot : c' ∉ calls.got) (hget : s.flow.get c' = some (f, d)) :
    ((s.withFlow f).goto e (.processing { calls with got := c' :: calls.got })).runs e =
        s.runs e ∧
      Takes s ((s.withFlow f).goto e (.processing { calls with got := c' :: calls.got }))
        (.work e action) e c := by
  have hfront {x : Nat} := Removes.of_get (x := x) hget
  obtain ⟨queue, -, rfl⟩ := get_some hget
  refine ⟨rfl, ?_⟩
  by_cases hc : c = c'
  · subst c'
    refine .first d.serial (Function.update_self ..) (fun y => ?_) (by rw [hw]; exact hgot) ?_
    · rw [Removes, hw, hfront]
      exact ⟨fun h => h.2.1, fun h => ⟨rfl, h, haction⟩⟩
    · rw [goto_worker]
      exact fun h => h (List.mem_cons_self ..)
  · refine .nothing (Function.update_of_ne hc ..) (fun x hx => ?_) ?_
    · rw [Removes, hw] at hx
      obtain ⟨-, -, hx⟩ := hx
      obtain rfl | rfl := haction
      all_goals obtain hx | hx := hx
      all_goals cases hx
      all_goals exact hc rfl
    · rw [goto_worker, hw]
      exact fun h hmem => h (List.mem_cons_of_mem c' hmem)

theorem process_takes {calls : Calls P C} (hw : s.worker e = .processing calls)
    (h : s.process net e calls action = some s') (hlive : (s'.worker e).Live) :
    s'.runs e = s.runs e ∧ Takes s s' (.work e action) e c := by
  have hnot (hother : ∀ c, action ≠ .get c ∧ action ≠ .clear c) (x : Nat) :
      ¬ Removes e c x s (.work e action) := by
    rw [Removes, hw]
    rintro ⟨-, -, hx | hx⟩
    · exact (hother c).1 hx
    · exact (hother c).2 hx
  cases action with
  | get c' =>
    simp only [PipelineState.process] at h
    split at h
    · split at h
      · cases h
        rw [goto_worker] at hlive
        exact hlive.elim
      case isFalse hgot =>
        split at h
        · cases h
          rw [goto_worker] at hlive
          exact hlive.elim
        case h_2 f d hget =>
          cases h
          rw [goto_worker] at hlive
          cases hnull : d.isNull with
          | true => simp [hnull, Worker.Live] at hlive
          | false => exact get_takes_of hw (.inl rfl) hgot hget
    · cases h
  | clear c' =>
    simp only [PipelineState.process] at h
    split at h
    · split at h
      · cases h
        rw [goto_worker] at hlive
        exact hlive.elim
      case isFalse hgot =>
        split at h
        · cases h
          rw [goto_worker] at hlive
          exact hlive.elim
        case h_2 f d hget =>
          cases h
          exact get_takes_of hw (.inr rfl) hgot hget
    · cases h
  | put p =>
    simp only [PipelineState.process] at h
    split at h
    · split at h
      · cases h
        rw [goto_worker] at hlive
        exact hlive.elim
      · cases h
        refine ⟨rfl, .nothing rfl (hnot (by simp)) ?_⟩
        rw [goto_worker, hw]
        exact id
    · cases h
  | setError =>
    cases h
    exact ⟨rfl, .nothing rfl (hnot (by simp)) id⟩
  | returns b =>
    cases h
    refine ⟨rfl, .nothing rfl (hnot (by simp)) ?_⟩
    rw [goto_worker]
    exact False.elim
  | throws =>
    cases h
    rw [goto_worker] at hlive
    exact hlive.elim

theorem peeking_takes {todo : List C} {nullDetected : Bool}
    (hw : s.worker e = .peeking todo nullDetected) (h : s.work net e action = some s') :
    s'.runs e = s.runs e ∧ Takes s s' (.work e action) e c := by
  unfold PipelineState.work at h
  have hnot (x : Nat) : ¬ Removes e c x s (.work e action) := by
    rw [Removes, hw]
    exact fun hx => hx.2.2
  have hgoto {w' : Worker P C} (hs : s' = s.goto e w') :
      s'.runs e = s.runs e ∧ Takes s s' (.work e action) e c :=
    goto_takes_nothing hs rfl rfl hnot fun _ => by rw [hw]; trivial
  cases todo with
  | nil =>
    simp only [hw] at h
    exact hgoto (Option.some.inj h).symm
  | cons c' todo =>
    simp only [hw] at h
    split at h
    · split at h
      · exact hgoto (Option.some.inj h).symm
      · exact hgoto (Option.some.inj h).symm
    · exact hgoto (Option.some.inj h).symm

/-- `flushFirstOnSynchronousPins` takes the item of one pin. -/
theorem flushing_takes {todo : List C} (hw : s.worker e = .flushing todo)
    (hshaped : (s.worker e).Shaped net e) (h : s.work net e action = some s')
    (hlive : (s'.worker e).Live) : s'.runs e = s.runs e ∧ Takes s s' (.work e action) e c := by
  unfold PipelineState.work at h
  cases todo with
  | nil =>
    simp only [hw] at h
    cases h
    refine goto_takes_nothing rfl rfl rfl (fun x hx => ?_) False.elim
    rw [Removes, hw] at hx
    exact hx.2.2
  | cons c' todo =>
    rw [hw] at hshaped
    obtain ⟨hnodup, -⟩ := List.nodup_cons.mp hshaped.1
    simp only [hw] at h
    split at h
    · cases h
      rw [goto_worker] at hlive
      exact hlive.elim
    case h_2 f d hget =>
      have hfront {x : Nat} := Removes.of_get (x := x) hget
      obtain ⟨queue, -, rfl⟩ := get_some hget
      cases h
      refine ⟨rfl, ?_⟩
      by_cases hc : c = c'
      · subst c'
        refine .first d.serial (Function.update_self ..) (fun y => ?_)
          (by rw [hw]; exact List.mem_cons_self ..) ?_
        · rw [Removes, hw, hfront]
          exact ⟨fun h => h.2.1, fun h => ⟨rfl, h, rfl⟩⟩
        · rw [goto_worker]
          exact hnodup
      · refine .nothing (Function.update_of_ne hc ..) (fun x hx => ?_) ?_
        · rw [Removes, hw] at hx
          exact hc hx.2.2.symm
        · rw [goto_worker, hw]
          exact List.mem_cons_of_mem c'

theorem putting_takes {calls : Calls P C} {todo : List C} {pushed : Bool}
    (hw : s.worker e = .putting calls todo pushed) (h : s.work net e action = some s') :
    s'.runs e = s.runs e ∧ Takes s s' (.work e action) e c := by
  unfold PipelineState.work at h
  have hnot (x : Nat) : ¬ Removes e c x s (.work e action) := by
    rw [Removes, hw]
    exact fun hx => hx.2.2
  have hgoto {f : Flow E C} {w' : Worker P C} (hs : s' = (s.withFlow f).goto e w')
      (hruns : f.runs = s.runs) (htaken : f.taken = s.taken)
      (huntaken : w'.untaken c → c ∉ calls.got) :
      s'.runs e = s.runs e ∧ Takes s s' (.work e action) e c :=
    goto_takes_nothing hs hruns htaken hnot (by rw [hw]; exact huntaken)
  cases todo with
  | nil =>
    simp only [hw] at h
    exact hgoto (Option.some.inj h).symm rfl rfl id
  | cons c' todo =>
    cases pushed with
    | false =>
      simp only [hw] at h
      exact hgoto (Option.some.inj h).symm rfl rfl id
    | true =>
      simp only [hw] at h
      split at h
      · cases h
      case h_2 f hnew =>
        have ha := newData_announces hnew
        exact hgoto (Option.some.inj h).symm ha.runs ha.taken id

theorem posting_takes {todo : List C} {pushed result : Bool}
    (hw : s.worker e = .posting todo pushed result) (h : s.work net e action = some s') :
    s'.runs e = s.runs e ∧ Takes s s' (.work e action) e c := by
  unfold PipelineState.work at h
  have hnot (x : Nat) : ¬ Removes e c x s (.work e action) := by
    rw [Removes, hw]
    exact fun hx => hx.2.2
  have hgoto {t : PipelineState E P C} {w' : Worker P C} (hs : s' = t.goto e w')
      (hruns : t.runs = s.runs) (htaken : t.taken = s.taken) (huntaken : ¬ w'.untaken c) :
      s'.runs e = s.runs e ∧ Takes s s' (.work e action) e c :=
    goto_takes_nothing hs hruns htaken hnot fun h => absurd h huntaken
  cases todo with
  | nil =>
    simp only [hw] at h
    split at h
    · exact hgoto (Option.some.inj h).symm rfl rfl id
    · exact hgoto (Option.some.inj h).symm rfl rfl id
  | cons c' todo =>
    cases pushed with
    | false =>
      simp only [hw] at h
      exact hgoto (Option.some.inj h).symm rfl rfl id
    | true =>
      simp only [hw] at h
      split at h
      · cases h
      case h_2 f hnew =>
        have ha := newData_announces hnew
        exact hgoto (Option.some.inj h).symm ha.runs ha.taken id

/-- A step of a run that goes on takes at most the first item of a pin; the run has begun before
it or begins with it. -/
theorem work_takes (hshaped : (s.worker e).Shaped net e) (h : s.work net e action = some s')
    (hlive : (s'.worker e).Live) :
    ((s.worker e).Live ∧ s'.runs e = s.runs e ∧ Takes s s' (.work e action) e c) ∨
    ∃ x, s.worker e = .entered x ∧ s'.runs e = s.runs e ++ [x] ∧ s'.taken c = s.taken c := by
  unfold PipelineState.work at h
  cases hw : s.worker e with
  | idle | finished => simp [hw] at h
  | dispatched | thrown | leaving | notError =>
    simp only [hw] at h
    first
      | (split at h <;> cases h <;> rw [goto_worker] at hlive <;> exact hlive.elim)
      | (cases h; rw [goto_worker] at hlive; exact hlive.elim)
  | ending result =>
    simp only [hw] at h
    cases h
    rw [goto_worker] at hlive
    split at hlive <;> exact hlive.elim
  | entered serial =>
    simp only [hw] at h
    right
    refine ⟨serial, rfl, ?_⟩
    split at h
    · split at h
      · cases h
        exact ⟨Function.update_self .., rfl⟩
      · cases h
    · split at h
      · cases h
        exact ⟨Function.update_self .., rfl⟩
      · cases h
  | processing calls =>
    simp only [hw] at h
    exact .inl ⟨trivial, process_takes hw h hlive⟩
  | peeking todo nullDetected => exact .inl ⟨trivial, peeking_takes hw h⟩
  | flushing todo => exact .inl ⟨trivial, flushing_takes hw hshaped h hlive⟩
  | putting calls todo pushed => exact .inl ⟨trivial, putting_takes hw h⟩
  | posting todo pushed result => exact .inl ⟨trivial, posting_takes hw h⟩

variable {event : Event E P C} {x : Nat}

/-- A step of the system, with which the run of an element goes on or begins. -/
theorem step_takes (ha : Accounted net s) (hs : s.step net event = some s')
    (hlive : (s'.worker e).Live) (hc : net.target c = e) :
    ((s.worker e).Live ∧ s'.runs e = s.runs e ∧ Takes s s' event e c) ∨
    ∃ x, s.worker e = .entered x ∧ s'.runs e = s.runs e ++ [x] ∧ s'.taken c = s.taken c := by
  cases event with
  | schedule order answer =>
    have ht : Turn net s s' := schedule_cases hs
    obtain ⟨hruns, htaken⟩ := ht.records
    obtain ⟨hsame, -⟩ | ⟨-, -, hidle⟩ | ⟨serial, -, hd⟩ := ht.worker_cases ha e
    · rw [hsame] at hlive
      refine .inl ⟨hlive, congrFun hruns e, .nothing (congrFun htaken c) (fun _ => id) ?_⟩
      rw [hsame]
      exact id
    · rw [hidle] at hlive
      exact hlive.elim
    · rw [hd] at hlive
      exact hlive.elim
  | work e' action =>
    by_cases he : e' = e
    · subst e'
      exact work_takes (ha.shaped e) hs hlive
    · obtain ⟨w', hw⟩ := work_cases (ha.shaped e') hs
      have hsame : s'.worker e = s.worker e := by
        rw [hw.worker, Function.update_of_ne (Ne.symm he)]
      have hothers := hw.run.others (Ne.symm he)
      rw [hsame] at hlive
      refine .inl ⟨hlive, hothers.runs, .nothing (hothers.taken c hc) (fun x hx => he hx.1) ?_⟩
      rw [hsame]
      exact id

/-- Until `__process` begins the pins stay as they are. -/
theorem step_entered (ha : Accounted net s) (hs : s.step net event = some s')
    (hc : net.target c = e) (hentered : s.worker e = .entered x) (hruns : s'.runs e = s.runs e) :
    s'.worker e = .entered x ∧ s'.taken c = s.taken c ∧ ∀ y, ¬ Removes e c y s event := by
  cases event with
  | schedule order answer =>
    have ht : Turn net s s' := schedule_cases hs
    obtain ⟨hsame, -⟩ | ⟨-, hfinished, -⟩ | ⟨serial, hidle, -⟩ := ht.worker_cases ha e
    · exact ⟨hsame.trans hentered, congrFun ht.records.2 c, fun _ => id⟩
    · rw [hfinished] at hentered
      cases hentered
    · rw [hidle] at hentered
      cases hentered
  | work e' action =>
    by_cases he : e' = e
    · subst e'
      have hbegins : s'.runs e = s.runs e ++ [x] := by
        simp only [PipelineState.step, PipelineState.work, hentered] at hs
        split at hs
        all_goals
          split at hs
          · cases hs
            exact Function.update_self ..
          · cases hs
      rw [hbegins] at hruns
      exact absurd hruns (by simp)
    · obtain ⟨w', hw⟩ := work_cases (ha.shaped e') hs
      refine ⟨?_, (hw.run.others (Ne.symm he)).taken c hc, fun y hy => he hy.1⟩
      rw [hw.worker, Function.update_of_ne (Ne.symm he), hentered]

theorem step_runs_isPrefix (ha : Accounted net s) (hs : s.step net event = some s') :
    s.runs e <+: s'.runs e := by
  cases event with
  | schedule order answer =>
    have ht : Turn net s s' := schedule_cases hs
    rw [ht.records.1]
  | work e' action =>
    obtain ⟨w', hw⟩ := work_cases (ha.shaped e') hs
    exact hw.records.1 e

/-- What a run has taken from a pin, as far as it has come. -/
structure TakenBy (net : Network E P C) (s₀ : PipelineState E P C) (x : Nat)
    (es : List (Event E P C)) (s : PipelineState E P C) (e : E) (c : C) : Prop where
  grows : s₀.runs e <+: s.runs e
  waiting : s.runs e = s₀.runs e → s.worker e = .entered x ∧ s.taken c = s₀.taken c ∧
    ∀ y, ¬ Occurs (PipelineState.step net) (Removes e c y) s₀ es
  live : (s.worker e).Live → s.runs e = s₀.runs e ++ [x] →
    (s.taken c = s₀.taken c ∧ ∀ y, ¬ Occurs (PipelineState.step net) (Removes e c y) s₀ es) ∨
    (¬ (s.worker e).untaken c ∧ ∃ y, s.taken c = s₀.taken c ++ [y] ∧
      ∀ z, Occurs (PipelineState.step net) (Removes e c z) s₀ es ↔ y = z)

variable {s₀ t : PipelineState E P C} {es : List (Event E P C)}

theorem TakenBy.step (h : TakenBy net s₀ x es t e c) (ha : Accounted net t)
    (hr : run (PipelineState.step net) s₀ es = some t) (hs : t.step net event = some s)
    (hc : net.target c = e) : TakenBy net s₀ x (es ++ [event]) s e c := by
  have hgrows := step_runs_isPrefix (e := e) ha hs
  have hoccurs (y : Nat) := occurs_concat (p := Removes e c y) (e := event) hr
  constructor
  case grows => exact h.grows.trans hgrows
  case waiting =>
    intro hruns
    have hold : t.runs e = s₀.runs e :=
      (h.grows.eq_of_length_le (by rw [← hruns]; exact hgrows.length_le)).symm
    obtain ⟨hentered, htaken, hnot⟩ := h.waiting hold
    obtain ⟨hentered', htaken', hnot'⟩ := step_entered ha hs hc hentered (hruns.trans hold.symm)
    refine ⟨hentered', htaken'.trans htaken, fun y => ?_⟩
    rw [hoccurs, not_or]
    exact ⟨hnot y, hnot' y⟩
  case live =>
    intro hlive hruns
    obtain ⟨hlive', hsame, htakes⟩ | ⟨y, hentered, hbegins, htaken⟩ := step_takes ha hs hlive hc
    · have hold := h.live hlive' (hsame.symm.trans hruns)
      cases htakes with
      | nothing htaken hnot huntaken =>
        have hiff (y : Nat) : Occurs (PipelineState.step net) (Removes e c y) s₀ (es ++ [event]) ↔
            Occurs (PipelineState.step net) (Removes e c y) s₀ es := by
          rw [hoccurs]
          exact or_iff_left (hnot y)
        rw [htaken]
        refine hold.imp (fun hnone => ⟨hnone.1, fun y => ?_⟩) fun ⟨hdone, y, hy, hz⟩ =>
          ⟨fun hu => hdone (huntaken hu), y, hy, fun z => ?_⟩
        · rw [hiff]
          exact hnone.2 y
        · rw [hiff]
          exact hz z
      | first y htaken hremoves huntaken hdone =>
        obtain ⟨hnone, hnot⟩ := hold.resolve_right fun hold => hold.1 huntaken
        refine .inr ⟨hdone, y, by rw [htaken, hnone], fun z => ?_⟩
        rw [hoccurs, or_iff_right (hnot z)]
        exact hremoves z
    · left
      have hold : t.runs e = s₀.runs e := (List.append_inj' (hbegins.symm.trans hruns) rfl).1
      obtain ⟨-, htaken₀, hnot⟩ := h.waiting hold
      refine ⟨htaken.trans htaken₀, fun z => ?_⟩
      rw [hoccurs, not_or]
      refine ⟨hnot z, ?_⟩
      cases event with
      | schedule => exact id
      | work e' action =>
        rintro ⟨-, -, hz⟩
        rw [hentered] at hz
        exact hz

theorem run_takes (ha : Accounted net s₀) (hentered : s₀.worker e = .entered x)
    (hr : run (PipelineState.step net) s₀ es = some s) (hc : net.target c = e) :
    Accounted net s ∧ TakenBy net s₀ x es s e c := by
  induction es using List.reverseRecOn generalizing s with
  | nil =>
    cases hr
    refine ⟨ha, List.prefix_rfl, fun _ => ⟨hentered, rfl, fun y => occurs_nil _⟩, fun hlive => ?_⟩
    rw [hentered] at hlive
    exact hlive.elim
  | append_singleton es event ih =>
    rw [run_concat] at hr
    obtain ⟨t, ht, hs⟩ := Option.bind_eq_some_iff.mp hr
    obtain ⟨ha', htaken⟩ := ih ht
    exact ⟨ha'.step hs, htaken.step ha' ht hs hc⟩

/-- A `__process` that returns true has removed one item from each synchronous pin, that of its
own frame, exactly when `process()` has called `get()` or `clear()` on each of them with that item
in front, or a NULL was found and it was flushed. -/
theorem mandatory_consumption
    (h : Reaches (PipelineState.step net) (fun _ _ => True) (.started first stale) s₀)
    (hentered : s₀.worker e = .entered x) (hr : run (PipelineState.step net) s₀ es = some s)
    (hend : s.worker e = .ending true) (hruns : s.runs e = s₀.runs e ++ [x]) :
    (∀ c ∈ net.syncInputs e, s.taken c = s₀.taken c ++ [x]) ↔
      ∀ c ∈ net.syncInputs e, Occurs (PipelineState.step net) (Removes e c x) s₀ es := by
  refine forall₂_congr fun c hc => ?_
  obtain ⟨-, htaken⟩ :=
    run_takes (reaches_accounted h) hentered hr ((net.mem_syncInputs e c).mp hc).1
  obtain ⟨hnone, hnot⟩ | ⟨-, y, hy, hremoved⟩ := htaken.live (by rw [hend]; trivial) hruns
  · rw [hnone]
    exact iff_of_false (by simp) (hnot x)
  · rw [hy, hremoved]
    simp

end

/-- Whether `__process` has returned true. -/
def Worker.returnedTrue : Worker P C → Bool
  | .ending b => b
  | _ => false

theorem Worker.ending_of_returnedTrue {w : Worker P C} (h : w.returnedTrue = true) :
    w = .ending true := by
  cases w with
  | ending b => exact congrArg Worker.ending h
  | _ => cases h

def Worker.entering : Worker P C → Option Nat
  | .entered serial => some serial
  | _ => none

theorem Worker.entered_of_entering {w : Worker P C} {x : Nat} (h : w.entering = some x) :
    w = .entered x := by
  cases w with
  | entered serial => rw [← Option.some.inj h]
  | _ => cases h

/-- The processor gets its item. -/
theorem mandatory_consumption_chain : ∃ (s₀ s : PipelineState (Fin 3) (Fin 2) (Fin 2))
    (es : List (Event (Fin 3) (Fin 2) (Fin 2))), s.taken 0 = [1] ∧
      ∀ c ∈ (chain true).syncInputs 1,
        Occurs (PipelineState.step (chain true)) (Removes 1 c 1) s₀ es := by
  have hall : (run (PipelineState.step (chain true)) (.started 1 fun _ _ => 0)
      (chainFrame.take 36)).bind (fun s₀ => (run (PipelineState.step (chain true)) s₀
        ((chainFrame.drop 36).take 10)).map fun s => (((s₀.worker 1).entering,
          (s.worker 1).returnedTrue), s₀.runs 1, s.runs 1, s₀.taken 0, s.taken 0)) =
      some ((some 1, true), [], [1], [], [1]) := by decide +kernel
  obtain ⟨s₀, hs₀, hall⟩ := Option.bind_eq_some_iff.mp hall
  obtain ⟨s, hs, hview⟩ := Option.map_eq_some_iff.mp hall
  obtain ⟨⟨hentering, hreturned⟩, hruns₀, hruns, htaken₀, htaken⟩ := by
    simpa only [Prod.mk.injEq] using hview
  refine ⟨s₀, s, _, htaken, (mandatory_consumption (.of_run (fun _ _ _ => trivial) hs₀)
    (Worker.entered_of_entering hentering) hs (Worker.ending_of_returnedTrue hreturned)
    (by rw [hruns, hruns₀]; rfl)).mp ?_⟩
  intro c hc
  obtain rfl : c = 0 := by
    revert c
    decide
  rw [htaken, htaken₀]
  rfl

/-- The processor returns true at once, and its item stays in front. -/
theorem mandatory_consumption_fails : ∃ (s₀ s : PipelineState (Fin 3) (Fin 2) (Fin 2))
    (es : List (Event (Fin 3) (Fin 2) (Fin 2))),
    Reaches (PipelineState.step (chain true)) (fun _ _ => True) (.started 1 fun _ _ => 0) s₀ ∧
      s₀.worker 1 = .entered 1 ∧ run (PipelineState.step (chain true)) s₀ es = some s ∧
      s.worker 1 = .ending true ∧ s.runs 1 = s₀.runs 1 ++ [1] ∧ s.m_state 1 ≠ .PLE_ERROR ∧
      (0 : Fin 2) ∈ (chain true).syncInputs 1 ∧ s.taken 0 ≠ s₀.taken 0 ++ [1] ∧
      s.m_queue 0 = [⟨1, false⟩] := by
  have hall : (run (PipelineState.step (chain true)) (.started 1 fun _ _ => 0)
      (chainFrame.take 36)).bind (fun s₀ => (run (PipelineState.step (chain true)) s₀
        (List.replicate 7 (.work 1 (.returns true)))).map fun s => (((s₀.worker 1).entering,
          (s.worker 1).returnedTrue, s.m_state 1), (s₀.runs 1, s.runs 1), s.taken 0, s.m_queue 0)) =
      some ((some 1, true, .PLE_RUNNING), ([], [1]), [], [⟨1, false⟩]) := by decide +kernel
  obtain ⟨s₀, hs₀, hall⟩ := Option.bind_eq_some_iff.mp hall
  obtain ⟨s, hs, hview⟩ := Option.map_eq_some_iff.mp hall
  obtain ⟨⟨hentering, hreturned, hstate⟩, ⟨hruns₀, hruns⟩, htaken, hqueue⟩ := by
    simpa only [Prod.mk.injEq] using hview
  refine ⟨s₀, s, _, .of_run (fun _ _ _ => trivial) hs₀, Worker.entered_of_entering hentering, hs,
    Worker.ending_of_returnedTrue hreturned, by rw [hruns, hruns₀]; rfl, by rw [hstate]; decide,
    by decide, ?_, hqueue⟩
  rw [htaken]
  simp

end ParleVision.Runtime
