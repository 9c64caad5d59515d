import ParleVision.Runtime.Stop

namespace ParleVision.Runtime
open Lib
open ParleVision.Lifecycle (State)

def StopEvent.schedules : StopEvent E P C → Bool
  | .pipeline (.schedule ..) => true
  | .pipeline (.work ..) | .stop .. => false

/-- A run that ends with the element in PLE_ERROR returns false. -/
def Reports (s : StopState E P C) : StopEvent E P C → Prop
  | .pipeline (.work e _) =>
    match s.worker e with
    | .ending true => s.m_state e ≠ .PLE_ERROR
    | _ => True
  | .pipeline (.schedule ..) | .stop .. => True

/-- The loop of `schedule` over the run queue has not passed the element. -/
def Phase.Before (e : E) : Phase E C → Prop
  | .idle | .stopping => True
  | .reaping todo => e ∈ todo
  | _ => False

/-- The steps of `schedule` up to the end of that loop, of a call that has not begun yet or that is
in the loop. -/
def PipelineState.untilReaped (s : PipelineState E P C) : Nat :=
  match s.phase with
  | .idle => s.m_runQueue.length + 1
  | .reaping todo => todo.length
  | _ => 0

variable {E P C : Type} [DecidableEq E] [DecidableEq P] [DecidableEq C] {net : Network E P C}
  {first : Nat} {stale : E → Nat → Nat}

/-- What holds with errors that are not reported, too. -/
structure Sound (net : Network E P C) (s : StopState E P C) : Prop where
  running : s.stopPhase = .running → Running net s.pipeline
  shaped : ∀ e, (s.worker e).Shaped net e

/-- While the pipeline runs, a run that has returned true is seen to be done. -/
structure Reporting (s : StopState E P C) : Prop where
  unharmed : s.stopPhase = .running → ∀ e, s.worker e = .notError true → s.m_state e ≠ .PLE_ERROR
  done : s.stopPhase = .running → ∀ e, s.worker e = .finished true → s.m_state e = .PLE_DONE

/-- The run has still to find out whether the element is in PLE_ERROR. -/
def Worker.Unjudged : Worker P C → Prop
  | .notError _ | .finished _ => False
  | _ => True

section
variable {s s' : PipelineState E P C} {e : E} {action : Action P C}

omit [DecidableEq P] [DecidableEq C] in
theorem goto_unjudged {w : Worker P C} (hw : w.Unjudged) : ((s.goto e w).worker e).Unjudged := by
  change (Function.update s.worker e w e).Unjudged
  rw [Function.update_self]
  exact hw

theorem process_unjudged {calls : Calls P C} (hw : s.worker e = .processing calls)
    (h : s.process net e calls action = some s') : (s'.worker e).Unjudged := by
  cases action with
  | get c | clear c =>
    simp only [PipelineState.process] at h
    split at h
    · split at h
      · cases h
        exact goto_unjudged trivial
      · split at h
        · cases h
          exact goto_unjudged trivial
        · cases h
          apply goto_unjudged
          first
            | trivial
            | split <;> trivial
    · cases h
  | put p =>
    simp only [PipelineState.process] at h
    split at h
    · split at h <;> cases h <;> exact goto_unjudged trivial
    · cases h
  | setError =>
    cases h
    change (s.worker e).Unjudged
    rw [hw]
    trivial
  | returns b | throws =>
    cases h
    exact goto_unjudged trivial

/-- How a run comes to its last steps. -/
theorem work_judged (h : s.work net e action = some s') :
    (s'.worker e).Unjudged ∨
    (∃ b, s.worker e = .ending b ∧ s'.m_state = s.m_state ∧
      ((s.m_state e = .PLE_ERROR ∧ s'.worker e = .finished b) ∨
        (s.m_state e ≠ .PLE_ERROR ∧ s'.worker e = .notError b))) ∨
    (∃ b, s.worker e = .notError b ∧ s'.worker e = .finished b ∧ s'.m_state e = .PLE_DONE) ∨
    s'.worker e = .finished false := by
  have hgoto {t : PipelineState E P C} {w : Worker P C} (hs : s' = t.goto e w) :
      s'.worker e = w := by
    rw [hs]
    exact Function.update_self ..
  unfold PipelineState.work at h
  cases hw : s.worker e with
  | idle | finished => simp [hw] at h
  | ending b =>
    simp only [hw] at h
    right; left
    refine ⟨b, rfl, by cases h; rfl, ?_⟩
    rw [hgoto (Option.some.inj h).symm]
    by_cases herror : s.m_state e = .PLE_ERROR
    · exact .inl ⟨herror, if_pos herror⟩
    · exact .inr ⟨herror, if_neg herror⟩
  | notError b =>
    simp only [hw] at h
    right; right; left
    refine ⟨b, rfl, hgoto (Option.some.inj h).symm, ?_⟩
    cases h
    exact Function.update_self ..
  | leaving =>
    simp only [hw] at h
    exact .inr (.inr (.inr (hgoto (Option.some.inj h).symm)))
  | processing calls =>
    simp only [hw] at h
    exact .inl (process_unjudged hw h)
  | dispatched | entered | thrown =>
    simp only [hw] at h
    left
    (repeat' split at h) <;> cases h <;> exact goto_unjudged trivial
  | peeking todo | flushing todo =>
    left
    cases todo <;> simp only [hw] at h <;> (repeat' split at h) <;> cases h <;>
      exact goto_unjudged trivial
  | putting calls todo pushed | posting todo pushed =>
    left
    cases todo <;> cases pushed <;> simp only [hw] at h <;> (repeat' split at h) <;> cases h <;>
      exact goto_unjudged trivial

end

section
variable {s s' : StopState E P C} {e : E}

omit [DecidableEq P] in
theorem next_not_running {order : List E} {hook : Hook} (h : s.next net order hook = some s') :
    s'.stopPhase ≠ .running ∧ s'.worker = s.worker ∧ s'.dispatched = s.dispatched := by
  cases next_cases h with
  | stopError hp | deinitError hp =>
    refine ⟨?_, rfl, rfl⟩
    change s.stopPhase ≠ .running
    rw [hp]
    exact nofun
  | _ => exact ⟨nofun, rfl, rfl⟩

/-- `schedule` is called while the pipeline runs only. -/
theorem step_schedule {order : List E} {answer : Bool}
    (h : s.step net (.pipeline (.schedule order answer)) = some s') :
    s.stopPhase = .running ∧ ∃ pipeline,
      s.pipeline.schedule net order answer = some pipeline ∧ s' = s.withPipeline pipeline := by
  simp only [StopState.step] at h
  split at h
  case h_1 hp =>
    obtain ⟨pipeline, hpipeline, rfl⟩ := Option.map_eq_some_iff.mp h
    exact ⟨hp, pipeline, hpipeline, rfl⟩
  · cases h

/-- What a pipeline that runs does next leaves it running. -/
theorem step_pipeline {event : StopEvent E P C} (h : s.step net event = some s')
    (hrunning : s'.stopPhase = .running) : ∃ pipelineEvent, event = .pipeline pipelineEvent ∧
      s.stopPhase = .running ∧ s.pipeline.step net pipelineEvent = some s'.pipeline := by
  cases event with
  | stop order hook => exact absurd hrunning (next_not_running h).1
  | pipeline event =>
    refine ⟨event, rfl, ?_⟩
    cases event with
    | schedule order answer =>
      obtain ⟨hp, pipeline, hpipeline, rfl⟩ := step_schedule h
      exact ⟨hp, hpipeline⟩
    | work e action =>
      simp only [StopState.step] at h
      split at h
      · cases h
      case h_2 hp =>
        split at h
        · cases h
          change s.stopPhase = _ at hrunning
          rw [hp] at hrunning
          cases hrunning
        · cases h
      case h_3 hw _ =>
        cases h
        exact ⟨hrunning, hw⟩

/-- A step of a run, in a pipeline that is being stopped or not. -/
theorem step_work {action : Action P C}
    (h : s.step net (.pipeline (.work e action)) = some s') :
    s.pipeline.work net e action = some s'.pipeline ∧ s'.stopPhase = s.stopPhase := by
  simp only [StopState.step] at h
  split at h
  · cases h
  case h_2 hw hp =>
    split at h
    · cases h
      exact ⟨hw, rfl⟩
    · cases h
  case h_3 hw _ =>
    cases h
    exact ⟨hw, rfl⟩

omit [DecidableEq E] [DecidableEq P] in
theorem started_sound : Sound net (.started first stale : StopState E P C) where
  running _ := started_running
  shaped _ := trivial

omit [DecidableEq E] [DecidableEq P] [DecidableEq C] in
theorem started_reporting : Reporting (.started first stale : StopState E P C) where
  unharmed _ _ h := by cases h
  done _ _ h := by cases h

theorem Sound.step {event : StopEvent E P C} (h : Sound net s)
    (hs : s.step net event = some s') : Sound net s' := by
  have hrunning (hp : s'.stopPhase = .running) : Running net s'.pipeline := by
    obtain ⟨pipelineEvent, -, hold, hstep⟩ := step_pipeline hs hp
    exact (h.running hold).step hstep
  refine ⟨hrunning, ?_⟩
  cases event with
  | stop order hook =>
    intro e
    rw [(next_not_running hs).2.1]
    exact h.shaped e
  | pipeline event =>
    cases event with
    | schedule order answer =>
      obtain ⟨hp, pipeline, -, rfl⟩ := step_schedule hs
      exact (hrunning hp).accounted.shaped
    | work e action =>
      obtain ⟨hw, -⟩ := step_work hs
      obtain ⟨-, -, hothers, hshaped⟩ := work_others (h.shaped e) hw
      intro e'
      by_cases he : e' = e
      · exact he ▸ hshaped
      · rw [(hothers e' he).2]
        exact h.shaped e'

theorem Reporting.step {event : StopEvent E P C} (h : Reporting s) (hsound : Sound net s)
    (hreports : Reports s event) (hs : s.step net event = some s') : Reporting s' := by
  cases event with
  | stop order hook =>
    have hnot := (next_not_running hs).1
    exact ⟨fun hp => absurd hp hnot, fun hp => absurd hp hnot⟩
  | pipeline event =>
    cases event with
    | schedule order answer =>
      obtain ⟨hp, pipeline, hpipeline, rfl⟩ := step_schedule hs
      have ht : Turn net s.pipeline pipeline := schedule_cases hpipeline
      have ha := (hsound.running hp).accounted
      refine ⟨fun _ e hnot => ?_, fun _ e hfin => ?_⟩
      · change pipeline.worker e = _ at hnot
        obtain ⟨hw, hstate⟩ | ⟨-, -, hidle⟩ | ⟨serial, -, hd⟩ := ht.worker_cases ha e
        · change pipeline.m_state e ≠ _
          rw [hstate]
          exact h.unharmed hp e (hw.symm.trans hnot)
        · rw [hidle] at hnot
          cases hnot
        · rw [hd] at hnot
          cases hnot
      · change pipeline.worker e = _ at hfin
        obtain ⟨hw, hstate⟩ | ⟨-, -, hidle⟩ | ⟨serial, -, hd⟩ := ht.worker_cases ha e
        · change pipeline.m_state e = _
          rw [hstate]
          exact h.done hp e (hw.symm.trans hfin)
        · rw [hidle] at hfin
          cases hfin
        · rw [hd] at hfin
          cases hfin
    | work e action =>
      obtain ⟨hw, hphase⟩ := step_work hs
      obtain ⟨-, -, hothers, -⟩ := work_others (hsound.shaped e) hw
      have hjudged := work_judged hw
      constructor
      case unharmed =>
        intro hp e' hnot
        rw [hphase] at hp
        by_cases he : e' = e
        · subst e'
          rw [hnot] at hjudged
          obtain hu | ⟨b, hend, hstate, ⟨-, hfin⟩ | ⟨hne, -⟩⟩ | ⟨b, -, hfin, -⟩ | hfin := hjudged
          · exact hu.elim
          · cases hfin
          · rw [hstate]
            exact hne
          · cases hfin
          · cases hfin
        · rw [(hothers e' he).2] at hnot
          rw [(hothers e' he).1]
          exact h.unharmed hp e' hnot
      case done =>
        intro hp e' hfinished
        rw [hphase] at hp
        by_cases he : e' = e
        · subst e'
          rw [hfinished] at hjudged
          obtain hu | ⟨b, hend, hstate, ⟨herror, hfin⟩ | ⟨-, hnot⟩⟩ | ⟨b, -, -, hdone⟩ | hfin :=
            hjudged
          · exact hu.elim
          · cases hfin
            simp only [Reports, hend] at hreports
            exact absurd herror hreports
          · cases hnot
          · exact hdone
          · cases hfin
        · rw [(hothers e' he).2] at hfinished
          rw [(hothers e' he).1]
          exact h.done hp e' hfinished

structure Failed (net : Network E P C) (e : E) (log : List Nat) (s : StopState E P C) : Prop where
  finished : (s.worker e).Over
  dispatched : s.dispatched e = log
  running : s.stopPhase = .running → s.m_state e = .PLE_ERROR ∧ s.worker e = .finished false
  undefined : ∀ b todo, s.stopPhase = .undefined e b todo →
    s.m_state e = .PLE_UNDEFINED ∨ s.m_state e = .PLE_ERROR
  left : e ∉ s.stopPhase.remaining net → s.m_state e = .PLE_UNDEFINED ∨ s.m_state e = .PLE_ERROR

variable {log : List Nat}

omit [DecidableEq E] [DecidableEq P] [DecidableEq C] in
/-- `stop` goes on elsewhere. -/
theorem Failed.goto (h : Failed net e log s) {stopPhase : StopPhase E C}
    (hrunning : stopPhase ≠ .running)
    (hremaining : e ∉ stopPhase.remaining net → e ∉ s.stopPhase.remaining net ∨
      s.m_state e = .PLE_UNDEFINED ∨ s.m_state e = .PLE_ERROR)
    (hundefined : ∀ b todo, stopPhase ≠ .undefined e b todo) :
    Failed net e log (s.goto stopPhase) where
  finished := h.finished
  dispatched := h.dispatched
  running hp := absurd hp hrunning
  undefined b todo hp := absurd hp (hundefined b todo)
  left hnot := (hremaining hnot).elim h.left id

omit [DecidableEq P] [DecidableEq C] in
/-- `stop` sets the state of an element that it is not done with. -/
theorem Failed.setState (h : Failed net e log s) {e' : E} {state : State}
    (hrunning : s.stopPhase ≠ .running) (he : e' ∈ s.stopPhase.remaining net)
    (hundefined : ∀ e b todo, s.stopPhase ≠ .undefined e b todo) :
    Failed net e log (s.setState e' state) where
  finished := h.finished
  dispatched := h.dispatched
  running hp := absurd hp hrunning
  undefined b todo hp := absurd hp (hundefined e b todo)
  left hnot := by
    have hne : e ≠ e' := fun heq => hnot (heq ▸ he)
    change Function.update s.m_state e' state e = _ ∨ Function.update s.m_state e' state e = _
    rw [Function.update_of_ne hne]
    exact h.left hnot

omit [DecidableEq P] in
theorem Failed.next {order : List E} {hook : Hook} (h : Failed net e log s)
    (hs : s.next net order hook = some s') : Failed net e log s' := by
  cases next_cases hs with
  | called | waits | waited | skips =>
    exact h.goto (by simp) (fun hnot => absurd (net.mem_children e) hnot) (by simp)
  | @removes e' todo hp hstate =>
    have hremoved : Failed net e log
        (s.withPipeline { s.pipeline with m_runQueue := s.m_runQueue.erase e' }) :=
      ⟨h.finished, h.dispatched, h.running, h.undefined, h.left⟩
    exact hremoved.goto (by simp) (fun hnot => absurd (net.mem_children e) hnot) (by simp)
  | @restarts e' todo hp =>
    have hset : Failed net e log (s.setState e' .PLE_STARTED) :=
      h.setState (by simp [hp]) (by rw [hp]; exact net.mem_children e') (by simp [hp])
    exact hset.goto (by simp) (fun hnot => absurd (net.mem_children e) hnot) (by simp)
  | leaves hp | deinits hp =>
    exact h.goto (by simp) (fun hnot => .inl (by rw [hp]; exact hnot)) (by simp)
  | left hp | flushed hp | allFlushed hp =>
    exact h.goto (by simp) (fun _ => .inl (by rw [hp]; exact List.not_mem_nil)) (by simp)
  | stopError hp | deinitError hp =>
    exact h.setState (by simp [hp]) (by rw [hp]; exact List.mem_cons_self ..) (by simp [hp])
  | @stops e' todo b state hp hstate =>
    have hset : Failed net e log (s.setState e' state) :=
      h.setState (by simp [hp]) (by rw [hp]; exact List.mem_cons_self ..) (by simp [hp])
    refine hset.goto (by simp) (fun hnot => .inl ?_) (by simp)
    change e ∉ s.stopPhase.remaining net
    rw [hp]
    exact hnot
  | @deinited e' b todo hp =>
    have hset : Failed net e log (s.setState e' .PLE_UNDEFINED) :=
      h.setState (by simp [hp]) (by rw [hp]; exact List.mem_cons_self ..) (by simp [hp])
    refine ⟨h.finished, h.dispatched, (fun heq => by cases heq), fun b todo heq => ?_, fun hnot => ?_⟩
    · cases heq
      exact .inl (Function.update_self ..)
    · apply hset.left
      change e ∉ s.stopPhase.remaining net
      rw [hp]
      exact hnot
  | @deinitFails e' b todo hp =>
    have hset : Failed net e log (s.setState e' .PLE_ERROR) :=
      h.setState (by simp [hp]) (by rw [hp]; exact List.mem_cons_self ..) (by simp [hp])
    refine hset.goto (by simp) (fun hnot => ?_) (by simp)
    by_cases he : e = e'
    · subst e'
      exact .inr (.inr (Function.update_self ..))
    · left
      change e ∉ s.stopPhase.remaining net
      rw [hp]
      exact fun hmem => (List.mem_cons.mp hmem).elim he hnot
  | @resets e' b todo hp =>
    refine ⟨h.finished, h.dispatched, (fun heq => by cases heq), (fun _ _ heq => by cases heq),
      fun hnot => ?_⟩
    by_cases he : e = e'
    · subst e'
      exact h.undefined b todo hp
    · apply h.left
      rw [hp]
      exact fun hmem => (List.mem_cons.mp hmem).elim he hnot
  | @flushes c todo hp =>
    have hflushed : Failed net e log (s.withPipeline (s.pipeline.withFlow (s.flow.flush c))) :=
      ⟨h.finished, h.dispatched, h.running, h.undefined, h.left⟩
    refine hflushed.goto (by simp) (fun _ => .inl ?_) (by simp)
    change e ∉ s.stopPhase.remaining net
    rw [hp]
    exact List.not_mem_nil
  | clears hp =>
    have hcleared : Failed net e log { s with m_readyQueue := fun _ => [] } :=
      ⟨h.finished, h.dispatched, h.running, h.undefined, h.left⟩
    refine hcleared.goto (by simp) (fun _ => .inl ?_) (by simp)
    change e ∉ s.stopPhase.remaining net
    rw [hp]
    exact List.not_mem_nil

omit [DecidableEq E] [DecidableEq P] [DecidableEq C] in
/-- What stays of an element that is left alone. -/
theorem Failed.congr (h : Failed net e log s) (hphase : s'.stopPhase = s.stopPhase)
    (hworker : s'.worker e = s.worker e) (hstate : s'.m_state e = s.m_state e)
    (hdispatched : s'.dispatched e = s.dispatched e) : Failed net e log s' where
  finished := hworker ▸ h.finished
  dispatched := hdispatched.trans h.dispatched
  running hp := by
    rw [hphase] at hp
    rw [hstate, hworker]
    exact h.running hp
  undefined b todo hp := by
    rw [hphase] at hp
    rw [hstate]
    exact h.undefined b todo hp
  left hnot := by
    rw [hphase] at hnot
    rw [hstate]
    exact h.left hnot

theorem Failed.step {event : StopEvent E P C} (h : Failed net e log s) (hr : Sound net s)
    (hs : s.step net event = some s') : Failed net e log s' := by
  cases event with
  | stop order hook => exact h.next hs
  | pipeline event =>
    cases event with
    | schedule order answer =>
      obtain ⟨hp, pipeline, hpipeline, rfl⟩ := step_schedule hs
      have ht : Turn net s.pipeline pipeline := schedule_cases hpipeline
      obtain ⟨herror, hfinished⟩ := h.running hp
      obtain ⟨hw, hstate⟩ | ⟨-, hfin, -⟩ | ⟨serial, hidle, -⟩ :=
        ht.worker_cases (hr.running hp).accounted e
      · refine h.congr rfl hw hstate ?_
        change pipeline.dispatched e = _
        cases ht with
        | moves | reaps | ticks => rfl
        | @dispatches e' _ serial _ _ _ _ hd _ hflow =>
          have hne : e ≠ e' := by
            rintro rfl
            rw [hd.state] at herror
            cases herror
          rw [hflow]
          exact Function.update_of_ne hne ..
        | @produces e' _ _ _ hd _ hflow =>
          have hne : e ≠ e' := by
            rintro rfl
            rw [hd.state] at herror
            cases herror
          rw [hflow]
          exact Function.update_of_ne hne ..
      · rw [hfin] at hfinished
        cases hfinished
      · rw [hidle] at hfinished
        cases hfinished
    | work e' action =>
      obtain ⟨hw, hphase⟩ := step_work hs
      have hne : e ≠ e' := by
        rintro rfl
        exact not_over_of_work hw h.finished
      obtain ⟨w', hworks⟩ := work_cases (hr.shaped e') hw
      refine h.congr hphase ?_ (hworks.others e hne) (hworks.run.others hne).dispatched
      rw [hworks.worker, Function.update_of_ne hne]

/-- `schedule` does not pass an element in error, and each of its steps brings it closer to it. -/
theorem Failed.before {event : StopEvent E P C} (h : Failed net e log s) (hr : Sound net s)
    (hbefore : s.phase.Before e) (hs : s.step net event = some s')
    (hrunning : s'.stopPhase = .running) : s'.phase.Before e ∧
      s'.untilReaped + [event].countP StopEvent.schedules ≤ s.untilReaped := by
  obtain ⟨pipelineEvent, rfl, hp, hstep⟩ := step_pipeline hs hrunning
  obtain ⟨-, hfinished⟩ := h.running hp
  cases pipelineEvent with
  | schedule order answer =>
    have hqueued : e ∈ s.m_runQueue := by
      rw [(hr.running hp).queued, hfinished]
      trivial
    change s'.phase.Before e ∧ s'.untilReaped + 1 ≤ s.untilReaped
    simp only [PipelineState.step, PipelineState.schedule] at hstep
    unfold PipelineState.untilReaped
    cases hphase : s.phase with
    | idle =>
      simp only [hphase] at hstep
      split at hstep
      case isTrue hperm =>
        rw [← Option.some.inj hstep]
        exact ⟨hperm.mem_iff.mpr hqueued, by simp [hperm.length_eq]⟩
      · cases hstep
    | reaping todo =>
      rw [hphase] at hbefore
      cases todo with
      | nil => cases hbefore
      | cons e' todo =>
        simp only [hphase] at hstep
        split at hstep
        case h_1 hw =>
          rw [← Option.some.inj hstep]
          refine ⟨(List.mem_cons.mp hbefore).resolve_left ?_, by
            simp [PipelineState.setState, PipelineState.goto]⟩
          rintro rfl
          rw [hw] at hfinished
          cases hfinished
        case h_2 =>
          rw [← Option.some.inj hstep]
          exact ⟨trivial, by simp⟩
        case h_3 hnot =>
          rw [← Option.some.inj hstep]
          refine ⟨(List.mem_cons.mp hbefore).resolve_left ?_, by simp⟩
          rintro rfl
          exact hnot hfinished
    | stopping => simp [hphase] at hstep
    | dispatching | measuring | asking | producing =>
      rw [hphase] at hbefore
      exact hbefore.elim
  | work e' action =>
    obtain ⟨hphase, hqueue, -, -⟩ := work_others (hr.shaped e') hstep
    change s'.phase.Before e ∧ s'.untilReaped + 0 ≤ s.untilReaped
    unfold PipelineState.untilReaped
    rw [hphase, hqueue]
    exact ⟨hbefore, Nat.le_refl _⟩

theorem running_of_run {es : List (StopEvent E P C)}
    (hr : run (StopState.step net) s es = some s') (hrunning : s'.stopPhase = .running) :
    s.stopPhase = .running := by
  induction es generalizing s with
  | nil =>
    cases hr
    exact hrunning
  | cons event es ih =>
    obtain ⟨t, ht, hr⟩ := Option.bind_eq_some_iff.mp hr
    obtain ⟨-, -, hold, -⟩ := step_pipeline ht (ih hr)
    exact hold

theorem Failed.run_before {es : List (StopEvent E P C)} (h : Failed net e log s)
    (hsound : Sound net s) (hbefore : s.phase.Before e)
    (hr : run (StopState.step net) s es = some s') (hrunning : s'.stopPhase = .running) :
    Failed net e log s' ∧ s'.phase.Before e ∧
      s'.untilReaped + es.countP StopEvent.schedules ≤ s.untilReaped := by
  induction es generalizing s with
  | nil =>
    cases hr
    exact ⟨h, hbefore, Nat.le_refl _⟩
  | cons event es ih =>
    obtain ⟨t, ht, hr⟩ := Option.bind_eq_some_iff.mp hr
    obtain ⟨hbefore', hle⟩ := h.before hsound hbefore ht (running_of_run hr hrunning)
    obtain ⟨hfailed, hbefore'', hle'⟩ := ih (h.step hsound ht) (hsound.step ht) hbefore' hr
    refine ⟨hfailed, hbefore'', ?_⟩
    have hcount : (event :: es).countP StopEvent.schedules =
        [event].countP StopEvent.schedules + es.countP StopEvent.schedules := by
      rw [← List.singleton_append, List.countP_append]
    omega

/-- `schedule` can go on until it has found that the run has failed. -/
theorem Failed.goes_on (hbefore : s.phase.Before e) (hrunning : s.stopPhase = .running) :
    s.phase = .stopping ∨ ∃ order t,
      s.step net (.pipeline (.schedule order false)) = some t := by
  cases hphase : s.phase with
  | stopping => exact .inl rfl
  | idle =>
    right
    refine ⟨s.m_runQueue, ?_⟩
    simp [StopState.step, hrunning, PipelineState.schedule, hphase]
  | reaping todo =>
    right
    rw [hphase] at hbefore
    cases todo with
    | nil => cases hbefore
    | cons e' todo =>
      simp only [StopState.step, hrunning, PipelineState.schedule, hphase]
      refine ⟨[], ?_⟩
      split <;> exact ⟨_, rfl⟩
  | dispatching | measuring | asking | producing =>
    rw [hphase] at hbefore
    exact hbefore.elim

/-- Where every run that ends in PLE_ERROR returns false, an element whose run has ended so is not
dispatched again in the session, and the next call of `schedule` does nothing but call `stop`. -/
theorem error_not_lost (h : Reaches (StopState.step net) Reports (.started first stale) s)
    {result : Bool} (hend : s.worker e = .finished result) (herror : s.m_state e = .PLE_ERROR) :
    ∀ s', Reaches (StopState.step net) (fun _ _ => True) s s' →
      s'.dispatched e = s.dispatched e ∧
      (s'.stopPhase = .returned → s'.m_state e ≠ .PLE_STARTED) ∧
      (s'.phase = .idle → ∀ es s'', run (StopState.step net) s' es = some s'' →
        s''.stopPhase = .running →
        es.countP StopEvent.schedules ≤ s'.m_runQueue.length + 1 ∧
        (s''.phase = .stopping ∨ ∃ order t,
          s''.step net (.pipeline (.schedule order false)) = some t)) := by
  obtain ⟨hsound, hreporting⟩ : Sound net s ∧ Reporting s := by
    refine h.invariant (I := fun s => Sound net s ∧ Reporting s)
      ⟨started_sound, started_reporting⟩ ?_
    intro s event s' hi hreports hs
    exact ⟨hi.1.step hs, hi.2.step hi.1 hreports hs⟩
  have hfailed : Failed net e (s.dispatched e) s := by
    refine ⟨by rw [hend]; trivial, rfl, fun hp => ⟨herror, ?_⟩, fun _ _ _ => .inr herror,
      fun _ => .inr herror⟩
    cases result with
    | false => exact hend
    | true =>
      rw [hreporting.done hp e hend] at herror
      cases herror
  intro s' hr
  obtain ⟨hsound', hfailed'⟩ : Sound net s' ∧ Failed net e (s.dispatched e) s' := by
    refine hr.invariant (I := fun s' => Sound net s' ∧ Failed net e (s.dispatched e) s')
      ⟨hsound, hfailed⟩ ?_
    intro s event s' hi _ hs
    exact ⟨hi.1.step hs, hi.2.step hi.1 hs⟩
  refine ⟨hfailed'.dispatched, fun hreturned hstarted => ?_, fun hidle es s'' hrun hrunning => ?_⟩
  · have hleft := hfailed'.left (by rw [hreturned]; exact List.not_mem_nil)
    rw [hstarted] at hleft
    obtain hleft | hleft := hleft <;> cases hleft
  · have hbefore : s'.phase.Before e := by
      rw [hidle]
      trivial
    obtain ⟨-, hbefore', hle⟩ := hfailed'.run_before hsound' hbefore hrun hrunning
    refine ⟨?_, Failed.goes_on hbefore' hrunning⟩
    have huntil : s'.untilReaped = s'.m_runQueue.length + 1 := by
      rw [PipelineState.untilReaped, hidle]
    omega

end

instance (s : StopState E P C) (event : StopEvent E P C) : Decidable (Reports s event) :=
  match event with
  | .pipeline (.work e _) =>
    match h : s.worker e with
    | .ending true => decidable_of_iff (s.m_state e ≠ .PLE_ERROR) (by rw [Reports, h])
    | .ending false | .idle | .dispatched .. | .entered .. | .peeking .. | .flushing ..
    | .processing .. | .putting .. | .posting .. | .notError .. | .thrown | .leaving
    | .finished .. => .isTrue (by rw [Reports, h]; trivial)
  | .pipeline (.schedule ..) | .stop .. => .isTrue trivial

def Worker.result : Worker P C → Option Bool
  | .finished b => some b
  | _ => none

omit [DecidableEq E] [DecidableEq P] [DecidableEq C] in
theorem Worker.finished_of_result {w : Worker P C} {b : Bool} (h : w.result = some b) :
    w = .finished b := by
  cases w with
  | finished => rw [← Option.some.inj h]
  | _ => cases h

/-- The producer calls `setError` in `produce()` and returns what is given. -/
def chainError (result : Bool) : List (StopEvent (Fin 3) (Fin 2) (Fin 2)) :=
  List.flatten [(chainFrame.take 15).map .pipeline, [.pipeline (.work 0 .setError)],
    [.pipeline (.work 0 (.put 0))], List.replicate 6 (.pipeline (.work 0 (.returns result)))]

theorem error_not_lost_chain : ∃ s : StopState (Fin 3) (Fin 2) (Fin 2), s.dispatched 0 = [1] ∧
    s.worker 0 = .finished false ∧ s.m_state 0 = .PLE_ERROR ∧
      ∀ s', Reaches (StopState.step (chain true)) (fun _ _ => True) s s' →
        s'.dispatched 0 = [1] := by
  have hend : (run (guarded (StopState.step (chain true)) Reports) (.started 1 fun _ _ => 0)
      (chainError false)).map (fun s => (s.dispatched 0, (s.worker 0).result, s.m_state 0)) =
      some ([1], some false, .PLE_ERROR) := by decide +kernel
  obtain ⟨s, hs, hview⟩ := Option.map_eq_some_iff.mp hend
  obtain ⟨hdispatched, hresult, herror⟩ := by simpa only [Prod.mk.injEq] using hview
  have hfinished := Worker.finished_of_result hresult
  refine ⟨s, hdispatched, hfinished, herror, fun s' hr => ?_⟩
  rw [← hdispatched]
  exact (error_not_lost (.of_guarded_run hs) hfinished herror s' hr).1

/-- With true it is dispatched for the next frame. -/
theorem error_not_lost_fails : ∃ s s' : StopState (Fin 3) (Fin 2) (Fin 2),
    Reaches (StopState.step (chain true)) (fun _ _ => True) (.started 1 fun _ _ => 0) s ∧
      s.worker 0 = .finished true ∧ s.m_state 0 = .PLE_ERROR ∧ s.dispatched 0 = [1] ∧
      Reaches (StopState.step (chain true)) (fun _ _ => True) s s' ∧
      s'.stopPhase = .running ∧ s'.m_state 0 = .PLE_DISPATCHED ∧ s'.dispatched 0 = [1, 2] := by
  have hend : (run (StopState.step (chain true)) (.started 1 fun _ _ => 0)
      (chainError true)).bind (fun s => (run (StopState.step (chain true)) s
        (.pipeline (.schedule [0] true) ::
          List.replicate 12 (.pipeline (.schedule [0, 1, 2] true)))).map fun s' =>
            (((s.worker 0).result, s.m_state 0, s.dispatched 0),
              s'.stopPhase, s'.m_state 0, s'.dispatched 0)) =
      some ((some true, .PLE_ERROR, [1]), .running, .PLE_DISPATCHED, [1, 2]) := by decide +kernel
  obtain ⟨s, hs, hend'⟩ := Option.bind_eq_some_iff.mp hend
  obtain ⟨s', hs', hview⟩ := Option.map_eq_some_iff.mp hend'
  obtain ⟨⟨hresult, herror, hdispatched⟩, hrunning, hstate, hagain⟩ := by
    simpa only [Prod.mk.injEq] using hview
  exact ⟨s, s', .of_run (fun _ _ _ => trivial) hs, Worker.finished_of_result hresult, herror,
    hdispatched, .of_run (fun _ _ _ => trivial) hs', hrunning, hstate, hagain⟩

end ParleVision.Runtime
