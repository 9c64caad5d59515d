import ParleVision.Runtime.Starting

namespace ParleVision.Runtime
open Lib
open ParleVision.Lifecycle (State)

variable {E P C : Type} {net : Network E P C}

section
variable [DecidableEq E] [DecidableEq C] {s s' : AsyncState E P C}

/-- `stop` goes on before its wait loop has ended. -/
theorem Guarded.waits (h : Guarded net s) (hidle : s.startPhase = .idle) {t : StopState E P C}
    (hworker : t.worker = s.worker) (hqueue : t.m_runQueue.Sublist s.m_runQueue)
    (hfinished : ∀ e, e ∈ t.m_runQueue ∨ (s.worker e).Over)
    (hdone : ∀ e, t.m_state e = .PLE_DONE → s.m_state e = .PLE_DONE)
    (hqueued : ∀ e ∈ t.m_runQueue, t.m_state e = s.m_state e) (hrunning : t.stopPhase ≠ .running)
    (hreturned : t.stopPhase ≠ .returned) (hsound : t.stopPhase.Sound t.m_runQueue t.m_state) :
    Guarded net (s.withStop t) where
  shaped e := by
    change (t.worker e).Shaped net e
    rw [hworker]
    exact h.shaped e
  finished e := by
    change e ∈ t.m_runQueue ∨ (t.worker e).Over
    rw [hworker]
    exact hfinished e
  done e he := by
    change (t.worker e).Over
    rw [hworker]
    exact h.done e (hdone e he)
  nodup := hqueue.nodup h.nodup
  queued e he := by
    change Engaged (t.m_state e)
    rw [hqueued e he]
    exact h.queued e (hqueue.subset he)
  phase hp := absurd hp hrunning
  returned hp := absurd hp hreturned
  stop := hsound
  start := by
    change s.startPhase.Sound net t.m_state
    rw [hidle]
    trivial
  starting hp := absurd hidle hp

/-- `stop` goes on after it. -/
theorem Guarded.leaves (h : Guarded net s) (hidle : s.startPhase = .idle) {t : StopState E P C}
    (hempty : s.m_runQueue = []) (hworker : t.worker = s.worker) (hqueue : t.m_runQueue = [])
    (hrunning : t.stopPhase ≠ .running) (hreturned : t.stopPhase = .returned → t.phase = .idle)
    (hsound : t.stopPhase.Sound [] t.m_state) : Guarded net (s.withStop t) := by
  have hover (e : E) : (t.worker e).Over := by
    rw [hworker]
    exact h.over hempty e
  refine ⟨fun e => ?_, fun e => .inr (hover e), fun e _ => hover e, ?_, fun e he => ?_,
    fun hp => absurd hp hrunning, hreturned, ?_, ?_, fun hp => absurd hidle hp⟩
  · change (t.worker e).Shaped net e
    rw [hworker]
    exact h.shaped e
  · change t.m_runQueue.Nodup
    rw [hqueue]
    exact List.nodup_nil
  · change e ∈ t.m_runQueue at he
    rw [hqueue] at he
    cases he
  · change t.stopPhase.Sound t.m_runQueue t.m_state
    rw [hqueue]
    exact hsound
  · change s.startPhase.Sound net t.m_state
    rw [hidle]
    trivial

omit [DecidableEq E] [DecidableEq C] in
theorem afterStop_of_ne {t : StopState E P C} (h : t.stopPhase ≠ .returned) :
    AsyncState.afterStop t = t := by
  unfold AsyncState.afterStop
  split
  · contradiction
  · rfl

/-- The wait loop, and the call of `stop` before it. -/
theorem Guarded.waitLoop {order : List E} {hook : Hook} {t : StopState E P C} (h : Guarded net s)
    (hidle : s.startPhase = .idle) (hnot : ¬ s.stopPhase.Waited)
    (hsees : SeesFinished s.toStop (.stop order hook)) (hs : s.toStop.next net order hook = some t) :
    t.stopPhase ≠ .returned ∧ Guarded net (s.withStop t) := by
  have hsound := h.stop
  have hbegins {todo : List E} (hsound : (StopPhase.waiting todo : StopPhase E C).Sound
      s.m_runQueue s.m_state) : Guarded net (s.withStop (s.toStop.goto (.waiting todo))) :=
    h.waits hidle rfl (.refl _) h.finished (fun _ => id) (fun _ _ => rfl) nofun nofun hsound
  cases next_cases hs with
  | called hp =>
    rw [hp] at hsound
    exact ⟨nofun, hbegins hsound⟩
  | waits hp =>
    rw [hp] at hsound
    exact ⟨nofun, hbegins hsound⟩
  | waited hp hempty =>
    rw [hp] at hsound
    refine ⟨nofun, h.leaves hidle hempty rfl hempty nofun nofun ⟨rfl, net.children_nodup, ?_⟩⟩
    intro x _
    refine (hsound x).resolve_left ?_
    rw [hempty]
    exact List.not_mem_nil
  | @removes e todo hp hstate =>
    rw [hp] at hsound
    rw [SeesFinished, hp] at hsees
    have hover : (s.worker e).Over := hstate.elim (h.done e) hsees
    refine ⟨nofun, h.waits hidle rfl List.erase_sublist (fun x => ?_) (fun _ => id)
      (fun _ _ => rfl) nofun nofun ⟨?_, fun x => ?_⟩⟩
    · by_cases hx : x = e
      · exact .inr (hx ▸ hover)
      · exact (h.finished x).imp_left (List.mem_erase_of_ne hx).mpr
    · exact fun hmem => (h.nodup.mem_erase_iff.mp hmem).1 rfl
    · by_cases hx : x = e
      · exact .inr (.inl hx)
      · exact (hsound x).imp (List.mem_erase_of_ne hx).mpr .inr
  | skips hp =>
    rw [hp] at hsound
    exact ⟨nofun, hbegins hsound⟩
  | @restarts e todo hp =>
    rw [hp] at hsound
    obtain ⟨he, hsound⟩ := hsound
    have hne {x : E} (hx : x ∈ s.m_runQueue) : x ≠ e := fun heq => he (heq ▸ hx)
    refine ⟨nofun, h.waits hidle rfl (.refl _) h.finished (fun x hx => ?_) (fun x hx => ?_) nofun
      nofun fun x => ?_⟩
    · change Function.update s.m_state e .PLE_STARTED x = _ at hx
      by_cases hxe : x = e
      · rw [hxe, Function.update_self] at hx
        cases hx
      · rwa [Function.update_of_ne hxe] at hx
    · exact Function.update_of_ne (hne hx) ..
    · change x ∈ s.m_runQueue ∨ Waiting (Function.update s.m_state e .PLE_STARTED x)
      by_cases hxe : x = e
      · rw [hxe, Function.update_self]
        exact .inr (.inl rfl)
      · rw [Function.update_of_ne hxe]
        exact (hsound x).imp_right fun hx => hx.resolve_left hxe
  | leaves hp | left hp | stopError hp | stops hp | deinits hp | deinitError hp | deinited hp
  | deinitFails hp | resets hp | flushes hp | flushed hp | allFlushed hp | clears hp =>
    have hp : s.stopPhase = _ := hp
    rw [hp] at hnot
    exact absurd trivial hnot

/-- The loop over the elements, and what comes after it. -/
theorem Guarded.afterWait {order : List E} {hook : Hook} {t : StopState E P C} (h : Guarded net s)
    (hidle : s.startPhase = .idle) (hwaited : s.stopPhase.Waited)
    (hs : s.toStop.next net order hook = some t) :
    Guarded net (s.withStop (AsyncState.afterStop t)) := by
  have hsound := h.stop
  have hgoes {t : StopState E P C} (hempty : s.m_runQueue = []) (hworker : t.worker = s.worker)
      (hqueue : t.m_runQueue = s.m_runQueue) (hrunning : t.stopPhase ≠ .running)
      (hreturned : t.stopPhase ≠ .returned) (hsound : t.stopPhase.Sound [] t.m_state) :
      Guarded net (s.withStop (AsyncState.afterStop t)) := by
    rw [afterStop_of_ne hreturned]
    exact h.leaves hidle hempty hworker (hqueue.trans hempty) hrunning
      (fun hp => absurd hp hreturned) hsound
  cases next_cases hs with
  | called hp | waits hp | waited hp | removes hp | skips hp | restarts hp =>
    have hp : s.stopPhase = _ := hp
    rw [hp] at hwaited
    exact hwaited.elim
  | leaves hp =>
    rw [hp] at hsound
    obtain ⟨hempty, hnodup, hstates⟩ := hsound
    exact hgoes hempty rfl rfl nofun nofun
      ⟨rfl, hnodup, fun x hx => hstates x (List.mem_cons_of_mem _ hx)⟩
  | left hp =>
    rw [hp] at hsound
    exact hgoes hsound.1 rfl rfl nofun nofun rfl
  | @stopError e todo hp =>
    rw [hp] at hsound
    obtain ⟨hempty, hnodup, hstates⟩ := hsound
    have hp' : (s.toStop.setState e .PLE_ERROR).stopPhase = .stopping e todo := hp
    refine hgoes hempty rfl rfl (by simp [hp']) (by simp [hp']) ?_
    rw [hp']
    exact ⟨rfl, hnodup, forall_update _ (List.nodup_cons.mp hnodup).1 hstates⟩
  | @stops e todo b state hp hstate =>
    rw [hp] at hsound
    obtain ⟨hempty, hnodup, hstates⟩ := hsound
    refine hgoes hempty rfl rfl nofun nofun
      ⟨rfl, hnodup, ?_, forall_update state (List.nodup_cons.mp hnodup).1 hstates⟩
    have hset : (s.toStop.setState e state).m_state e = state := Function.update_self ..
    exact hstate.symm.imp hset.trans hset.trans
  | deinits hp =>
    rw [hp] at hsound
    obtain ⟨hempty, hnodup, -, hstates⟩ := hsound
    exact hgoes hempty rfl rfl nofun nofun ⟨rfl, hnodup, hstates⟩
  | @deinitError e b todo hp =>
    rw [hp] at hsound
    obtain ⟨hempty, hnodup, hstates⟩ := hsound
    have hp' : (s.toStop.setState e .PLE_ERROR).stopPhase = .deiniting e b todo := hp
    refine hgoes hempty rfl rfl (by simp [hp']) (by simp [hp']) ?_
    rw [hp']
    exact ⟨rfl, hnodup, forall_update _ (List.nodup_cons.mp hnodup).1 hstates⟩
  | deinited hp =>
    rw [hp] at hsound
    obtain ⟨hempty, hnodup, hstates⟩ := hsound
    exact hgoes hempty rfl rfl nofun nofun
      ⟨rfl, hnodup, forall_update _ (List.nodup_cons.mp hnodup).1 hstates⟩
  | deinitFails hp =>
    rw [hp] at hsound
    obtain ⟨hempty, hnodup, hstates⟩ := hsound
    exact hgoes hempty rfl rfl nofun nofun
      ⟨rfl, hnodup.of_cons, forall_update _ (List.nodup_cons.mp hnodup).1 hstates⟩
  | resets hp =>
    rw [hp] at hsound
    obtain ⟨hempty, hnodup, hstates⟩ := hsound
    exact hgoes hempty rfl rfl nofun nofun ⟨rfl, hnodup.of_cons, hstates⟩
  | flushes hp | flushed hp | allFlushed hp =>
    rw [hp] at hsound
    exact hgoes hsound rfl rfl nofun nofun rfl
  | clears hp =>
    rw [hp] at hsound
    exact h.leaves hidle hsound rfl hsound nofun (fun _ => rfl) rfl

variable [DecidableEq P]

/-- A run goes on only while its element is in the run queue. -/
theorem Guarded.works {e : E} {action : Action P C} {pipeline : PipelineState E P C}
    (h : Guarded net s) (hs : s.pipeline.work net e action = some pipeline) :
    Guarded net (s.withStop (s.toStop.withPipeline pipeline)) := by
  have hnot : ¬ (s.worker e).Over := not_over_of_work hs
  have hmem : e ∈ s.m_runQueue := (h.finished e).resolve_right hnot
  have hne : s.m_runQueue ≠ [] := List.ne_nil_of_mem hmem
  obtain ⟨w', hw⟩ := work_cases (h.shaped e) hs
  have hworker {e' : E} (he : e' ≠ e) : pipeline.worker e' = s.worker e' := by
    rw [hw.worker, Function.update_of_ne he]
  have hwaiting {x : E} (hx : x ∈ s.m_runQueue ∨ Waiting (s.m_state x)) :
      x ∈ s.m_runQueue ∨ Waiting (pipeline.m_state x) := by
    by_cases hxe : x = e
    · exact .inl (hxe ▸ hmem)
    · rwa [hw.others x hxe]
  constructor
  case shaped =>
    intro e'
    change (pipeline.worker e').Shaped net e'
    by_cases he : e' = e
    · rw [he, hw.worker, Function.update_self]
      exact hw.shaped
    · rw [hworker he]
      exact h.shaped e'
  case finished =>
    intro e'
    change e' ∈ pipeline.m_runQueue ∨ (pipeline.worker e').Over
    rw [hw.runQueue]
    by_cases he : e' = e
    · exact .inl (he ▸ hmem)
    · rw [hworker he]
      exact h.finished e'
  case done =>
    intro e' hdone
    change (pipeline.worker e').Over
    by_cases he : e' = e
    · subst e'
      exact (work_done hs hdone).resolve_left fun hold => hnot (h.done e hold)
    · rw [hworker he]
      exact h.done e' ((hw.others e' he).symm.trans hdone)
  case nodup =>
    change pipeline.m_runQueue.Nodup
    rw [hw.runQueue]
    exact h.nodup
  case queued =>
    intro e' he'
    change e' ∈ pipeline.m_runQueue at he'
    rw [hw.runQueue] at he'
    change Engaged (pipeline.m_state e')
    by_cases he : e' = e
    · subst e'
      obtain hsame | hstate := hw.state
      · rw [hsame]
        exact h.queued e he'
      · exact List.mem_cons_of_mem _ hstate
    · rw [hw.others e' he]
      exact h.queued e' he'
  case phase =>
    intro hp
    change pipeline.phase.Sound net pipeline.m_runQueue
    rw [hw.phase, hw.runQueue]
    exact h.phase hp
  case returned =>
    intro hp
    change pipeline.phase = _
    rw [hw.phase]
    exact h.returned hp
  case stop =>
    change s.stopPhase.Sound pipeline.m_runQueue pipeline.m_state
    rw [hw.runQueue]
    have hstop := h.stop
    cases hp : s.stopPhase with
    | running | waiting todo =>
      rw [hp] at hstop
      exact fun x => hwaiting (hstop x)
    | restarting e' todo =>
      rw [hp] at hstop
      refine ⟨hstop.1, fun x => ?_⟩
      by_cases hx : x = e'
      · exact .inr (.inl hx)
      · exact (hwaiting ((hstop.2 x).imp_right fun hx' => hx'.resolve_left hx)).imp_right .inr
    | leaving | stopping | stopped | deiniting | undefined =>
      rw [hp] at hstop
      exact absurd hstop.1 hne
    | flushing | flushed | clearing | returned =>
      rw [hp] at hstop
      exact absurd hstop hne
  case start =>
    change s.startPhase.Sound net pipeline.m_state
    by_cases hidle : s.startPhase = .idle
    · rw [hidle]
      trivial
    · have hstop := h.stop
      rw [h.starting hidle] at hstop
      exact absurd hstop hne
  case starting => exact h.starting

omit [DecidableEq E] [DecidableEq C] [DecidableEq P] in
/-- What is in the run queue is not ready to be dispatched. -/
theorem Engaged.not_before {pipeline : PipelineState E P C} {e : E}
    (h : Engaged (pipeline.m_state e)) : pipeline.beforeDispatched e = false := by
  unfold PipelineState.beforeDispatched
  simp only [Engaged, List.mem_cons, List.not_mem_nil, or_false] at h
  rcases h with h | h | h | h <;> simp [h]

omit [DecidableEq C] [DecidableEq P] in
/-- The producers that `schedule` is going to dispatch are not in the run queue. -/
theorem schedule_sound {pipeline pipeline' : PipelineState E P C} {order : List E} {answer : Bool}
    (hqueued : ∀ e ∈ pipeline.m_runQueue, Engaged (pipeline.m_state e))
    (h : pipeline.phase.Sound net pipeline.m_runQueue)
    (hs : pipeline.schedule net order answer = some pipeline') :
    pipeline'.phase.Sound net pipeline'.m_runQueue := by
  have hdispatch {pipeline : PipelineState E P C} {e : E} {serial : Nat}
      (hd : pipeline.dispatch e serial = some pipeline') :
      pipeline'.phase = pipeline.phase ∧ pipeline'.m_runQueue = e :: pipeline.m_runQueue := by
    unfold PipelineState.dispatch at hd
    split at hd
    · cases hd
      exact ⟨rfl, rfl⟩
    · cases hd
  unfold PipelineState.schedule at hs
  cases hp : pipeline.phase with
  | idle | stopping =>
    simp only [hp] at hs
    (repeat' split at hs) <;> cases hs <;> trivial
  | reaping todo =>
    cases todo <;> simp only [hp] at hs <;> (repeat' split at hs) <;> cases hs <;> trivial
  | dispatching todo =>
    cases todo with
    | nil =>
      simp only [hp] at hs
      cases hs
      trivial
    | cons e todo =>
      simp only [hp] at hs
      split at hs
      · cases hs
        trivial
      · split at hs
        · cases hs
          trivial
        · rw [(hdispatch hs).1]
          trivial
  | measuring todo max =>
    cases todo with
    | nil =>
      simp only [hp] at hs
      cases hs
      change Phase.Sound net _ (if max < 5 then .asking net.producers true else .idle)
      split
      · exact fun _ x hx => .inl hx
      · trivial
    | cons c todo =>
      simp only [hp] at hs
      cases hs
      trivial
  | asking todo allReady =>
    rw [hp] at h
    cases todo with
    | nil =>
      simp only [hp] at hs
      cases hs
      change Phase.Sound net _ (if allReady then .producing net.producers else .idle)
      split
      case isTrue hready =>
        exact ⟨net.children_nodup.filter _,
          fun x hx => (h hready x hx).resolve_left List.not_mem_nil⟩
      · trivial
    | cons e todo =>
      simp only [hp] at hs
      cases hs
      intro hready x hx
      obtain ⟨hall, hthis⟩ := Bool.and_eq_true_iff.mp hready
      obtain ⟨hbefore, -⟩ := Bool.and_eq_true_iff.mp hthis
      by_cases hxe : x = e
      · right
        intro hmem
        rw [hxe] at hmem
        rw [(hqueued e hmem).not_before] at hbefore
        cases hbefore
      · exact (h hall x hx).imp_left fun hmem => (List.mem_cons.mp hmem).resolve_left hxe
  | producing todo =>
    rw [hp] at h
    cases todo with
    | nil =>
      simp only [hp] at hs
      cases hs
      trivial
    | cons e todo =>
      simp only [hp] at hs
      obtain ⟨hnodup, hnot⟩ := h
      obtain ⟨he, hnodup⟩ := List.nodup_cons.mp hnodup
      obtain ⟨hphase, hqueue⟩ := hdispatch hs
      rw [hphase, hqueue]
      refine ⟨hnodup, fun x hx hmem => ?_⟩
      rcases List.mem_cons.mp hmem with rfl | hmem
      · exact he hx
      · exact hnot x (List.mem_cons_of_mem _ hx) hmem

omit [DecidableEq P] in
theorem Guarded.dispatches {pipeline : PipelineState E P C} {e : E} {serial : Nat}
    (h : Guarded net s) (hrunning : s.stopPhase = .running)
    (hphase : pipeline.phase.Sound net pipeline.m_runQueue)
    (hd : Dispatches s.pipeline e serial pipeline) :
    Guarded net (s.withStop (s.toStop.withPipeline pipeline)) := by
  have hwaiting := h.stop
  rw [hrunning] at hwaiting
  have hidle : s.startPhase = .idle := by
    by_contra hnot
    have hreturned := h.starting hnot
    rw [hrunning] at hreturned
    cases hreturned
  have he : e ∉ s.m_runQueue := by
    intro hmem
    have hengaged := h.queued e hmem
    rw [hd.state] at hengaged
    revert hengaged
    decide
  have hworker {x : E} (hx : x ≠ e) : pipeline.worker x = s.worker x := by
    rw [hd.worker, Function.update_of_ne hx]
  have hstate {x : E} (hx : x ≠ e) : pipeline.m_state x = s.m_state x := by
    rw [hd.state', Function.update_of_ne hx]
  have hdispatched : pipeline.m_state e = .PLE_DISPATCHED := by
    rw [hd.state', Function.update_self]
  have hqueue {x : E} : x ∈ pipeline.m_runQueue ↔ x = e ∨ x ∈ s.m_runQueue := by
    rw [hd.runQueue, List.mem_cons]
  constructor
  case shaped =>
    intro x
    change (pipeline.worker x).Shaped net x
    by_cases hx : x = e
    · rw [hx, hd.worker, Function.update_self]
      trivial
    · rw [hworker hx]
      exact h.shaped x
  case finished =>
    intro x
    change x ∈ pipeline.m_runQueue ∨ (pipeline.worker x).Over
    rw [hqueue]
    by_cases hx : x = e
    · exact .inl (.inl hx)
    · rw [hworker hx]
      exact (h.finished x).imp_left .inr
  case done =>
    intro x hdone
    change pipeline.m_state x = _ at hdone
    by_cases hx : x = e
    · rw [hx, hdispatched] at hdone
      cases hdone
    · change (pipeline.worker x).Over
      rw [hworker hx]
      exact h.done x ((hstate hx).symm.trans hdone)
  case nodup =>
    change pipeline.m_runQueue.Nodup
    rw [hd.runQueue]
    exact List.nodup_cons.mpr ⟨he, h.nodup⟩
  case queued =>
    intro x hx
    change Engaged (pipeline.m_state x)
    by_cases hxe : x = e
    · rw [hxe, hdispatched]
      decide
    · rw [hstate hxe]
      exact h.queued x ((hqueue.mp hx).resolve_left hxe)
  case phase => exact fun _ => hphase
  case returned =>
    intro hp
    change s.stopPhase = _ at hp
    rw [hrunning] at hp
    cases hp
  case stop =>
    change s.stopPhase.Sound pipeline.m_runQueue pipeline.m_state
    rw [hrunning]
    intro x
    rw [hqueue]
    by_cases hx : x = e
    · exact .inl (.inl hx)
    · rw [hstate hx]
      exact (hwaiting x).imp_left .inr
  case start =>
    change s.startPhase.Sound net pipeline.m_state
    rw [hidle]
    trivial
  case starting => exact fun hp => absurd hidle hp

omit [DecidableEq P] in
theorem Guarded.reaps {phase : Phase E C} {e : E} (h : Guarded net s)
    (hrunning : s.stopPhase = .running) (hidle : s.startPhase = .idle)
    (hphase : phase.Sound net (s.m_runQueue.erase e)) :
    Guarded net (s.withStop (s.toStop.withPipeline
      (({ s.pipeline with phase := phase, m_runQueue := s.m_runQueue.erase e }.setState e
        .PLE_STARTED).goto e .idle))) := by
  have hwaiting := h.stop
  rw [hrunning] at hwaiting
  have hnot : e ∉ s.m_runQueue.erase e := fun hmem => (h.nodup.mem_erase_iff.mp hmem).1 rfl
  constructor
  case shaped =>
    intro x
    change (Function.update s.worker e .idle x).Shaped net x
    by_cases hx : x = e
    · rw [hx, Function.update_self]
      trivial
    · rw [Function.update_of_ne hx]
      exact h.shaped x
  case finished =>
    intro x
    change x ∈ s.m_runQueue.erase e ∨ (Function.update s.worker e .idle x).Over
    by_cases hx : x = e
    · rw [hx, Function.update_self]
      exact .inr trivial
    · rw [Function.update_of_ne hx]
      exact (h.finished x).imp_left (List.mem_erase_of_ne hx).mpr
  case done =>
    intro x hdone
    change Function.update s.m_state e .PLE_STARTED x = _ at hdone
    change (Function.update s.worker e .idle x).Over
    by_cases hx : x = e
    · rw [hx, Function.update_self]
      trivial
    · rw [Function.update_of_ne hx] at hdone ⊢
      exact h.done x hdone
  case nodup => exact h.nodup.erase e
  case queued => exact forall_update _ hnot fun x hx => h.queued x (List.mem_of_mem_erase hx)
  case phase => exact fun _ => hphase
  case returned =>
    intro hp
    change s.stopPhase = _ at hp
    rw [hrunning] at hp
    cases hp
  case stop =>
    change s.stopPhase.Sound (s.m_runQueue.erase e) (Function.update s.m_state e .PLE_STARTED)
    rw [hrunning]
    intro x
    by_cases hx : x = e
    · rw [hx, Function.update_self]
      exact .inr (.inl rfl)
    · rw [Function.update_of_ne hx]
      exact (hwaiting x).imp_left (List.mem_erase_of_ne hx).mpr
  case start =>
    change s.startPhase.Sound net _
    rw [hidle]
    trivial
  case starting => exact fun hp => absurd hidle hp

omit [DecidableEq P] in
theorem Guarded.schedules {order : List E} {answer : Bool} {pipeline : PipelineState E P C}
    (h : Guarded net s) (hrunning : s.stopPhase = .running) (hidle : s.startPhase = .idle)
    (hs : s.pipeline.schedule net order answer = some pipeline) :
    Guarded net (s.withStop (s.toStop.withPipeline pipeline)) := by
  have hphase := schedule_sound h.queued (h.phase hrunning) hs
  have hreturned : s.stopPhase ≠ .returned := by
    rw [hrunning]
    exact nofun
  have ht : Turn net s.pipeline pipeline := schedule_cases hs
  cases ht with
  | moves | ticks =>
    exact ⟨h.shaped, h.finished, h.done, h.nodup, h.queued, fun _ => hphase,
      fun hp => absurd hp hreturned, h.stop, h.start, h.starting⟩
  | reaps => exact h.reaps hrunning hidle hphase
  | dispatches _ _ hd => exact h.dispatches hrunning hphase hd
  | produces _ hd => exact h.dispatches hrunning hphase hd

theorem Guarded.step {event : AsyncEvent E P C} (h : Guarded net s) (hsafe : Safe s event)
    (hs : s.step net event = some s') : Guarded net s' := by
  cases event with
  | setError e emits =>
    cases hs
    have herror := h.setError e
    exact ⟨herror.shaped, herror.finished, herror.done, herror.nodup, herror.queued, herror.phase,
      herror.returned, herror.stop, herror.start, herror.starting⟩
  | deliver =>
    simp only [AsyncState.step] at hs
    split at hs
    · cases hs
    · split at hs
      case isTrue hidle =>
        cases hs
        have hwaiting := h.stop
        rw [hidle.2] at hwaiting
        have hrunning : (s.toStop.goto (.waiting [])).stopPhase ≠ .running := by
          intro hphase
          cases hphase
        have hreturned : (s.toStop.goto (.waiting [])).stopPhase ≠ .returned := by
          intro hphase
          cases hphase
        have hwaits : Guarded net (s.withStop (s.toStop.goto (.waiting []))) :=
          h.waits hidle.1.1 rfl (.refl _) h.finished (fun _ => id) (fun _ _ => rfl) hrunning
            hreturned hwaiting
        exact ⟨hwaits.shaped, hwaits.finished, hwaits.done, hwaits.nodup, hwaits.queued,
          hwaits.phase, hwaits.returned, hwaits.stop, hwaits.start, hwaits.starting⟩
      · cases hs
  | pipeline event =>
    cases event with
    | schedule order answer =>
      simp only [AsyncState.step] at hs
      split at hs
      case isTrue hscheduling =>
        obtain ⟨pipeline, hpipeline, rfl⟩ := Option.map_eq_some_iff.mp hs
        exact h.schedules hsafe.1 hscheduling.1 hpipeline
      · cases hs
    | work e action =>
      simp only [AsyncState.step] at hs
      obtain ⟨t, ht, rfl⟩ := Option.map_eq_some_iff.mp hs
      simp only [StopState.step] at ht
      split at ht
      · cases ht
      case h_2 hw _ =>
        split at ht
        · cases ht
          exact h.works hw
        · cases ht
      case h_3 hw _ =>
        cases ht
        exact h.works hw
  | stop order hook =>
    simp only [AsyncState.step] at hs
    split at hs
    case isTrue hidle =>
      obtain ⟨t, ht, rfl⟩ := Option.map_eq_some_iff.mp hs
      by_cases hwaited : s.stopPhase.Waited
      · exact h.afterWait hidle hwaited ht
      · obtain ⟨hne, hwaits⟩ := h.waitLoop hidle hwaited hsafe ht
        rw [afterStop_of_ne hne]
        exact hwaits
    · cases hs
  | start order call => exact h.startNext hsafe hs

end

def alone : Network Unit Empty Empty where
  children := [()]
  isProducer _ := true
  outputPins _ := []
  outputs := nofun
  inputs _ := []
  connections := []
  owner := nofun
  fromPin := nofun
  target := nofun
  isSynchronous := nofun
  isDataGuaranteed := nofun
  mem_children := by decide
  mem_connections := by decide
  mem_outputPins := by decide
  mem_outputs := by decide
  mem_inputs := by decide
  children_nodup := by decide
  outputPins_nodup := by decide
  outputs_nodup := by decide
  inputs_nodup := by decide
  producer_inputs := by decide

instance [DecidableEq E] (s : AsyncState E P C) (e : E) : Decidable (s.Due e) :=
  match h : s.phase with
  | .dispatching (e' :: _) =>
    decidable_of_iff (e = e' ∧ e ∉ s.m_runQueue ∧ s.m_readyQueue e ≠ [])
      (by rw [AsyncState.Due, h])
  | .producing (e' :: _) => decidable_of_iff (e = e') (by rw [AsyncState.Due, h])
  | .dispatching [] | .producing [] | .idle | .reaping _ | .measuring .. | .asking ..
  | .stopping => .isFalse (by rw [AsyncState.Due, h]; exact id)

instance [DecidableEq E] [DecidableEq P] [DecidableEq C] [Fintype E] (s : AsyncState E P C)
    (event : AsyncEvent E P C) : Decidable (Safe s event) :=
  match event with
  | .setError .. | .pipeline (.work ..) => .isTrue trivial
  | .deliver => inferInstanceAs (Decidable (_ = _))
  | .pipeline (.schedule ..) =>
    inferInstanceAs (Decidable (s.stopPhase = .running ∧ ∀ e, s.Due e → s.m_state e ≠ .PLE_ERROR))
  | .stop order hook => inferInstanceAs (Decidable (SeesFinished s.toStop (.stop order hook)))
  | .start _ call =>
    match h : s.startPhase with
    | .inInit e _ _ =>
      decidable_of_iff (call.throws → s.m_state e = .PLE_ERROR) (by simp [Safe, h])
    | .idle | .initing .. | .checking | .starting .. | .inStart .. | .undoing _ | .inStop ..
    | .inDeinit .. => .isTrue (by simp [Safe, h])

end ParleVision.Runtime
