import ParleVision.Runtime.Asynchronous

namespace ParleVision.Runtime
open Lib
open ParleVision.Lifecycle (State PlvErrorType Ending)

variable {E P C : Type} {net : Network E P C}

/-- What `__deinit` asserts. -/
def Deinitialisable (state : State) : Prop := state = .PLE_ERROR ∨ state = .PLE_INITIALIZED

/-- An element that waits for its next run, hit by an error meanwhile or not. -/
def Waiting (state : State) : Prop := state = .PLE_STARTED ∨ state = .PLE_ERROR

def Engaged (state : State) : Prop :=
  state ∈ [State.PLE_DISPATCHED, .PLE_RUNNING, .PLE_DONE, .PLE_ERROR]

instance (state : State) : Decidable (Engaged state) := inferInstanceAs (Decidable (_ ∈ _))

/-- The state in which an element can be cleaned up. -/
def Planned (m_state : E → State) (x : E × Bool) : Prop :=
  if x.2 then Waiting (m_state x.1) else Deinitialisable (m_state x.1)

/-- The states of the elements that `start` is not done with. -/
def StartPhase.Sound (net : Network E P C) (m_state : E → State) : StartPhase E → Prop
  | .idle => True
  | .initing todo initialized =>
    (todo ++ initialized).Perm net.children ∧ ∀ x ∈ initialized, Deinitialisable (m_state x)
  | .inInit e todo initialized =>
    (e :: todo ++ initialized).Perm net.children ∧ ∀ x ∈ initialized, Deinitialisable (m_state x)
  | .checking => ∀ x, Deinitialisable (m_state x)
  | .starting todo started =>
    (todo ++ started).Perm net.children ∧ ∀ x ∈ started, Waiting (m_state x)
  | .inStart e todo started =>
    (e :: todo ++ started).Perm net.children ∧ Deinitialisable (m_state e) ∧
      ∀ x ∈ started, Waiting (m_state x)
  | .undoing todo => (todo.map Prod.fst).Nodup ∧ ∀ x ∈ todo, Planned m_state x
  | .inStop e todo | .inDeinit e todo =>
    (e :: todo.map Prod.fst).Nodup ∧ ∀ x ∈ todo, Planned m_state x

/-- The states of the elements that `stop` is not done with, and of those that wait while it was
not called. -/
def StopPhase.Sound (m_runQueue : List E) (m_state : E → State) : StopPhase E C → Prop
  | .running | .waiting _ => ∀ x, x ∈ m_runQueue ∨ Waiting (m_state x)
  | .restarting e _ => e ∉ m_runQueue ∧ ∀ x, x ∈ m_runQueue ∨ x = e ∨ Waiting (m_state x)
  | .leaving todo => m_runQueue = [] ∧ todo.Nodup ∧ ∀ x ∈ todo, Waiting (m_state x)
  | .stopping e todo | .deiniting e _ todo | .undefined e _ todo =>
    m_runQueue = [] ∧ (e :: todo).Nodup ∧ ∀ x ∈ todo, Waiting (m_state x)
  | .stopped e _ todo =>
    m_runQueue = [] ∧ (e :: todo).Nodup ∧ Deinitialisable (m_state e) ∧
      ∀ x ∈ todo, Waiting (m_state x)
  | .flushing _ | .flushed .. | .clearing | .returned => m_runQueue = []

/-- The producers that are to be dispatched are not dispatched yet. -/
def Phase.Sound (net : Network E P C) (m_runQueue : List E) : Phase E C → Prop
  | .asking todo allReady => allReady = true → ∀ x ∈ net.producers, x ∈ todo ∨ x ∉ m_runQueue
  | .producing todo => todo.Nodup ∧ ∀ x ∈ todo, x ∉ m_runQueue
  | _ => True

/-- What is cleaned up after a failure: the element that failed, and those that were done. -/
theorem undoing_sound {e : E} {b : Bool} {l order : List E} {m_state : E → State}
    (hnodup : (e :: l).Nodup) (horder : order.Perm l) (he : Deinitialisable (m_state e))
    (hl : ∀ x ∈ l, Planned m_state (x, b)) :
    (StartPhase.undoing ((e, false) :: order.map fun x => (x, b))).Sound net m_state := by
  constructor
  · simp only [List.map_cons, List.map_map, Function.comp_def, List.map_id']
    exact (horder.cons e).nodup_iff.mpr hnodup
  · intro x hx
    rcases List.mem_cons.mp hx with rfl | hx
    · exact he
    · obtain ⟨y, hy, rfl⟩ := List.mem_map.mp hx
      exact hl y (horder.mem_iff.mp hy)

/-- One of the lists that `start` walks gives its head to the other. -/
theorem perm_middle {e : E} {todo l children : List E} (h : (e :: todo ++ l).Perm children) :
    (todo ++ e :: l).Perm children := List.perm_middle.trans h

section
variable [DecidableEq E] {m_state : E → State} {e : E} {state : State}

/-- What is said of other elements. -/
theorem forall_update (state : State) {p : State → Prop} {l : List E} (he : e ∉ l)
    (h : ∀ x ∈ l, p (m_state x)) :
    ∀ x ∈ l, p (Function.update m_state e state x) := by
  intro x hx
  have hne : x ≠ e := by
    rintro rfl
    exact he hx
  rw [Function.update_of_ne hne]
  exact h x hx

theorem forall_cons_update {p : State → Prop} {l : List E} (he : e ∉ l) (hstate : p state)
    (h : ∀ x ∈ l, p (m_state x)) :
    ∀ x ∈ e :: l, p (Function.update m_state e state x) := by
  intro x hx
  rcases List.mem_cons.mp hx with rfl | hx
  · rw [Function.update_self]
    exact hstate
  · exact forall_update _ he h x hx

theorem planned_update (state : State) {todo : List (E × Bool)} (he : e ∉ todo.map Prod.fst)
    (h : ∀ x ∈ todo, Planned m_state x) :
    ∀ x ∈ todo, Planned (Function.update m_state e state) x := by
  intro x hx
  have hne : x.1 ≠ e := by
    rintro rfl
    exact he (List.mem_map_of_mem hx)
  rw [Planned, Function.update_of_ne hne]
  exact h x hx

theorem update_error {p : State → Prop} (hp : p .PLE_ERROR) {x : E} (h : p (m_state x)) :
    p (Function.update m_state e .PLE_ERROR x) := by
  by_cases hx : x = e
  · rw [hx, Function.update_self]
    exact hp
  · rw [Function.update_of_ne hx]
    exact h

theorem planned_error {x : E × Bool} (h : Planned m_state x) :
    Planned (Function.update m_state e .PLE_ERROR) x := by
  unfold Planned at h ⊢
  split
  case isTrue hb =>
    rw [if_pos hb] at h
    exact update_error (.inr rfl) h
  case isFalse hb =>
    rw [if_neg hb] at h
    exact update_error (.inl rfl) h

/-- An error does no harm to `start`. -/
theorem StartPhase.Sound.error {phase : StartPhase E} (h : phase.Sound net m_state) :
    phase.Sound net (Function.update m_state e .PLE_ERROR) := by
  cases phase with
  | idle => trivial
  | initing todo initialized | inInit _ todo initialized =>
    exact ⟨h.1, fun x hx => update_error (.inl rfl) (h.2 x hx)⟩
  | checking => exact fun x => update_error (.inl rfl) (h x)
  | starting todo started => exact ⟨h.1, fun x hx => update_error (.inr rfl) (h.2 x hx)⟩
  | inStart _ todo started =>
    exact ⟨h.1, update_error (.inl rfl) h.2.1, fun x hx => update_error (.inr rfl) (h.2.2 x hx)⟩
  | undoing todo | inStop _ todo | inDeinit _ todo =>
    exact ⟨h.1, fun x hx => planned_error (h.2 x hx)⟩

/-- Nor to `stop`. -/
theorem StopPhase.Sound.error {m_runQueue : List E} {phase : StopPhase E C}
    (h : phase.Sound m_runQueue m_state) :
    phase.Sound m_runQueue (Function.update m_state e .PLE_ERROR) := by
  cases phase with
  | running | waiting todo => exact fun x => (h x).imp_right (update_error (.inr rfl))
  | restarting _ todo =>
    exact ⟨h.1, fun x => (h.2 x).imp_right (.imp_right (update_error (.inr rfl)))⟩
  | leaving todo | stopping _ todo | deiniting _ _ todo | undefined _ _ todo =>
    exact ⟨h.1, h.2.1, fun x hx => update_error (.inr rfl) (h.2.2 x hx)⟩
  | stopped _ _ todo =>
    exact ⟨h.1, h.2.1, update_error (.inl rfl) h.2.2.1,
      fun x hx => update_error (.inr rfl) (h.2.2.2 x hx)⟩
  | flushing | flushed | clearing | returned => exact h

end

/-- What holds as long as every step is a safe one. -/
structure Guarded [DecidableEq E] [DecidableEq C] (net : Network E P C) (s : AsyncState E P C) :
    Prop where
  shaped : ∀ e, (s.worker e).Shaped net e
  finished : ∀ e, e ∈ s.m_runQueue ∨ (s.worker e).Over
  done : ∀ e, s.m_state e = .PLE_DONE → (s.worker e).Over
  nodup : s.m_runQueue.Nodup
  queued : ∀ e ∈ s.m_runQueue, Engaged (s.m_state e)
  phase : s.stopPhase = .running → s.phase.Sound net s.m_runQueue
  returned : s.stopPhase = .returned → s.phase = .idle
  stop : s.stopPhase.Sound s.m_runQueue s.m_state
  start : s.startPhase.Sound net s.m_state
  starting : s.startPhase ≠ .idle → s.stopPhase = .returned

section
variable [DecidableEq E] [DecidableEq C] {s s' : AsyncState E P C}

/-- While the pipeline does not run, no run is in progress. -/
theorem Guarded.over (h : Guarded net s) (hqueue : s.m_runQueue = []) (e : E) :
    (s.worker e).Over := by
  refine (h.finished e).resolve_left ?_
  rw [hqueue]
  exact List.not_mem_nil

theorem Guarded.setError (h : Guarded net s) (e : E) :
    Guarded net (s.withStop (s.toStop.setState e .PLE_ERROR)) where
  shaped := h.shaped
  finished := h.finished
  done e' hdone := by
    change Function.update s.m_state e .PLE_ERROR e' = _ at hdone
    by_cases he : e' = e
    · rw [he, Function.update_self] at hdone
      cases hdone
    · rw [Function.update_of_ne he] at hdone
      exact h.done e' hdone
  nodup := h.nodup
  queued e' he' := update_error (by decide) (h.queued e' he')
  phase := h.phase
  returned := h.returned
  stop := h.stop.error
  start := h.start.error
  starting := h.starting

/-- `start` goes on, and sets the state of an element or not. -/
theorem Guarded.starts (h : Guarded net s) (hreturned : s.stopPhase = .returned)
    {m_state : E → State} (startPhase : StartPhase E) (hsound : startPhase.Sound net m_state) :
    Guarded net ({ s with m_state := m_state }.gotoStart startPhase) := by
  have hqueue : s.m_runQueue = [] := by
    have hstop := h.stop
    rw [hreturned] at hstop
    exact hstop
  refine ⟨h.shaped, h.finished, fun e _ => h.over hqueue e, h.nodup, fun e he => ?_, fun hrun => ?_,
    h.returned, ?_, hsound, fun _ => hreturned⟩
  · change e ∈ s.m_runQueue at he
    rw [hqueue] at he
    cases he
  · change s.stopPhase = _ at hrun
    rw [hreturned] at hrun
    cases hrun
  · change s.stopPhase.Sound s.m_runQueue m_state
    rw [hreturned]
    exact hqueue

/-- In the `init()` of an element. -/
theorem Guarded.inInit [DecidableEq P] {order : List E} {call : StartCall} {e : E}
    {todo initialized : List E} (h : Guarded net s) (hp : s.startPhase = .inInit e todo initialized)
    (hsafe : Safe s (.start order call)) (hs : s.startNext net order call = some s') :
    Guarded net s' := by
  have hr := h.starting (by simp [hp])
  have hsound := h.start
  rw [hp] at hsound
  obtain ⟨hperm, hstates⟩ := hsound
  have hnodup : (e :: initialized).Nodup :=
    (hperm.nodup_iff.mpr net.children_nodup).sublist
      ((List.sublist_append_right todo initialized).cons_cons e)
  obtain ⟨he, -⟩ := List.nodup_cons.mp hnodup
  unfold AsyncState.startNext at hs
  unfold Safe at hsafe
  cases call with
  | setError =>
    simp only [hp] at hs
    cases hs
    exact h.starts hr _ ⟨hperm, forall_update _ he hstates⟩
  | checked requiredPins acyclic =>
    simp [hp] at hs
  | ends ending errorType =>
    cases ending with
    | returns b =>
      cases b with
      | true =>
        simp only [hp] at hs
        cases hs
        exact h.starts hr _ ⟨perm_middle hperm, forall_cons_update he (.inr rfl) hstates⟩
      | false =>
        simp only [hp] at hs
        split at hs
        · cases hs
          exact h.starts hr _ ⟨perm_middle hperm, forall_cons_update he (.inl rfl) hstates⟩
        · split at hs
          case isTrue horder =>
            cases hs
            refine h.starts hr _ (undoing_sound hnodup horder ?_ (forall_update _ he hstates))
            rw [Function.update_self]
            exact .inl rfl
          · cases hs
    | throwsPlv | throwsOther =>
      simp only [hp] at hs hsafe
      split at hs
      case isTrue horder =>
        cases hs
        exact h.starts hr _ (undoing_sound hnodup horder (.inl (hsafe rfl)) hstates)
      · cases hs

/-- In the `start()` of an element. -/
theorem Guarded.inStart [DecidableEq P] {order : List E} {call : StartCall} {e : E}
    {todo started : List E} (h : Guarded net s) (hp : s.startPhase = .inStart e todo started)
    (hs : s.startNext net order call = some s') : Guarded net s' := by
  have hr := h.starting (by simp [hp])
  have hsound := h.start
  rw [hp] at hsound
  obtain ⟨hperm, hstate, hstates⟩ := hsound
  have hnodup : (e :: started).Nodup :=
    (hperm.nodup_iff.mpr net.children_nodup).sublist
      ((List.sublist_append_right todo started).cons_cons e)
  obtain ⟨he, -⟩ := List.nodup_cons.mp hnodup
  unfold AsyncState.startNext at hs
  cases call with
  | setError =>
    simp only [hp] at hs
    cases hs
    refine h.starts hr _ ⟨hperm, ?_, forall_update _ he hstates⟩
    rw [Function.update_self]
    exact .inl rfl
  | checked requiredPins acyclic =>
    simp [hp] at hs
  | ends ending errorType =>
    cases ending with
    | returns b =>
      cases b with
      | true =>
        simp only [hp] at hs
        cases hs
        exact h.starts hr _ ⟨perm_middle hperm, forall_cons_update he (.inl rfl) hstates⟩
      | false =>
        simp only [hp] at hs
        split at hs
        case isTrue horder =>
          cases hs
          refine h.starts hr _ (undoing_sound hnodup horder ?_ (forall_update _ he hstates))
          rw [Function.update_self]
          exact .inl rfl
        · cases hs
    | throwsPlv =>
      simp only [hp] at hs
      split at hs
      case isTrue horder =>
        cases hs
        exact h.starts hr _ (undoing_sound hnodup horder hstate hstates)
      · cases hs
    | throwsOther =>
      simp only [hp] at hs
      cases hs
      exact h.starts hr .idle trivial

/-- In the `stop()` or the `deinit()` that cleans up. -/
theorem Guarded.cleansUp [DecidableEq P] {order : List E} {call : StartCall} {e : E}
    {todo : List (E × Bool)} (h : Guarded net s)
    (hp : s.startPhase = .inStop e todo ∨ s.startPhase = .inDeinit e todo)
    (hs : s.startNext net order call = some s') : Guarded net s' := by
  have hr := h.starting (by rcases hp with hp | hp <;> simp [hp])
  have hsound : (e :: todo.map Prod.fst).Nodup ∧ ∀ x ∈ todo, Planned s.m_state x := by
    have hstart := h.start
    rcases hp with hp | hp
    · rw [hp] at hstart
      exact hstart
    · rw [hp] at hstart
      exact hstart
  obtain ⟨hnodup, hstates⟩ := hsound
  obtain ⟨he, hnodup'⟩ := List.nodup_cons.mp hnodup
  have hset (state : State) := planned_update state he hstates
  unfold AsyncState.startNext at hs
  rcases hp with hp | hp
  · cases call with
    | setError =>
      simp only [hp] at hs
      cases hs
      exact h.starts hr (.inStop e todo) ⟨hnodup, hset _⟩
    | checked requiredPins acyclic => simp [hp] at hs
    | ends ending errorType =>
      cases ending with
      | throwsPlv | throwsOther => simp [hp] at hs
      | returns b =>
        simp only [hp] at hs
        cases hs
        refine h.starts hr (.undoing ((e, false) :: todo)) ⟨hnodup, fun x hx => ?_⟩
        rcases List.mem_cons.mp hx with rfl | hx
        · change Deinitialisable (Function.update s.m_state e _ e)
          rw [Function.update_self]
          cases b
          · exact .inl rfl
          · exact .inr rfl
        · exact hset _ x hx
  · cases call with
    | setError =>
      simp only [hp] at hs
      cases hs
      exact h.starts hr (.inDeinit e todo) ⟨hnodup, hset _⟩
    | checked requiredPins acyclic => simp [hp] at hs
    | ends ending errorType =>
      cases ending with
      | throwsPlv | throwsOther => simp [hp] at hs
      | returns b =>
        simp only [hp] at hs
        cases hs
        exact h.starts hr (.undoing todo) ⟨hnodup', hset _⟩

/-- `start` comes to its end, and all elements wait for their first run. -/
theorem Guarded.started (h : Guarded net s) (hr : s.stopPhase = .returned)
    (hstates : ∀ x, Waiting (s.m_state x)) :
    Guarded net { s.gotoStart .idle with stopPhase := .running, ended := [] } where
  shaped := h.shaped
  finished := h.finished
  done := h.done
  nodup := h.nodup
  queued := h.queued
  phase _ := by
    change s.phase.Sound net s.m_runQueue
    rw [h.returned hr]
    trivial
  returned hp := by cases hp
  stop x := .inr (hstates x)
  start := trivial
  starting hp := absurd rfl hp

theorem Guarded.startNext [DecidableEq P] {order : List E} {call : StartCall} (h : Guarded net s)
    (hsafe : Safe s (.start order call)) (hs : s.startNext net order call = some s') :
    Guarded net s' := by
  have hr : s.startPhase ≠ .idle → s.stopPhase = .returned := h.starting
  have hsound := h.start
  cases hp : s.startPhase with
  | inInit e todo initialized => exact h.inInit hp hsafe hs
  | inStart e todo started => exact h.inStart hp hs
  | inStop e todo => exact h.cleansUp (.inl hp) hs
  | inDeinit e todo => exact h.cleansUp (.inr hp) hs
  | idle =>
    simp only [AsyncState.startNext, hp] at hs
    split at hs
    case isTrue hidle =>
      cases hs
      refine h.starts hidle.2 _ ?_
      split
      · trivial
      · exact ⟨by simp, by simp⟩
    · cases hs
  | initing todo initialized =>
    have hr := hr (by simp [hp])
    rw [hp] at hsound
    cases todo with
    | nil =>
      simp only [AsyncState.startNext, hp] at hs
      cases hs
      have hall (x : E) : Deinitialisable (s.m_state x) :=
        hsound.2 x (hsound.1.mem_iff.mpr (net.mem_children x))
      have hchecking := h.starts hr .checking hall
      exact ⟨hchecking.shaped, hchecking.finished, hchecking.done, hchecking.nodup,
        hchecking.queued, hchecking.phase, hchecking.returned, hchecking.stop, hchecking.start,
        hchecking.starting⟩
    | cons e todo =>
      simp only [AsyncState.startNext, hp] at hs
      split at hs
      · cases hs
        exact h.starts hr _ hsound
      · cases hs
  | checking =>
    have hr := hr (by simp [hp])
    rw [hp] at hsound
    cases call with
    | setError | ends => simp [AsyncState.startNext, hp] at hs
    | checked requiredPins acyclic =>
      simp only [AsyncState.startNext, hp] at hs
      cases hs
      refine h.starts hr _ ?_
      split
      · split
        · exact ⟨by simp, by simp⟩
        · trivial
      · refine ⟨by simpa [Function.comp_def] using net.children_nodup, fun x hx => ?_⟩
        obtain ⟨y, -, rfl⟩ := List.mem_map.mp hx
        exact hsound y
  | starting todo started =>
    have hr := hr (by simp [hp])
    rw [hp] at hsound
    obtain ⟨hperm, hstates⟩ := hsound
    cases todo with
    | nil =>
      simp only [AsyncState.startNext, hp] at hs
      cases hs
      exact h.started hr fun x => hstates x (hperm.mem_iff.mpr (net.mem_children x))
    | cons e todo =>
      simp only [AsyncState.startNext, hp] at hs
      split at hs
      case isTrue hinitialized =>
        cases hs
        exact h.starts hr _ ⟨hperm, .inr hinitialized, hstates⟩
      · cases hs
  | undoing todo =>
    have hr := hr (by simp [hp])
    rw [hp] at hsound
    obtain ⟨hnodup, hstates⟩ := hsound
    cases todo with
    | nil =>
      simp only [AsyncState.startNext, hp] at hs
      cases hs
      exact h.starts hr .idle trivial
    | cons x todo =>
      obtain ⟨e, b⟩ := x
      have htodo : ∀ x ∈ todo, Planned s.m_state x := fun x hx => hstates x (by simp [hx])
      cases b with
      | true =>
        simp only [AsyncState.startNext, hp] at hs
        split at hs
        · cases hs
        · cases hs
          exact h.starts hr (.inStop e todo) ⟨hnodup, htodo⟩
      | false =>
        simp only [AsyncState.startNext, hp] at hs
        split at hs
        · cases hs
          exact h.starts hr (.inDeinit e todo) ⟨hnodup, htodo⟩
        · cases hs

end

end ParleVision.Runtime
