import ParleVision.Runtime.Alignment
import ParleVision.Runtime.Errors

namespace ParleVision.Runtime
open Lib
open ParleVision.Lifecycle (State)

/-- The future of a run that is over is not kept. -/
def Worker.dropped {P C : Type} : Worker P C → Worker P C
  | .finished _ => .idle
  | w => w

structure SessionState (E P C : Type) extends session : StopState E P C where
  /-- the serials an element was dispatched for in the sessions before -/
  past : E → List Nat

inductive SessionEvent (E P C : Type) where
  | session (event : StopEvent E P C)
  /-- `Pipeline::start`, of which the `init` and `start` of all elements return true -/
  | start

section
variable {E P C : Type} [DecidableEq E] [DecidableEq P] [DecidableEq C] (net : Network E P C)

/-- What `start` makes of what the last session has left; nothing when the assertion in `__init`
fails. The record of the session is a new one. -/
def StopState.start (s : StopState E P C) : Option (StopState E P C) :=
  if s.stopPhase = .returned ∧ ∀ e ∈ net.children, s.m_state e = .PLE_UNDEFINED then
    some { s with
      m_readyQueue := fun _ => []
      dispatched := fun _ => []
      runs := fun _ => []
      put := fun _ => []
      taken := fun _ => []
      notified := fun _ => []
      phase := .idle
      m_state := fun _ => .PLE_STARTED
      worker := fun e => (s.worker e).dropped
      stopPhase := .running
      ended := [] }
  else none

namespace SessionState

/-- The first session of a pipeline. The constructor sets `m_serial` to 1. -/
def started : SessionState E P C where
  session := .started 1 fun _ _ => 0
  past := fun _ => []

def step (t : SessionState E P C) : SessionEvent E P C → Option (SessionState E P C)
  | .session event => (t.session.step net event).map fun s => { t with session := s }
  | .start =>
    (t.session.start net).map fun s =>
      { session := s, past := fun e => t.past e ++ t.dispatched e }

/-- The counter does not wrap, `process()` takes from the synchronous pins, and `stop` takes a
PLE_ERROR for the end of a run only when the run is over. -/
def Allowed (t : SessionState E P C) : SessionEvent E P C → Prop
  | .session (.pipeline event) =>
    NotWrapping t.pipeline event ∧ TakesSynchronous net t.pipeline event
  | .session event => SeesFinished t.session event
  | .start => True

end SessionState

end

variable {E P C : Type} {net : Network E P C}

/-- Nothing is known of the serials from a bound on. -/
structure Below (f : Flow E C) (worker : E → Worker P C) (bound : Nat) : Prop where
  processing : ∀ e, f.processingSerial e < bound
  ready : ∀ e, ∀ x ∈ f.m_readyQueue e, x < bound
  waiting : ∀ e, ∀ x ∈ (worker e).waiting, x < bound
  dispatched : ∀ e, ∀ x ∈ f.dispatched e, x < bound
  lookup : ∀ e x, bound ≤ x → f.m_lookup e x = 0

section
variable {f f' : Flow E C} {worker : E → Worker P C} {e : E} {bound : Nat}

theorem Below.mono {bound' : Nat} (h : Below f worker bound) (hle : bound ≤ bound') :
    Below f worker bound' where
  processing e := Nat.lt_of_lt_of_le (h.processing e) hle
  ready e x hx := Nat.lt_of_lt_of_le (h.ready e x hx) hle
  waiting e x hx := Nat.lt_of_lt_of_le (h.waiting e x hx) hle
  dispatched e x hx := Nat.lt_of_lt_of_le (h.dispatched e x hx) hle
  lookup e x hx := h.lookup e x (Nat.le_trans hle hx)

/-- What is changed at one place still has a property everywhere. -/
theorem update_all {α β : Type} [DecidableEq α] {g : α → β} {a : α} {b : β} (p : β → Prop)
    (hb : p b) (hg : ∀ x, p (g x)) (x : α) : p (Function.update g a b x) := by
  by_cases hx : x = a
  · subst x
    rw [Function.update_self]
    exact hb
  · rw [Function.update_of_ne hx]
    exact hg x

variable [DecidableEq E]

/-- The run of an element goes on. -/
theorem Below.goto {w : Worker P C} (h : Below f worker bound) (hw : ∀ x ∈ w.waiting, x < bound) :
    Below f (Function.update worker e w) bound where
  processing := h.processing
  ready := h.ready
  waiting := update_all (fun (w : Worker P C) => ∀ x ∈ w.waiting, x < bound) hw h.waiting
  dispatched := h.dispatched
  lookup := h.lookup

theorem Below.dispatch {serial : Nat} (h : Below f worker bound) (hserial : serial < bound) :
    Below (f.dispatch e serial) (Function.update worker e (.dispatched serial)) bound where
  processing := h.processing
  ready := h.ready
  waiting := by
    refine update_all (fun (w : Worker P C) => ∀ x ∈ w.waiting, x < bound) (fun x hx => ?_)
      h.waiting
    rw [List.mem_singleton.mp hx]
    exact hserial
  dispatched := by
    refine update_all (fun l => ∀ x ∈ l, x < bound) (fun x hx => ?_) h.dispatched
    obtain hx | hx := List.mem_append.mp hx
    · exact h.dispatched e x hx
    · rw [List.mem_singleton.mp hx]
      exact hserial
  lookup := h.lookup

variable [DecidableEq C]

/-- The serial of an item that is announced is one that its source was given. -/
theorem Below.announces {c : C} (h : Below f worker bound) (ha : Announces net f c f') :
    Below f' worker bound := by
  have hserial : f.processingSerial (net.source c) < bound := h.processing _
  have hready : ∀ e, ∀ x ∈ Function.update f.m_readyQueue (net.target c)
      (f.m_readyQueue (net.target c) ++ [f.processingSerial (net.source c)]) e, x < bound := by
    refine update_all (fun l => ∀ x ∈ l, x < bound) (fun x hx => ?_) h.ready
    obtain hx | hx := List.mem_append.mp hx
    · exact h.ready _ x hx
    · rw [List.mem_singleton.mp hx]
      exact hserial
  have hlookup (count : Nat) : ∀ e x, bound ≤ x → Function.update f.m_lookup (net.target c)
      (Function.update (f.m_lookup (net.target c))
        (unsigned (f.processingSerial (net.source c))) count) e x = 0 := by
    refine update_all (fun (l : Nat → Nat) => ∀ x, bound ≤ x → l x = 0) (fun x hx => ?_) h.lookup
    have hne : x ≠ unsigned (f.processingSerial (net.source c)) := by
      have hle : unsigned (f.processingSerial (net.source c)) ≤ f.processingSerial (net.source c) :=
        Nat.mod_le ..
      omega
    rw [Function.update_of_ne hne]
    exact h.lookup _ x hx
  constructor
  case processing =>
    rw [ha.processingSerial]
    exact h.processing
  case ready =>
    obtain ⟨-, -, hq⟩ | ⟨-, -, -, hq⟩ | ⟨-, -, ⟨-, -, hq⟩ | ⟨-, -, hq⟩⟩ := ha.scored
    · rw [hq]
      exact hready
    · rw [hq]
      exact h.ready
    · rw [hq]
      exact hready
    · rw [hq]
      exact h.ready
  case waiting => exact h.waiting
  case dispatched =>
    rw [ha.dispatched]
    exact h.dispatched
  case lookup =>
    obtain ⟨-, hl, -⟩ | ⟨-, -, hl, -⟩ | ⟨-, -, ⟨-, hl, -⟩ | ⟨-, hl, -⟩⟩ := ha.scored
    · rw [hl]
      exact h.lookup
    · rw [hl]
      exact h.lookup
    · rw [hl]
      exact hlookup _
    · rw [hl]
      exact hlookup _

theorem Below.run {action : Action P C} {w' : Worker P C} (h : Below f worker bound)
    (hr : Run net f e (worker e) action f' w') :
    Below f' (Function.update worker e w') bound := by
  cases hr with
  | quiet hq =>
    apply h.goto
    rw [hq.waiting]
    exact h.waiting e
  | @begins serial _ hw hw' =>
    have hserial : serial < bound :=
      h.waiting e serial (by rw [hw]; exact List.mem_singleton_self _)
    have hwaiting : w'.waiting = [] := by
      obtain ⟨-, -, rfl⟩ | ⟨-, rfl⟩ := hw' <;> rfl
    refine Below.goto ⟨?_, h.ready, h.waiting, h.dispatched, h.lookup⟩ (by simp [hwaiting])
    exact update_all (· < bound) hserial h.processing
  | pushes _ _ _ hu' =>
    refine Below.goto ⟨h.processing, h.ready, h.waiting, h.dispatched, h.lookup⟩ ?_
    simp [Worker.waiting_of_underway (.inl hu')]
  | announces _ hnew _ hu' =>
    refine (h.announces (newData_announces hnew)).goto ?_
    simp [Worker.waiting_of_underway (.inl hu')]
  | takes _ hget _ _ hw' =>
    obtain ⟨queue, -, rfl⟩ := get_some hget
    have hwaiting : w'.waiting = [] := Worker.waiting_of_underway (hw'.symm.imp_left And.left)
    exact Below.goto ⟨h.processing, h.ready, h.waiting, h.dispatched, h.lookup⟩ (by simp [hwaiting])

variable {s s' : PipelineState E P C}

/-- A run gives no serials out. -/
theorem Works.dispatched {action : Action P C} {w' : Worker P C} (h : Works net s e action s' w') :
    s'.dispatched = s.dispatched := by
  have hrun := h.run
  generalize s'.flow = f' at hrun
  cases hrun with
  | quiet => rfl
  | begins => rfl
  | pushes => rfl
  | announces _ hnew => exact (newData_announces hnew).dispatched
  | takes _ hget =>
    obtain ⟨queue, -, rfl⟩ := get_some hget
    rfl

omit [DecidableEq C] in
theorem Below.turn (h : Below s.flow s.worker s.next) (ht : Turn net s s') :
    Below s'.flow s'.worker s'.next := by
  have hnext : s.next ≤ s'.next := by
    obtain hsame | ⟨hphase, hmore⟩ := ht.next
    · exact hsame.ge
    · rw [hmore, next_of_not_producing (by simp [hphase])]
      exact Nat.le_succ _
  refine Below.mono ?_ hnext
  cases ht with
  | moves => exact h
  | reaps => exact h.goto fun x hx => absurd hx List.not_mem_nil
  | @dispatches e todo serial queue _ _ hready hd _ hflow =>
    rw [hd.worker, hflow]
    refine Below.dispatch ⟨h.processing, ?_, h.waiting, h.dispatched, h.lookup⟩ ?_
    · refine update_all (fun l => ∀ x ∈ l, x < s.next) (fun x hx => ?_) h.ready
      exact h.ready e x (by rw [hready]; exact List.mem_cons_of_mem _ hx)
    · exact h.ready e serial (by rw [hready]; exact List.mem_cons_self ..)
  | produces hphase hd _ hflow =>
    rw [hd.worker, hflow]
    refine h.dispatch ?_
    simp only [PipelineState.next, hphase]
    exact Nat.lt_succ_self _
  | ticks => exact ⟨h.processing, h.ready, h.waiting, h.dispatched, h.lookup⟩

theorem Below.works {action : Action P C} {w' : Worker P C}
    (h : Below s.flow s.worker s.next) (hw : Works net s e action s' w') :
    Below s'.flow s'.worker s'.next := by
  rw [hw.worker, hw.next]
  exact h.run hw.run

/-- `stop` gives no serials out. -/
theorem Below.stopTurn {t t' : StopState E P C} (h : Below t.flow t.worker bound) (hpos : 0 < bound)
    (ht : StopTurn net t t') : Below t'.flow t'.worker bound := by
  cases ht with
  | resets =>
    exact ⟨update_all (· < bound) hpos h.processing, h.ready, h.waiting, h.dispatched, h.lookup⟩
  | flushes => exact ⟨h.processing, h.ready, h.waiting, h.dispatched, h.lookup⟩
  | clears =>
    exact ⟨h.processing, fun _ x hx => absurd hx List.not_mem_nil, h.waiting, h.dispatched,
      h.lookup⟩
  | _ => exact h

end

section
variable [DecidableEq E] [DecidableEq C] {s s' : StopState E P C}

/-- An element that `stop` is done with and that is undefined has no serial. -/
def Reset (net : Network E P C) (s : StopState E P C) : Prop :=
  ∀ e, e ∉ s.stopPhase.remaining net → s.m_state e = .PLE_UNDEFINED → s.processingSerial e = 0

omit [DecidableEq E] [DecidableEq C] in
theorem reset_of_not_waited (h : ¬ s.stopPhase.Waited) : Reset net s := by
  intro e he
  cases hp : s.stopPhase with
  | running | waiting | restarting =>
    rw [hp] at he
    exact absurd (net.mem_children e) he
  | _ =>
    rw [hp] at h
    exact absurd trivial h

omit [DecidableEq C] in
theorem Reset.setState (h : Reset net s) {e : E} {state : State}
    (he : e ∈ s.stopPhase.remaining net) : Reset net (s.setState e state) := by
  intro e' he' hstate
  change Function.update s.m_state e state e' = _ at hstate
  have hne : e' ≠ e := by
    rintro rfl
    exact he' he
  rw [Function.update_of_ne hne] at hstate
  exact h e' he' hstate

omit [DecidableEq E] [DecidableEq C] in
theorem Reset.goto (h : Reset net s) {stopPhase : StopPhase E C}
    (hremaining : s.stopPhase.remaining net ⊆ stopPhase.remaining net) :
    Reset net (s.goto stopPhase) := fun e he => h e fun hmem => he (hremaining hmem)

theorem Reset.stopTurn (h : Reset net s) (ht : StopTurn net s s') : Reset net s' := by
  cases ht with
  | called | waits | removes | skips | restarts => exact reset_of_not_waited id
  | waited => exact fun e he => absurd (net.mem_children e) he
  | leaves hp | left hp | deinits hp | flushed hp | allFlushed hp =>
    exact h.goto (by rw [hp]; exact List.Subset.refl _)
  | flushes hp =>
    rw [Reset, hp] at h
    exact h
  | clears hp =>
    rw [Reset, hp] at h
    exact h
  | stopError hp | deinitError hp => exact h.setState (by rw [hp]; exact List.mem_cons_self ..)
  | @stops e todo b state hp =>
    have hset : Reset net (s.setState e state) :=
      h.setState (by rw [hp]; exact List.mem_cons_self ..)
    have hp' : (s.setState e state).stopPhase = .stopping e todo := hp
    exact hset.goto (by rw [hp']; exact List.Subset.refl _)
  | @deinited e b todo hp =>
    have hset : Reset net (s.setState e .PLE_UNDEFINED) :=
      h.setState (by rw [hp]; exact List.mem_cons_self ..)
    have hp' : (s.setState e .PLE_UNDEFINED).stopPhase = .deiniting e b todo := hp
    exact hset.goto (by rw [hp']; exact List.Subset.refl _)
  | @deinitFails e b todo hp =>
    intro e' he' hstate
    change Function.update s.m_state e .PLE_ERROR e' = _ at hstate
    have hne : e' ≠ e := by
      rintro rfl
      rw [Function.update_self] at hstate
      cases hstate
    rw [Function.update_of_ne hne] at hstate
    refine h e' (fun hmem => ?_) hstate
    rw [hp] at hmem
    exact he' ((List.mem_cons.mp hmem).resolve_left hne)
  | @resets e b todo hp =>
    intro e' he' hstate
    change Function.update s.processingSerial e 0 e' = 0
    by_cases hne : e' = e
    · subst e'
      exact Function.update_self ..
    · rw [Function.update_of_ne hne]
      refine h e' (fun hmem => ?_) hstate
      rw [hp] at hmem
      exact he' ((List.mem_cons.mp hmem).resolve_left hne)

/-- A run goes on only before the wait loop has ended. -/
theorem Quiescing.not_waited [DecidableEq P] {e : E} {action : Action P C}
    {pipeline : PipelineState E P C} (h : Quiescing net s)
    (hs : s.pipeline.work net e action = some pipeline) : ¬ s.stopPhase.Waited := by
  intro hwaited
  have hmem := (h.finished e).resolve_right (not_over_of_work hs)
  rw [h.waited hwaited] at hmem
  cases hmem

/-- A session begins as the first one does, but for the counter and the scoreboards. -/
theorem start_eq (hq : Quiescing net s) (hr : Reset net s) (hs : s.start net = some s') :
    s' = .started s.m_serial s.m_lookup := by
  unfold StopState.start at hs
  split at hs
  case isFalse => cases hs
  case isTrue hstart =>
    obtain ⟨hreturned, hundefined⟩ := hstart
    have hqueue : s.m_runQueue = [] := hq.waited (by rw [hreturned]; trivial)
    have hserial : s.processingSerial = fun _ => 0 := by
      funext e
      exact hr e (by rw [hreturned]; exact List.not_mem_nil) (hundefined e (net.mem_children e))
    have hempty : s.m_queue = fun _ => [] := by
      funext c
      have hflushed := hq.flushed c
      rw [hreturned] at hflushed
      exact hflushed.resolve_left List.not_mem_nil
    have hworker : (fun e => (s.worker e).dropped) = fun _ => .idle := by
      funext e
      have hover : (s.worker e).Over := by
        refine (hq.finished e).resolve_left ?_
        rw [hqueue]
        exact List.not_mem_nil
      cases hw : s.worker e with
      | idle | finished => rfl
      | _ =>
        rw [hw] at hover
        exact hover.elim
    cases hs
    rw [hqueue, hserial, hempty, hworker]
    rfl

end

structure Continued [DecidableEq E] [DecidableEq C] (net : Network E P C)
    (t : SessionState E P C) : Prop where
  quiescing : Quiescing net t.session
  reset : Reset net t.session
  below : Below t.flow t.worker t.pipeline.next
  running : t.stopPhase = .running → ∃ first stale, (∀ e x, first ≤ x → stale e x = 0) ∧
    (∀ e, ∀ x ∈ t.past e, x < first) ∧ InStep net first stale t.pipeline
  stopped : t.stopPhase ≠ .running → ∀ todo, t.phase ≠ .producing todo
  ordered : ∀ e, (t.past e ++ t.dispatched e).Pairwise (· < ·)
  past_lt : ∀ e, ∀ x ∈ t.past e, x < t.m_serial
  serial_pos : 0 < t.m_serial
  serial_lt : t.m_serial < 2 ^ 32

section
variable [DecidableEq E] [DecidableEq C] {t t' : SessionState E P C}

/-- A session begins. -/
theorem Continued.begin {serial : Nat} {stale : E → Nat → Nat}
    {past : E → List Nat} (hstale : ∀ e x, serial ≤ x → stale e x = 0)
    (hpast : ∀ e, ∀ x ∈ past e, x < serial) (hordered : ∀ e, (past e).Pairwise (· < ·))
    (hpos : 0 < serial) (hlt : serial < 2 ^ 32) :
    Continued net ⟨.started serial stale, past⟩ where
  quiescing := .of_running rfl started_running rfl
  reset := reset_of_not_waited id
  below := ⟨fun _ => hpos, fun _ x hx => absurd hx List.not_mem_nil,
    fun _ x hx => absurd hx List.not_mem_nil, fun _ x hx => absurd hx List.not_mem_nil, hstale⟩
  running _ := ⟨serial, stale, hstale, hpast, started_inStep hlt⟩
  stopped h := absurd rfl h
  ordered e := by
    change (past e ++ []).Pairwise (· < ·)
    rw [List.append_nil]
    exact hordered e
  past_lt := hpast
  serial_pos := hpos
  serial_lt := hlt

variable [DecidableEq P]

/-- The session goes on. -/
theorem Continued.runs {event : Event E P C} {s : StopState E P C} (h : Continued net t)
    (hpins : ∀ e, net.isProducer e = false → net.m_hasSynchronousPin e = true)
    (hwrap : NotWrapping t.pipeline event) (htakes : TakesSynchronous net t.pipeline event)
    (hq : Quiescing net s) (hrunning : t.stopPhase = .running) (hphase : s.stopPhase = .running)
    (hs : t.pipeline.step net event = some s.pipeline) : Continued net { t with session := s } := by
  obtain ⟨first, stale, hstale, hpast, hinstep⟩ := h.running hrunning
  have hinstep' := hinstep.step hpins hstale hwrap htakes hs
  have hserials := hinstep'.unwrapped.serials
  have hdispatched (e : E) : (s.dispatched e).Sublist (s.flow.announced e) :=
    List.sublist_append_left ..
  have hbelow : Below s.flow s.worker s.pipeline.next ∧ t.m_serial ≤ s.m_serial := by
    cases event with
    | schedule order answer =>
      have hturn : Turn net t.pipeline s.pipeline := schedule_cases hs
      refine ⟨h.below.turn hturn, ?_⟩
      obtain hserial | ⟨-, hserial⟩ := hturn.m_serial
      · exact hserial.ge
      · rw [hserial]
        exact Nat.le_succ _
    | work e action =>
      obtain ⟨w', hw⟩ := work_cases (hinstep.unwrapped.accounted.shaped e) hs
      exact ⟨h.below.works hw, hw.m_serial.ge⟩
  constructor
  case quiescing => exact hq
  case reset =>
    apply reset_of_not_waited
    rw [hphase]
    exact id
  case below => exact hbelow.1
  case running => exact fun _ => ⟨first, stale, hstale, hpast, hinstep'⟩
  case stopped => exact fun hnot => absurd hphase hnot
  case ordered =>
    intro e
    refine List.pairwise_append.mpr ⟨(List.pairwise_append.mp (h.ordered e)).1,
      (hserials.ordered e).sublist (hdispatched e), fun x hx y hy => ?_⟩
    exact Nat.lt_of_lt_of_le (hpast e x hx) (hserials.range e y ((hdispatched e).subset hy)).1
  case past_lt => exact fun e x hx => Nat.lt_of_lt_of_le (hpast e x hx) hserials.first_le
  case serial_pos => exact Nat.lt_of_lt_of_le h.serial_pos hbelow.2
  case serial_lt => exact hinstep'.unwrapped.serial_lt

omit [DecidableEq P] in
/-- `stop` goes on, or a run that it waits for. -/
theorem Continued.stops {s : StopState E P C} (h : Continued net t) (hq : Quiescing net s)
    (hreset : Reset net s) (hbelow : Below s.flow s.worker s.pipeline.next)
    (hphase : s.stopPhase ≠ .running) (hproducing : ∀ todo, s.phase ≠ .producing todo)
    (hdispatched : s.dispatched = t.dispatched) (hserial : s.m_serial = t.m_serial) :
    Continued net { t with session := s } where
  quiescing := hq
  reset := hreset
  below := hbelow
  running hrunning := absurd hrunning hphase
  stopped _ := hproducing
  ordered e := by
    change (t.past e ++ s.dispatched e).Pairwise (· < ·)
    rw [hdispatched]
    exact h.ordered e
  past_lt := by
    change ∀ e, ∀ x ∈ t.past e, x < s.m_serial
    rw [hserial]
    exact h.past_lt
  serial_pos := hserial.symm ▸ h.serial_pos
  serial_lt := hserial.symm ▸ h.serial_lt

omit [DecidableEq P] in
/-- `stop` is not called while the producers are dispatched. -/
theorem next_phase {s s' : StopState E P C} {order : List E} {hook : Hook}
    (h : s.next net order hook = some s') : s'.phase = s.phase ∧ s'.m_serial = s.m_serial ∧
      (s.stopPhase = .running → ∀ todo, s.phase ≠ .producing todo) := by
  have hsame : s'.phase = s.phase ∧ s'.m_serial = s.m_serial := by
    cases next_cases h <;> exact ⟨rfl, rfl⟩
  refine ⟨hsame.1, hsame.2, fun hrunning todo hp => ?_⟩
  simp only [StopState.next, hrunning, hp] at h
  cases h

theorem Continued.step {event : SessionEvent E P C} (h : Continued net t)
    (hpins : ∀ e, net.isProducer e = false → net.m_hasSynchronousPin e = true)
    (hallowed : t.Allowed net event) (hs : t.step net event = some t') : Continued net t' := by
  cases event with
  | start =>
    obtain ⟨s, hstart, rfl⟩ := Option.map_eq_some_iff.mp hs
    have hreturned : t.stopPhase = .returned := by
      unfold StopState.start at hstart
      split at hstart
      case isTrue hcan => exact hcan.1
      case isFalse => cases hstart
    have hnext : t.pipeline.next = t.m_serial :=
      next_of_not_producing (h.stopped (by rw [hreturned]; exact nofun))
    have hbelow := h.below
    rw [hnext] at hbelow
    rw [start_eq h.quiescing h.reset hstart]
    refine .begin hbelow.lookup (fun e x hx => ?_) h.ordered h.serial_pos h.serial_lt
    exact (List.mem_append.mp hx).elim (h.past_lt e x) (hbelow.dispatched e x)
  | session event =>
    obtain ⟨s, hstep, rfl⟩ := Option.map_eq_some_iff.mp hs
    cases event with
    | stop order hook =>
      have hnext : t.session.next net order hook = some s := hstep
      have hturn := next_cases hnext
      obtain ⟨hphase, hserial, hcalled⟩ := next_phase hnext
      obtain ⟨hnot, -, hdispatched⟩ := next_not_running hnext
      have hsame : s.pipeline.next = t.pipeline.next := by
        rw [PipelineState.next, PipelineState.next, hphase, hserial]
      refine h.stops (h.quiescing.next hallowed hnext) (h.reset.stopTurn hturn) ?_ hnot ?_
        hdispatched hserial
      · rw [hsame]
        exact h.below.stopTurn (Nat.lt_of_lt_of_le h.serial_pos le_next) hturn
      · rw [hphase]
        by_cases hrunning : t.stopPhase = .running
        · exact hcalled hrunning
        · exact h.stopped hrunning
    | pipeline event =>
      obtain ⟨hwrap, htakes⟩ := hallowed
      have hq : Quiescing net s := 
        h.quiescing.step (show SeesFinished t.session (.pipeline event) from trivial) hstep
      cases event with
      | schedule order answer =>
        obtain ⟨hrunning, pipeline, hpipeline, rfl⟩ := step_schedule hstep
        exact h.runs hpins hwrap htakes hq hrunning hrunning hpipeline
      | work e action =>
        obtain ⟨hwork, hphase⟩ := step_work hstep
        by_cases hrunning : t.stopPhase = .running
        · exact h.runs hpins hwrap htakes hq hrunning (hphase.trans hrunning) hwork
        · obtain ⟨w', hw⟩ := work_cases (h.quiescing.shaped e) hwork
          have hphase' : s.phase = t.phase := hw.phase
          refine h.stops hq (reset_of_not_waited ?_) (h.below.works hw) (hphase ▸ hrunning) ?_
            hw.dispatched hw.m_serial
          · rw [hphase]
            exact h.quiescing.not_waited hwork
          · rw [hphase']
            exact h.stopped hrunning

end

section
variable [DecidableEq E] [DecidableEq P] [DecidableEq C]

instance (t : SessionState E P C) (event : SessionEvent E P C) : Decidable (t.Allowed net event) :=
  match event with
  | .session (.pipeline _) => inferInstanceAs (Decidable (_ ∧ _))
  | .session (.stop order hook) =>
    inferInstanceAs (Decidable (SeesFinished t.session (.stop order hook)))
  | .start => .isTrue trivial

end

/-- Two producers, and a processor with a synchronous pin for each. -/
def joined : Network (Fin 3) (Fin 2) (Fin 2) where
  children := [0, 1, 2]
  isProducer e := e != 2
  outputPins := ![[0], [1], []]
  outputs := ![[0], [1]]
  inputs := ![[], [], [0, 1]]
  connections := [0, 1]
  owner := ![0, 1]
  fromPin := ![0, 1]
  target := ![2, 2]
  isSynchronous _ := true
  isDataGuaranteed _ := true
  mem_children := (chain true).mem_children
  mem_connections := mem_two
  mem_outputPins := (chain true).mem_outputPins
  mem_outputs := mem_singles
  mem_inputs := by decide
  children_nodup := (chain true).children_nodup
  outputPins_nodup := (chain true).outputPins_nodup
  outputs_nodup := singles_nodup
  inputs_nodup := by decide
  producer_inputs := by decide

end ParleVision.Runtime
