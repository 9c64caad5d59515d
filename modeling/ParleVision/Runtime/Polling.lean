import ParleVision.Runtime.Complete
import ParleVision.Runtime.Source

namespace ParleVision.Runtime
open Lib

inductive Available where
  | no
  /-- the serials differ, and the error "Input corrupted" is set -/
  | corrupted
  | next (serial : Nat)
deriving DecidableEq

section
variable {E P C : Type} (net : Network E P C)

def Network.m_hasAsynchronousPin (e : E) : Bool := (net.inputs e).any fun c => !net.isSynchronous c

/-- The serial that `IInputPin::peekNext` gives, if there are data items. -/
def Flow.peekNext (f : Flow E C) (c : C) : Option Nat :=
  (f.m_queue c).head?.map fun d => unsigned d.serial

def Flow.dataAvailableOnInputPins (f : Flow E C) (e : E) : Available :=
  if net.m_hasSynchronousPin e then
    if ∀ c ∈ net.syncInputs e, f.m_queue c ≠ [] then
      match (net.syncInputs e).filterMap f.peekNext with
      | [] => .no
      | serial :: serials => if ∀ x ∈ serials, serial = x then .next serial else .corrupted
    else .no
  else if net.m_hasAsynchronousPin e then
    match ((net.inputs e).filterMap f.peekNext).min? with
    | some serial => .next serial
    | none => .no
  else .no

def PipelineState.ready [DecidableEq E] (s : PipelineState E P C) (e : E) (serial : Nat) : Bool :=
  s.beforeDispatched e && decide (s.flow.dataAvailableOnInputPins net e = .next (unsigned serial))

end

variable {E P C : Type} {net : Network E P C} {first : Nat} {stale : E → Nat → Nat}
variable {s : PipelineState E P C} {e : E}

/-- If no two pins have different serials next. -/
theorem dataAvailable_of_peekNext {f : Flow E C} {x : Nat}
    (hhas : net.m_hasSynchronousPin e = true)
    (h : ∀ c ∈ net.syncInputs e, f.m_queue c ≠ [] → f.peekNext c = some x) :
    f.dataAvailableOnInputPins net e =
      if ∀ c ∈ net.syncInputs e, f.m_queue c ≠ [] then .next x else .no := by
  unfold Flow.dataAvailableOnInputPins
  rw [if_pos hhas]
  split
  case isFalse => rfl
  case isTrue hall =>
    have hserials : (net.syncInputs e).filterMap f.peekNext =
        List.replicate (net.syncInputs e).length x := by
      rw [List.filterMap_congr fun c hc => h c hc (hall c hc), ← List.map_const]
      exact congrFun List.filterMap_eq_map _
    have hpos : (net.syncInputs e).length ≠ 0 := by
      obtain ⟨c, hc⟩ := net.exists_syncInput hhas
      exact fun hzero => by simp [List.length_eq_zero_iff.mp hzero] at hc
    obtain ⟨n, hn⟩ := Nat.exists_eq_succ_of_ne_zero hpos
    rw [hserials, hn, List.replicate_succ]
    exact if_pos fun y hy => (List.eq_of_mem_replicate hy).symm

/-- A producer has no pins to look at. -/
theorem available_of_producer {f : Flow E C} (he : net.isProducer e = true) :
    f.dataAvailableOnInputPins net e = .no := by
  unfold Flow.dataAvailableOnInputPins
  rw [net.producer_m_hasSynchronousPin he, Network.m_hasAsynchronousPin, net.producer_inputs e he]
  rfl

variable [DecidableEq E] [DecidableEq C]

omit [DecidableEq E] in
/-- Between two runs of an element its synchronous pins have the items of the frames from the next
one on, as far as they have come. -/
theorem queue_between (ha : Accounted net s)
    (hconsecutive : ∀ e, s.flow.announced e = List.range' first (s.flow.announced e).length)
    (htaken : TakenFor net s.flow e (s.worker e)) (hfailed : ¬ (s.worker e).failed)
    (hdone : ∀ c, ¬ (s.worker e).untaken c) {c : C} (hc : c ∈ net.syncInputs e) :
    (s.m_queue c).map Data.serial =
      List.range' (first + (s.runs e).length) ((s.put c).length - (s.runs e).length) := by
  obtain ⟨htarget, hsync⟩ := (net.mem_syncInputs e c).mp hc
  have hlength : (s.taken c).length = (s.runs e).length := by
    have hle := (ha.element e).taken c htarget
    have hge := htaken.after hfailed c hc (hdone c)
    omega
  have hqueue := ha.queue_consecutive hsync (hconsecutive (net.source c))
  rw [hqueue, hlength]

/-- The next frame of an element is the one after those it was run for. -/
def PipelineState.nextFrame (s : PipelineState E P C) (first : Nat) (e : E) : Nat :=
  first + (s.runs e).length

omit [DecidableEq E] in
theorem peekNext_between (ha : Accounted net s)
    (hconsecutive : ∀ e, s.flow.announced e = List.range' first (s.flow.announced e).length)
    (htaken : TakenFor net s.flow e (s.worker e)) (hfailed : ¬ (s.worker e).failed)
    (hdone : ∀ c, ¬ (s.worker e).untaken c) {c : C} (hc : c ∈ net.syncInputs e)
    (hne : s.m_queue c ≠ []) : s.flow.peekNext c = some (unsigned (s.nextFrame first e)) := by
  have hqueue := queue_between ha hconsecutive htaken hfailed hdone hc
  have hpos : (s.put c).length - (s.runs e).length ≠ 0 := by
    intro hzero
    rw [hzero, List.range'_zero, List.map_eq_nil_iff] at hqueue
    exact hne hqueue
  have hhead := congrArg List.head? hqueue
  rw [List.head?_map, List.head?_range', if_neg hpos] at hhead
  have hsame : s.flow.peekNext c = ((s.m_queue c).head?.map Data.serial).map unsigned := by
    rw [Option.map_map]
    rfl
  rw [hsame, hhead]
  rfl

omit [DecidableEq E] in
/-- An item waits when that of the next frame was put. -/
theorem queue_ne_nil_iff (ha : Accounted net s)
    (hconsecutive : ∀ e, s.flow.announced e = List.range' first (s.flow.announced e).length)
    (htaken : TakenFor net s.flow e (s.worker e)) (hfailed : ¬ (s.worker e).failed)
    (hdone : ∀ c, ¬ (s.worker e).untaken c) {c : C} (hc : c ∈ net.syncInputs e) :
    s.m_queue c ≠ [] ↔ s.nextFrame first e ∈ s.put c := by
  have hlength := congrArg List.length (queue_between ha hconsecutive htaken hfailed hdone hc)
  rw [List.length_map, List.length_range'] at hlength
  obtain ⟨-, hsync⟩ := (net.mem_syncInputs e c).mp hc
  obtain ⟨hput, -⟩ := ha.put_consecutive hsync (hconsecutive (net.source c))
  rw [hput, List.mem_range'_1, PipelineState.nextFrame, ← List.length_pos_iff, hlength]
  omega

theorem Worker.idle_between {P C : Type} {w : Worker P C} (hw : w = .idle) :
    ¬ w.failed ∧ ∀ c, ¬ w.untaken c := by
  rw [hw]
  exact ⟨id, fun _ => id⟩

omit [DecidableEq E] in
/-- Between two runs the next frame is available, if all its items have come. -/
theorem available_between (ha : Accounted net s)
    (hconsecutive : ∀ e, s.flow.announced e = List.range' first (s.flow.announced e).length)
    (htaken : TakenFor net s.flow e (s.worker e)) (hhas : net.m_hasSynchronousPin e = true)
    (hfailed : ¬ (s.worker e).failed) (hdone : ∀ c, ¬ (s.worker e).untaken c) :
    s.flow.dataAvailableOnInputPins net e =
      if ∀ c ∈ net.syncInputs e, s.m_queue c ≠ [] then .next (unsigned (s.nextFrame first e))
      else .no :=
  dataAvailable_of_peekNext hhas fun _ hc =>
    peekNext_between ha hconsecutive htaken hfailed hdone hc

omit [DecidableEq E] in
/-- What an idle element was not dispatched for is in its ready queue. -/
theorem readyQueue_of_idle (ha : Accounted net s)
    (hconsecutive : ∀ e, s.flow.announced e = List.range' first (s.flow.announced e).length)
    (hw : s.worker e = .idle) : s.m_readyQueue e =
      List.range' (s.nextFrame first e) ((s.flow.announced e).length - (s.runs e).length) := by
  have hdispatched := (ha.element e).dispatched
  rw [hw] at hdispatched
  change s.runs e ++ [] = s.dispatched e at hdispatched
  rw [List.append_nil] at hdispatched
  have hsplit := hconsecutive e
  rw [Flow.announced, ← hdispatched] at hsplit
  rw [Flow.announced, ← hdispatched]
  exact range'_rest hsplit.symm

omit [DecidableEq E] in
theorem beforeDispatched_of_idle (ha : Accounted net s) (hw : s.worker e = .idle) :
    s.beforeDispatched e = true := by
  have hstarted : s.m_state e = .PLE_STARTED := by
    by_contra hne
    have hbusy := (ha.busy e).mpr hne
    rw [hw] at hbusy
    exact hbusy
  simp [PipelineState.beforeDispatched, hstarted]

/-- What the scoreboard has let pass is what the pins say. -/
theorem ready_of_queued (ha : Accounted net s)
    (hconsecutive : ∀ e, s.flow.announced e = List.range' first (s.flow.announced e).length)
    (hserials : Serials net first stale s) (htaken : TakenFor net s.flow e (s.worker e))
    (hhas : net.m_hasSynchronousPin e = true) {serial : Nat} {queue : List Nat}
    (hw : s.worker e = .idle) (hqueue : s.m_readyQueue e = serial :: queue) :
    s.ready net e serial = true := by
  obtain ⟨hfailed, hdone⟩ := Worker.idle_between hw
  have hserial : serial = s.nextFrame first e := by
    have hnext := readyQueue_of_idle ha hconsecutive hw
    rw [hqueue] at hnext
    exact (List.range'_eq_cons_iff.mp hnext.symm).1.symm
  have hin : serial ∈ s.flow.announced e := by
    rw [Flow.announced, hqueue]
    exact List.mem_append_right _ List.mem_cons_self
  have hall : ∀ c ∈ net.syncInputs e, s.m_queue c ≠ [] := by
    intro c hc
    rw [queue_ne_nil_iff ha hconsecutive htaken hfailed hdone hc, ← hserial,
      (ha.element (net.source c)).notified c rfl]
    exact List.mem_append_left _ ((hserials.complete e hhas serial).mp hin c hc)
  rw [PipelineState.ready, beforeDispatched_of_idle ha hw,
    available_between ha hconsecutive htaken hhas hfailed hdone, if_pos hall, hserial]
  simp

/-- What the pins say is what the scoreboard has let pass, if none of its items is still to be
announced. -/
theorem queued_of_ready (ha : Accounted net s)
    (hconsecutive : ∀ e, s.flow.announced e = List.range' first (s.flow.announced e).length)
    (hserials : Serials net first stale s) (htaken : TakenFor net s.flow e (s.worker e))
    (hhas : net.m_hasSynchronousPin e = true) {serial : Nat} (hr : s.ready net e serial = true)
    (hannounced : ∀ c ∈ net.syncInputs e, (s.worker (net.source c)).announcing ≠ some c) :
    (s.m_readyQueue e).head?.map unsigned = some (unsigned serial) := by
  obtain ⟨hstate, havail⟩ := by simpa [PipelineState.ready] using hr
  have hw := SourcedState.idle_of_beforeDispatched ha hstate
  obtain ⟨hfailed, hdone⟩ := Worker.idle_between hw
  rw [available_between ha hconsecutive htaken hhas hfailed hdone] at havail
  split at havail
  case isFalse => cases havail
  case isTrue hall =>
    have hin : s.nextFrame first e ∈ s.flow.announced e := by
      rw [hserials.complete e hhas]
      intro c hc
      have hput := (queue_ne_nil_iff ha hconsecutive htaken hfailed hdone hc).mp (hall c hc)
      rw [(ha.element (net.source c)).notified c rfl, if_neg (hannounced c hc),
        List.append_nil] at hput
      exact hput
    rw [hconsecutive e, List.mem_range'_1, PipelineState.nextFrame] at hin
    have hpos : (s.flow.announced e).length - (s.runs e).length ≠ 0 := by omega
    rw [readyQueue_of_idle ha hconsecutive hw, List.head?_range', if_neg hpos]
    exact congrArg some (Available.next.inj havail)

/-- Scheduling by the scoreboards is what asking the processors whether they are ready would do. -/
structure PollingAgrees (net : Network E P C) (s : PipelineState E P C) : Prop where
  /-- as long as no run is half way through its items, the pins do not contradict each other -/
  uncorrupted : ∀ e, ¬ (s.worker e).failed → (∀ c, ¬ (s.worker e).untaken c) →
    s.flow.dataAvailableOnInputPins net e ≠ .corrupted
  /-- what the scoreboard has let pass is available -/
  ready : ∀ e serial queue, s.worker e = .idle → s.m_readyQueue e = serial :: queue →
    s.ready net e serial = true
  /-- and the scoreboard lets pass what is available, as soon as the last item is announced -/
  scored : ∀ e serial, net.isProducer e = false → s.ready net e serial = true →
    (∀ c ∈ net.syncInputs e, (s.worker (net.source c)).announcing ≠ some c) →
    (s.m_readyQueue e).head?.map unsigned = some (unsigned serial)

/-- Whatever the order of the steps: in a pipeline all processors of which take an item from each
synchronous pin, asking which processors are ready gives those that the scoreboards give. -/
theorem polling_agrees [DecidableEq P] (hacyclic : net.Acyclic)
    (hpins : ∀ e, net.isProducer e = false → net.m_hasSynchronousPin e = true)
    (hfirst : first < 2 ^ 32) (hstale : ∀ e x, first ≤ x → stale e x = 0)
    (h : Reaches (PipelineState.step net) (Regular net) (.started first stale) s) :
    PollingAgrees net s := by
  have hinv : InStep net first stale s := by
    refine h.invariant (started_inStep hfirst) ?_
    intro s event s' hi hallowed hs
    exact hi.step hpins hstale hallowed.1 hallowed.2 hs
  obtain ⟨hunwrapped, hframed, htaken⟩ := hinv
  have ha := hunwrapped.accounted
  have hserials := hunwrapped.serials
  have hconsecutive := hserials.consecutive ha hframed hacyclic
    fun c => hpins _ (net.target_not_producer c)
  constructor
  case uncorrupted =>
    intro e hfailed hdone
    cases he : net.isProducer e with
    | true =>
      rw [available_of_producer he]
      exact Available.noConfusion
    | false =>
      rw [available_between ha hconsecutive (htaken e) (hpins e he) hfailed hdone]
      split
      · exact Available.noConfusion
      · exact Available.noConfusion
  case ready =>
    intro e serial queue hw hqueue
    have he : net.isProducer e = false := by
      rw [Bool.eq_false_iff]
      intro he
      rw [hserials.producer e he] at hqueue
      cases hqueue
    exact ready_of_queued ha hconsecutive hserials (htaken e) (hpins e he) hw hqueue
  case scored =>
    intro e serial he hr hannounced
    exact queued_of_ready ha hconsecutive hserials (htaken e) (hpins e he) hr hannounced

/-- The producer has put the first item, and the processor after it is to be dispatched. -/
theorem polling_agrees_chain : ∃ s : PipelineState (Fin 3) (Fin 2) (Fin 2),
    s.m_readyQueue 1 = [1] ∧ s.ready (chain true) 1 1 = true ∧
      s.flow.dataAvailableOnInputPins (chain true) 2 = .no ∧ PollingAgrees (chain true) s := by
  have hend : (run (guarded (PipelineState.step (chain true)) (Regular (chain true)))
      (.started 1 fun _ _ => 0) (chainFrame.take 23)).map (fun s => (s.m_readyQueue 1,
        s.ready (chain true) 1 1, s.flow.dataAvailableOnInputPins (chain true) 2)) =
      some ([1], true, .no) := by decide +kernel
  obtain ⟨s, hs, hview⟩ := Option.map_eq_some_iff.mp hend
  obtain ⟨hqueue, hready, hno⟩ := by simpa only [Prod.mk.injEq] using hview
  exact ⟨s, hqueue, hready, hno, polling_agrees ((chain true).acyclic_of_rank Fin.val (by decide))
    (by decide) (by decide) (fun _ _ _ => rfl) (.of_guarded_run hs)⟩

end ParleVision.Runtime
