import ParleVision.Runtime.Serials
import Mathlib.Data.Fin.VecNotation

namespace ParleVision.Runtime
open Lib

variable {E P C : Type} {net : Network E P C} {first : Nat} {stale : E → Nat → Nat}

/-- The counter of the frames stays in the range of an unsigned int. -/
def NotWrapping (s : PipelineState E P C) : Event E P C → Prop
  | .schedule .. => s.phase = .producing [] → s.m_serial + 1 < 2 ^ 32
  | .work .. => True

/-- An item is announced to an element without synchronous pins when it is later than all that was
announced to it at its other pins. -/
def ArrivesInOrder (net : Network E P C) (s : PipelineState E P C) : Event E P C → Prop
  | .schedule .. => True
  | .work e _ => ∀ c, (s.worker e).announcing = some c →
      net.m_hasSynchronousPin (net.target c) = false → InOrder net s.flow c

theorem unsigned_of_lt {x : Nat} (h : x < 2 ^ 32) : unsigned x = x := Nat.mod_eq_of_lt h

variable [DecidableEq E] [DecidableEq C]

/-- The next step of a run calls `newData` or `PipelineProducer::__process`, and the assertion in it
fails. -/
def PipelineState.AssertionFails (net : Network E P C) (s : PipelineState E P C) (e : E) : Prop :=
  (∃ c, (s.worker e).announcing = some c ∧ s.flow.newData net c = none) ∨
  ∃ serial, s.worker e = .entered serial ∧ net.isProducer e = true ∧ ¬ s.flow.Later e serial

theorem newData_eq_none_iff (f : Flow E C) (c : C) :
    f.newData net c = none ↔ net.isSynchronous c = true ∧
      ¬ f.Later (net.target c) (f.processingSerial (net.source c)) := by
  unfold Flow.newData
  dsimp only
  constructor
  · intro h
    split at h
    · split at h
      case isTrue hsync =>
        split at h
        · split at h
          all_goals cases h
        case isFalse hlater => exact ⟨hsync, hlater⟩
      · cases h
    · cases h
  · rintro ⟨hsync, hlater⟩
    rw [if_pos ((net.m_hasSynchronousPin_iff _).mpr ⟨c, rfl, hsync⟩), if_pos hsync]
    exact if_neg hlater

variable {s s' : PipelineState E P C} {e : E}

omit [DecidableEq C] in
theorem Turn.m_serial (h : Turn net s s') :
    s'.m_serial = s.m_serial ∨ s.phase = .producing [] ∧ s'.m_serial = s.m_serial + 1 := by
  cases h with
  | moves => exact .inl rfl
  | reaps => exact .inl rfl
  | dispatches _ _ _ _ hf =>
    left
    rw [hf]
    rfl
  | produces _ _ _ hf =>
    left
    rw [hf]
    rfl
  | ticks hphase => exact .inr ⟨hphase, rfl⟩

theorem Works.m_serial {action : Action P C} {w' : Worker P C}
    (h : Works net s e action s' w') : s'.m_serial = s.m_serial := by
  have hrun := h.run
  generalize s'.flow = f' at hrun
  cases hrun with
  | quiet => rfl
  | begins => rfl
  | pushes => rfl
  | announces _ hnew => exact (newData_announces hnew).m_serial
  | takes _ hget =>
    obtain ⟨queue, -, rfl⟩ := get_some hget
    rfl

omit [DecidableEq E] [DecidableEq C] in
/-- A run puts on the connections of its own element. -/
theorem Worker.announcing_source {w : Worker P C} {c : C} (hw : w.Shaped net e)
    (hc : w.announcing = some c) : net.source c = e := by
  cases w with
  | putting calls todo pushed =>
    cases pushed with
    | true => exact (hw.2 c (List.mem_of_mem_head? hc)).1
    | false => cases hc
  | posting todo pushed result =>
    cases pushed with
    | true => exact (hw.2 c (List.mem_of_mem_head? hc)).1
    | false => cases hc
  | _ => cases hc

omit [DecidableEq E] in
theorem Accounted.runs_announced (ha : Accounted net s) (e : E) :
    (s.runs e).Sublist (s.flow.announced e) := by
  rw [Flow.announced, ← (ha.element e).dispatched, List.append_assoc]
  exact List.sublist_append_left ..

omit [DecidableEq E] in
theorem Accounted.notified_announced (ha : Accounted net s) (c : C) :
    (s.notified c).Sublist (s.flow.announced (net.source c)) := by
  have hput : (s.notified c).Sublist (s.put c) := by
    rw [(ha.element (net.source c)).notified c rfl]
    exact List.sublist_append_left ..
  exact (hput.trans ((ha.element _).put c rfl)).trans (ha.runs_announced _)

omit [DecidableEq E] in
/-- The serial an element works with is of one of its runs, unless there was none. -/
theorem Accounted.processing_mem (ha : Accounted net s) (e : E) :
    s.processingSerial e = 0 ∨ s.processingSerial e ∈ s.runs e := by
  rw [(ha.element e).processing]
  obtain hnil | hne := List.eq_nil_or_concat (s.runs e)
  · left
    rw [hnil]
    rfl
  · obtain ⟨l, x, hx⟩ := hne
    right
    rw [hx, List.concat_eq_append, getLastD_append]
    exact List.mem_append_right _ (List.mem_singleton_self x)

omit [DecidableEq E] in
/-- The item that is announced next is later than the serial its receiver works with. -/
theorem Serials.processing_lt {c : C} (h : Serials net first stale s) (ha : Accounted net s)
    (hsync : net.isSynchronous c = true)
    (hc : (s.worker (net.source c)).announcing = some c) :
    s.processingSerial (net.target c) = 0 ∨
      s.processingSerial (net.target c) ∈ s.runs (net.target c) ∧
        s.processingSerial (net.target c) < s.processingSerial (net.source c) := by
  refine (ha.processing_mem (net.target c)).imp_right fun hmem => ⟨hmem, ?_⟩
  have hhas := (net.m_hasSynchronousPin_iff _).mpr ⟨c, rfl, hsync⟩
  have hin := (net.mem_syncInputs _ c).mpr ⟨rfl, hsync⟩
  have hannounced := (ha.runs_announced _).subset hmem
  exact (h.announcing ha rfl hc).2 _ ((h.complete _ hhas _).mp hannounced c hin)

omit [DecidableEq E] in
/-- The serial a run is entered with is later than that of the run before. -/
theorem Serials.processing_lt_entered {x : Nat} (h : Serials net first stale s)
    (ha : Accounted net s) (hw : s.worker e = .entered x) :
    x ∈ s.dispatched e ∧ (s.processingSerial e = 0 ∨ s.processingSerial e < x) := by
  have hd := (ha.element e).dispatched
  rw [hw] at hd
  change s.runs e ++ [x] = s.dispatched e at hd
  have hord : (s.runs e ++ [x]).Pairwise (· < ·) := by
    refine (h.ordered e).sublist ?_
    rw [hd]
    exact List.sublist_append_left ..
  constructor
  · rw [← hd]
    exact List.mem_append_right _ (List.mem_singleton_self x)
  · refine (ha.processing_mem e).imp_right fun hmem => ?_
    exact (List.pairwise_append.mp hord).2.2 _ hmem x (List.mem_singleton_self x)

omit [DecidableEq E] in
theorem Serials.distinct {c : C} (h : Serials net first stale s) (ha : Accounted net s)
    (hserial : s.m_serial < 2 ^ 32) (hstale : ∀ e x, first ≤ x → stale e x = 0)
    (hc : (s.worker (net.source c)).announcing = some c) : Distinct net stale s.flow c := by
  have hvalue {e : E} {x : Nat} (hx : x ∈ s.flow.announced e) : first ≤ x ∧ unsigned x = x := by
    obtain ⟨hfirst, hlast⟩ := h.range e x hx
    exact ⟨hfirst, unsigned_of_lt (Nat.lt_of_le_of_lt hlast hserial)⟩
  obtain ⟨hfirst, hx⟩ := hvalue (h.announcing ha rfl hc).1
  constructor
  case fresh =>
    rw [hx]
    exact hstale _ _ hfirst
  case other =>
    intro c' _ y hy _ heq
    rw [hx, (hvalue ((ha.notified_announced c').subset hy)).2] at heq
    exact heq

structure Unwrapped (net : Network E P C) (first : Nat) (stale : E → Nat → Nat)
    (s : PipelineState E P C) : Prop where
  accounted : Accounted net s
  serials : Serials net first stale s
  serial_lt : s.m_serial < 2 ^ 32

omit [DecidableEq E] in
theorem started_unwrapped (hfirst : first < 2 ^ 32) :
    Unwrapped net first stale (.started first stale) :=
  ⟨started_accounted first stale, started_serials first stale, hfirst⟩

omit [DecidableEq E] in
/-- As unsigned ints the serials increase as well. -/
theorem Unwrapped.increasing {l : List Nat} (h : Unwrapped net first stale s)
    (hl : l.Sublist (s.flow.announced e)) : (l.map unsigned).Pairwise (· < ·) := by
  have hvalue : l.map unsigned = l := by
    conv_rhs => rw [← List.map_id l]
    apply List.map_congr_left
    intro x hx
    have hrange := h.serials.range e x (hl.subset hx)
    exact unsigned_of_lt (Nat.lt_of_le_of_lt hrange.2 h.serial_lt)
  rw [hvalue]
  exact (h.serials.ordered e).sublist hl

theorem Unwrapped.not_assertionFails (h : Unwrapped net first stale s) (e : E) :
    ¬ s.AssertionFails net e := by
  have hlater {e : E} {x : Nat} (hx : x < 2 ^ 32)
      (hlt : s.processingSerial e = 0 ∨ s.processingSerial e < x) : s.flow.Later e x := by
    rw [Flow.Later, unsigned_of_lt hx]
    obtain hzero | hlt := hlt
    · rw [hzero]
      exact (Nat.eq_zero_or_pos x).symm
    · left
      rw [unsigned_of_lt (Nat.lt_trans hlt hx)]
      exact hlt
  rintro (⟨c, hc, hnone⟩ | ⟨x, hw, -, hnot⟩)
  · obtain ⟨hsync, hnot⟩ := (newData_eq_none_iff _ c).mp hnone
    have hsource := Worker.announcing_source (h.accounted.shaped e) hc
    subst e
    have hrange := h.serials.range _ _ (h.serials.announcing h.accounted rfl hc).1
    refine hnot (hlater (Nat.lt_of_le_of_lt hrange.2 h.serial_lt) ?_)
    exact (h.serials.processing_lt h.accounted hsync hc).imp_right And.right
  · obtain ⟨hmem, hlt⟩ := h.serials.processing_lt_entered h.accounted hw
    have hrange := h.serials.range e x (List.mem_append_left _ hmem)
    exact hnot (hlater (Nat.lt_of_le_of_lt hrange.2 h.serial_lt) hlt)

variable [DecidableEq P]

theorem Unwrapped.step {event : Event E P C} (h : Unwrapped net first stale s)
    (hstale : ∀ e x, first ≤ x → stale e x = 0) (hwrap : NotWrapping s event)
    (harrives : ArrivesInOrder net s event) (hs : s.step net event = some s') :
    Unwrapped net first stale s' := by
  have haccounted := h.accounted.step hs
  cases event with
  | schedule order answer =>
    have ht : Turn net s s' := schedule_cases hs
    refine ⟨haccounted, h.serials.turn h.accounted.producing ht, ?_⟩
    obtain hserial | ⟨hphase, hserial⟩ := ht.m_serial
    · rw [hserial]
      exact h.serial_lt
    · rw [hserial]
      exact hwrap hphase
  | work e action =>
    obtain ⟨w', hw⟩ := work_cases (h.accounted.shaped e) hs
    refine ⟨haccounted, ?_, by rw [hw.m_serial]; exact h.serial_lt⟩
    apply h.serials.works h.accounted hw
    · intro c hc _
      have hsource := Worker.announcing_source (h.accounted.shaped e) hc
      subst e
      exact h.serials.distinct h.accounted h.serial_lt hstale hc
    · exact harrives

/-- As long as the items arrive in order at the elements without synchronous pins, each element is
run with serials that increase, and the assertions hold. The scoreboards may hold entries of an
earlier session, which are of earlier serials. -/
theorem serial_monotonicity (hfirst : first < 2 ^ 32) (hstale : ∀ e x, first ≤ x → stale e x = 0)
    (h : Reaches (PipelineState.step net)
      (fun s event => NotWrapping s event ∧ ArrivesInOrder net s event) (.started first stale) s) :
    (∀ e, ((s.runs e).map unsigned).Pairwise (· < ·)) ∧ ∀ e, ¬ s.AssertionFails net e := by
  have hinv : Unwrapped net first stale s := by
    refine h.invariant (started_unwrapped hfirst) ?_
    intro s event s' hi hallowed hs
    exact hi.step hstale hallowed.1 hallowed.2 hs
  refine ⟨?_, hinv.not_assertionFails⟩
  intro e
  exact hinv.increasing (hinv.accounted.runs_announced e)

instance [Fintype C] (f : Flow E C) (c : C) : Decidable (InOrder net f c) :=
  inferInstanceAs (Decidable (∀ c', _ → _ → ∀ x ∈ f.notified c', x < _))

instance (s : PipelineState E P C) (event : Event E P C) : Decidable (NotWrapping s event) :=
  match event with
  | .schedule .. => inferInstanceAs (Decidable (_ → _))
  | .work .. => .isTrue trivial

instance [Fintype C] (s : PipelineState E P C) (event : Event E P C) :
    Decidable (ArrivesInOrder net s event) :=
  match event with
  | .schedule .. => .isTrue trivial
  | .work e _ => inferInstanceAs (Decidable (∀ c, (s.worker e).announcing = some c → _ → _))

scoped instance neZero_two : NeZero 2 := ⟨by decide⟩

scoped instance neZero_three : NeZero 3 := ⟨by decide⟩

theorem mem_two : ∀ i : Fin 2, i ∈ [0, 1] := by decide

theorem mem_singles : ∀ p c : Fin 2,
    c ∈ (![[0], [1]] : Fin 2 → List (Fin 2)) p ↔ (![0, 1] : Fin 2 → Fin 2) c = p := by decide

theorem singles_nodup : ∀ p : Fin 2, ((![[0], [1]] : Fin 2 → List (Fin 2)) p).Nodup := by decide

/-- A producer, a processor and a viewer in a row. The processor gets its items on a pin that is
synchronous or not. -/
def chain (isSynchronous : Bool) : Network (Fin 3) (Fin 2) (Fin 2) where
  children := [0, 1, 2]
  isProducer e := e == 0
  outputPins := ![[0], [1], []]
  outputs := ![[0], [1]]
  inputs := ![[], [0], [1]]
  connections := [0, 1]
  owner := ![0, 1]
  fromPin := ![0, 1]
  target := ![1, 2]
  isSynchronous := ![isSynchronous, true]
  isDataGuaranteed := ![isSynchronous, true]
  mem_children := by decide
  mem_connections := mem_two
  mem_outputPins := by decide
  mem_outputs := mem_singles
  mem_inputs := by decide
  children_nodup := by decide
  outputPins_nodup := by decide
  outputs_nodup := singles_nodup
  inputs_nodup := by decide
  producer_inputs := by decide

def chainFrame : List (Event (Fin 3) (Fin 2) (Fin 2)) :=
  List.flatten [[.schedule [] true], List.replicate 12 (.schedule [0, 1, 2] true),
    List.replicate 2 (.work 0 (.returns true)), [.work 0 (.put 0)],
    List.replicate 7 (.work 0 (.returns true)), [.schedule [0] false],
    List.replicate 11 (.schedule [0, 1, 2] false), List.replicate 4 (.work 1 (.returns true)),
    [.work 1 (.get 0), .work 1 (.put 1)], List.replicate 7 (.work 1 (.returns true)),
    [.schedule [1] false], List.replicate 11 (.schedule [0, 1, 2] false),
    List.replicate 4 (.work 2 (.returns true)), [.work 2 (.get 1)],
    List.replicate 4 (.work 2 (.returns true))]

/-- With one asynchronous pin the items arrive in order. -/
theorem serial_monotonicity_chain :
    ∃ s : PipelineState (Fin 3) (Fin 2) (Fin 2), s.runs 2 = [1] ∧
      (∀ e, ((s.runs e).map unsigned).Pairwise (· < ·)) ∧
      ∀ e, ¬ s.AssertionFails (chain false) e := by
  have hend : (run (guarded (PipelineState.step (chain false))
      fun s event => NotWrapping s event ∧ ArrivesInOrder (chain false) s event)
      (.started 1 fun _ _ => 0) chainFrame).map (·.runs 2) = some [1] := by decide +kernel
  obtain ⟨s, hs, hruns⟩ := Option.map_eq_some_iff.mp hend
  exact ⟨s, hruns, serial_monotonicity (by decide) (fun _ _ _ => rfl) (.of_guarded_run hs)⟩

def Worker.TakenEach (net : Network E P C) (f : Flow E C) (e : E) : Worker P C → Prop
  | .processing calls => ∀ c ∈ net.inputs e, c ∈ calls.got ∨ f.m_queue c = []
  | _ => True

/-- A `process()` takes an item from every pin that has one. -/
def TakesEach (net : Network E P C) (s : PipelineState E P C) : Event E P C → Prop
  | .work e (.returns _) => (s.worker e).TakenEach net s.flow e
  | _ => True

instance (f : Flow E C) (e : E) (w : Worker P C) : Decidable (w.TakenEach net f e) :=
  match w with
  | .processing calls =>
    inferInstanceAs (Decidable (∀ c ∈ net.inputs e, c ∈ calls.got ∨ f.m_queue c = []))
  | .idle | .dispatched .. | .entered .. | .peeking .. | .flushing .. | .putting .. | .posting ..
  | .ending .. | .notError .. | .thrown | .leaving | .finished .. => .isTrue trivial

instance (s : PipelineState E P C) (event : Event E P C) : Decidable (TakesEach net s event) :=
  match event with
  | .work e (.returns _) => inferInstanceAs (Decidable ((s.worker e).TakenEach net s.flow e))
  | .schedule .. | .work _ (.get _) | .work _ (.clear _) | .work _ (.put _) | .work _ .setError
  | .work _ .throws => .isTrue trivial

/-- A producer with one output pin, on which both the pins of a processor are that are
asynchronous, and the output of that one goes to a synchronous pin. -/
def twoPins : Network (Fin 3) (Fin 2) (Fin 3) where
  children := [0, 1, 2]
  isProducer e := e == 0
  outputPins := ![[0], [1], []]
  outputs := ![[0, 1], [2]]
  inputs := ![[], [0, 1], [2]]
  connections := [0, 1, 2]
  owner := ![0, 1]
  fromPin := ![0, 0, 1]
  target := ![1, 1, 2]
  isSynchronous := ![false, false, true]
  isDataGuaranteed := ![false, false, true]
  mem_children := by decide
  mem_connections := by decide
  mem_outputPins := by decide
  mem_outputs := by decide
  mem_inputs := by decide
  children_nodup := by decide
  outputPins_nodup := by decide
  outputs_nodup := by decide
  inputs_nodup := by decide
  producer_inputs := by decide

/-- A frame, with which the processor is run once for each of its pins. -/
def twoPinsFrame : List (Event (Fin 3) (Fin 2) (Fin 3)) :=
  List.flatten [[.schedule [] true], List.replicate 13 (.schedule [0, 1, 2] true),
    List.replicate 2 (.work 0 (.returns true)), [.work 0 (.put 0)],
    List.replicate 9 (.work 0 (.returns true)), [.schedule [0] false],
    List.replicate 12 (.schedule [0, 1, 2] false), List.replicate 5 (.work 1 (.returns true)),
    [.work 1 (.get 0), .work 1 (.get 1), .work 1 (.put 1)],
    List.replicate 7 (.work 1 (.returns true)), [.schedule [1] false],
    List.replicate 5 (.schedule [0, 1, 2] false), List.replicate 2 (.work 2 (.returns true)),
    List.replicate 5 (.work 1 (.returns true)), [.work 1 (.put 1), .work 1 (.returns true)]]

/-- The processor is run twice with the serial of the frame, and announces it twice. -/
theorem serial_monotonicity_fails :
    twoPins.Acyclic ∧ ∃ s, Reaches (PipelineState.step twoPins)
        (fun s event => NotWrapping s event ∧ TakesEach twoPins s event)
        (.started 1 fun _ _ => 0) s ∧
      s.runs 1 = [1, 1] ∧ s.AssertionFails twoPins 1 := by
  have hend : (run (guarded (PipelineState.step twoPins)
      fun s event => NotWrapping s event ∧ TakesEach twoPins s event)
      (.started 1 fun _ _ => 0) twoPinsFrame).map
        (fun s => (s.runs 1, (s.worker 1).announcing, (s.flow.newData twoPins 2).isNone)) =
      some ([1, 1], some 2, true) := by decide +kernel
  obtain ⟨s, hs, hview⟩ := Option.map_eq_some_iff.mp hend
  obtain ⟨hruns, hannouncing, hnone⟩ := by simpa only [Prod.mk.injEq] using hview
  have hfails : s.AssertionFails twoPins 1 :=
    .inl ⟨2, hannouncing, Option.isNone_iff_eq_none.mp hnone⟩
  exact ⟨twoPins.acyclic_of_rank Fin.val (by decide), s, .of_guarded_run hs, hruns, hfails⟩

end ParleVision.Runtime
