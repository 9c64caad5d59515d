import ParleVision.Runtime.Draining
import ParleVision.Runtime.Deadlock

namespace ParleVision.Runtime
open Lib

variable {E P C : Type} {s s' : PipelineState E P C} {e : E}

/-- It is up to `schedule` that something becomes of the element. -/
def Due (s : PipelineState E P C) (e : E) : Prop :=
  (∃ b, s.worker e = .finished b) ∨ s.worker e = .idle ∧ s.m_readyQueue e ≠ []

/-- What the loops of `schedule` have still to do includes it. -/
def Comes (s : PipelineState E P C) (e : E) : Phase E C → Prop
  | .reaping todo => s.worker e = .idle ∨ e ∈ todo
  | .dispatching todo => s.worker e = .idle ∧ e ∈ todo
  | .stopping => True
  | _ => False

theorem Same.due (h : Same s s') : Due s' e ↔ Due s e := by
  unfold Due
  rw [h.worker, h.ready]

theorem Same.comes (h : Same s s') (phase : Phase E C) : Comes s' e phase ↔ Comes s e phase := by
  unfold Comes
  rw [h.worker]

variable {net : Network E P C} [DecidableEq E] [DecidableEq P] [DecidableEq C]

/-- A while in which no frame is produced: the thread of the pipeline goes through `schedule` at
least once, and as long as there are runs going on, one of them gets on. -/
structure Round (net : Network E P C) (allowed : PipelineState E P C → Event E P C → Prop)
    (s s' : PipelineState E P C) (es : List (Event E P C)) : Prop where
  path : Path (PipelineState.step net) (fun s event => NotProducing s ∧ allowed s event) s es s'
  before : s.phase = .idle
  after : s'.phase = .idle
  turns : ∃ order answer, .schedule order answer ∈ es
  getsOn : (∃ e, (s.worker e).Busy ∧ ∀ b, s.worker e ≠ .finished b) →
    ∃ event ∈ es, event.getsOn = true

omit [DecidableEq P] in
/-- As long as nothing becomes of it, it stays to be done. -/
theorem schedule_comes {order : List E} {answer : Bool}
    (h : s.schedule net order answer = some s') (hsame : Same s s') (hr : Running net s)
    (hdue : Due s e) (hcomes : s.phase = .idle ∨ Comes s e s.phase) : Comes s e s'.phase := by
  unfold PipelineState.schedule at h
  cases hphase : s.phase with
  | idle =>
    simp only [hphase] at h
    split at h
    case isTrue horder =>
      cases h
      rcases hdue with ⟨b, hb⟩ | ⟨hidle, -⟩
      · have hmem : e ∈ s.m_runQueue := (hr.queued e).mpr (by rw [hb]; trivial)
        exact .inr (horder.mem_iff.mpr hmem)
      · exact .inl hidle
    · cases h
  | reaping todo =>
    have hcomes' : s.worker e = .idle ∨ e ∈ todo := by simpa [hphase, Comes] using hcomes
    cases todo with
    | nil =>
      simp only [hphase] at h
      split at h
      case isTrue horder =>
        cases h
        exact ⟨hcomes'.resolve_right List.not_mem_nil, horder.mem_iff.mpr (net.mem_children e)⟩
      · cases h
    | cons x todo =>
      simp only [hphase] at h
      split at h
      case h_1 hfinished =>
        -- it is taken from the run queue
        cases h
        have hworker := congrFun hsame.worker x
        change Function.update s.worker x .idle x = _ at hworker
        rw [Function.update_self, hfinished] at hworker
        cases hworker
      case h_2 =>
        cases h
        trivial
      case h_3 hnot hnot' =>
        cases h
        rcases hcomes' with hidle | hmem
        · exact .inl hidle
        · rcases List.mem_cons.mp hmem with rfl | hmem
          · rcases hdue with ⟨b, hb⟩ | ⟨hidle, -⟩
            · cases b with
              | true => exact (hnot hb).elim
              | false => exact (hnot' hb).elim
            · exact .inl hidle
          · exact .inr hmem
  | dispatching todo =>
    obtain ⟨hidle, hmem⟩ : s.worker e = .idle ∧ e ∈ todo := by simpa [hphase, Comes] using hcomes
    cases todo with
    | nil => cases hmem
    | cons x todo =>
      simp only [hphase] at h
      rcases List.mem_cons.mp hmem with rfl | hmem
      · -- its turn has come
        have hready : s.m_readyQueue e ≠ [] := by
          rcases hdue with ⟨b, hb⟩ | ⟨-, hready⟩
          · rw [hidle] at hb
            cases hb
          · exact hready
        have hnot : e ∉ s.m_runQueue := fun hin => by
          have hbusy := (hr.queued e).mp hin
          rw [hidle] at hbusy
          exact hbusy
        split at h
        case h_1 hnil => exact (hready hnil).elim
        case h_2 serial queue hcons =>
          rw [if_neg hnot] at h
          unfold PipelineState.dispatch at h
          split at h
          · cases h
            have hworker := congrFun hsame.worker e
            change Function.update s.worker e (.dispatched serial) e = _ at hworker
            rw [Function.update_self, hidle] at hworker
            cases hworker
          · cases h
      · split at h
        · cases h
          exact ⟨hidle, hmem⟩
        · split at h
          · cases h
            exact ⟨hidle, hmem⟩
          · unfold PipelineState.dispatch at h
            split at h
            · cases h
              exact ⟨hidle, hmem⟩
            · cases h
  | measuring => simp [hphase, Comes] at hcomes
  | asking => simp [hphase, Comes] at hcomes
  | producing => simp [hphase, Comes] at hcomes
  | stopping => simp [hphase] at h

omit [DecidableEq E] in
theorem exists_todo {cost : E → Nat} (h : potential net cost s ≠ 0) :
    ∃ e, (s.worker e).Busy ∨ s.m_readyQueue e ≠ [] := by
  by_contra hnone
  push Not at hnone
  apply h
  unfold potential
  rw [Nat.add_eq_zero_iff, List.sum_eq_zero_iff, List.sum_eq_zero_iff]
  refine ⟨fun n hn => ?_, fun n hn => ?_⟩
  · obtain ⟨e, -, rfl⟩ := List.mem_map.mp hn
    rw [(hnone e).2, List.length_nil, Nat.zero_mul]
  · obtain ⟨e, -, rfl⟩ := List.mem_map.mp hn
    rw [Worker.not_busy (hnone e).1, remaining_idle]

/-- What has become of the runs in the first part of a round. -/
structure Idles (s s' : PipelineState E P C) (es : List (Event E P C)) : Prop where
  same : Same s s'
  none : ∀ event ∈ es, event.getsOn = false
  comes : (s'.phase = .idle ∧ ∀ order answer, .schedule order answer ∉ es) ∨
    ∀ e, Due s e → Comes s e s'.phase

/-- A round leaves less to do, as long as there is something to do. -/
theorem Round.potential_le {allowed : PipelineState E P C → Event E P C → Prop}
    {es : List (Event E P C)} {cost : E → Nat} (h : Round net allowed s s' es)
    (hr : Running net s) (hcosts : Costs net cost) :
    potential net cost s' ≤ potential net cost s - 1 := by
  have hboth := h.path.induction_on (I := Running net)
    (J := fun es u => potential net cost u < potential net cost s ∨ Idles s u es) hr
    (.inr ⟨⟨rfl, rfl, rfl⟩, by simp, .inl ⟨h.before, by simp⟩⟩)
    (fun es u event u' hru hj hallowed hs => by
      refine ⟨hru.step hs, ?_⟩
      obtain hlt | ⟨hsame, hgets⟩ := step_potential hru.accounted hcosts hallowed.1 hs
      · left
        rcases hj with hj | hj
        · exact Nat.lt_trans hlt hj
        · rwa [hj.same.potential] at hlt
      · rcases hj with hj | hj
        · rw [← hsame.potential] at hj
          exact .inl hj
        · right
          have hsame' : Same s u' := ⟨hsame.worker.trans hj.same.worker,
            hsame.ready.trans hj.same.ready, hsame.runQueue.trans hj.same.runQueue⟩
          refine ⟨hsame', ?_, ?_⟩
          · intro event' hin
            rcases List.mem_append.mp hin with hin | hin
            · exact hj.none _ hin
            · rw [List.mem_singleton.mp hin]
              exact hgets
          · cases event with
            | schedule order answer =>
              right
              intro e hdue
              rw [← hj.same.comes]
              refine schedule_comes hs hsame hru (hj.same.due.mpr hdue) ?_
              rw [hj.same.comes]
              exact hj.comes.imp And.left fun hcomes => hcomes e hdue
            | work e action =>
              obtain ⟨_, hw⟩ := work_cases (hru.accounted.shaped e) hs
              rw [hw.phase]
              refine hj.comes.imp_left fun hcomes => ⟨hcomes.1, fun order answer hin => ?_⟩
              rcases List.mem_append.mp hin with hin | hin
              · exact hcomes.2 _ _ hin
              · cases List.mem_singleton.mp hin)
  rcases hboth.2 with hlt | hidles
  · omega
  · suffices hzero : potential net cost s = 0 by
      rw [hidles.same.potential, hzero]
    by_contra hpos
    obtain ⟨e, he⟩ := exists_todo hpos
    obtain ⟨order, answer, hturn⟩ := h.turns
    have hcomes := hidles.comes.resolve_left fun hnone => hnone.2 _ _ hturn
    rw [h.after] at hcomes
    by_cases hbusy : (s.worker e).Busy
    · by_cases hfinished : ∃ b, s.worker e = .finished b
      · exact hcomes e (.inl hfinished)
      · obtain ⟨event, hin, hgets⟩ := h.getsOn ⟨e, hbusy, fun b hb => hfinished ⟨b, hb⟩⟩
        rw [hidles.none event hin] at hgets
        cases hgets
    · exact hcomes e (.inr ⟨Worker.not_busy hbusy, he.resolve_left hbusy⟩)

section
omit [DecidableEq E]

theorem remaining_pos (weight : C → Nat) {w : Worker P C} (h : w.remaining net weight e = 0) :
    w = .idle := by
  cases w with
  | idle => rfl
  | processing calls =>
    simp only [Worker.remaining, processWork] at h
    omega
  | _ =>
    simp only [Worker.remaining] at h
    omega

theorem rest_of_potential {cost : E → Nat} (hcosts : Costs net cost)
    (h : potential net cost s = 0) (hphase : s.phase = .idle) : s.AtRest := by
  unfold potential at h
  obtain ⟨hready, hworkers⟩ := Nat.add_eq_zero_iff.mp h
  rw [List.sum_eq_zero_iff] at hready hworkers
  refine ⟨hphase, fun e => ?_, fun e => ?_⟩
  · exact remaining_pos _ (hworkers _ (List.mem_map_of_mem (net.mem_children e)))
  · have hzero := hready _ (List.mem_map_of_mem (net.mem_children e))
    rcases Nat.mul_eq_zero.mp hzero with hlength | hcost
    · exact List.length_eq_zero_iff.mp hlength
    · have := hcosts e
      omega

end

variable {first : Nat} {stale : E → Nat → Nat}

theorem eq_range'_of_mem_iff {l : List Nat} {n : Nat} (hl : l = List.range' first l.length)
    (hmem : ∀ x, x ∈ l ↔ x ∈ List.range' first n) : l = List.range' first n := by
  have hlength : l.length = n := by
    have hin (x : Nat) : first ≤ x ∧ x < first + l.length ↔ first ≤ x ∧ x < first + n := by
      have := hmem x
      rw [hl, List.mem_range'_1, List.mem_range'_1] at this
      simpa using this
    have hlast := hin (first + l.length)
    have hlast' := hin (first + n)
    omega
  rw [hl, hlength]

omit [DecidableEq E] [DecidableEq P] in
/-- What the pipeline has done when it is at rest: all of every frame. -/
theorem InStep.rest_announced (h : InStep net first stale s) (hacyclic : net.Acyclic)
    (hpins : ∀ e, net.isProducer e = false → net.m_hasSynchronousPin e = true) (hr : s.AtRest)
    (e : E) : s.flow.announced e = List.range' first (s.m_serial - first) := by
  have ha := h.unwrapped.accounted
  have hserials := h.unwrapped.serials
  induction e using hacyclic.induction with
  | hstep e ih =>
    cases hp : net.isProducer e with
    | true =>
      have hproduced : ¬ s.produced e := not_produced (by simp [hr.phase])
      rw [Flow.announced, hr.ready, h.framed.before e hp hproduced, List.append_nil]
    | false =>
      have hhas := hpins e hp
      refine eq_range'_of_mem_iff (hserials.consecutive ha h.framed hacyclic
        (fun c => hpins _ (net.target_not_producer c)) e) fun x => ?_
      rw [hserials.complete e hhas]
      have hnotified (c : C) (hc : c ∈ net.syncInputs e) :
          s.notified c = List.range' first (s.m_serial - first) := by
        obtain ⟨htarget, hsync⟩ := (net.mem_syncInputs e c).mp hc
        rw [ha.rest_notified hr hsync]
        exact ih c htarget
      constructor
      · intro hall
        obtain ⟨c, hc⟩ := net.exists_syncInput hhas
        exact hnotified c hc ▸ hall c hc
      · exact fun hx c hc => (hnotified c hc).symm ▸ hx

/-- A pipeline that is at rest and has run every frame in every element. -/
structure AllDone (net : Network E P C) (first : Nat) (s : PipelineState E P C) : Prop where
  rest : s.AtRest
  /-- each element was run once for each frame, in their order -/
  runs : ∀ e, s.runs e = List.range' first (s.m_serial - first)
  /-- an item of each frame has come over each synchronous connection, and was taken -/
  taken : ∀ c, net.isSynchronous c = true → s.taken c = List.range' first (s.m_serial - first)
  queues : ∀ c, net.isSynchronous c = true → s.m_queue c = []

omit [DecidableEq E] [DecidableEq P] in
theorem InStep.allDone (h : InStep net first stale s) (hacyclic : net.Acyclic)
    (hpins : ∀ e, net.isProducer e = false → net.m_hasSynchronousPin e = true) (hr : s.AtRest) :
    AllDone net first s := by
  have ha := h.unwrapped.accounted
  have hruns (e : E) : s.runs e = List.range' first (s.m_serial - first) := by
    rw [ha.rest_runs hr]
    exact h.rest_announced hacyclic hpins hr e
  have hqueue (c : C) (hsync : net.isSynchronous c = true) : s.m_queue c = [] := by
    have htaken := (h.taken (net.target c)).after (by rw [hr.idle]; exact id) c
      ((net.mem_syncInputs _ c).mpr ⟨rfl, hsync⟩) (by rw [hr.idle]; exact id)
    have hacc := ha.element (net.source c)
    rw [hr.idle] at hacc
    have hput := hacc.sync_put c rfl hsync id id
    have hqueued := congrArg List.length (ha.queued c)
    rw [hput, hruns, List.length_append, List.length_map] at hqueued
    rw [hruns] at htaken
    exact List.length_eq_zero_iff.mp (by omega)
  refine ⟨hr, hruns, fun c hsync => ?_, hqueue⟩
  have hacc := ha.element (net.source c)
  rw [hr.idle] at hacc
  have hqueued := ha.queued c
  rw [hqueue c hsync, hacc.sync_put c rfl hsync id id, hruns, List.map_nil,
    List.append_nil] at hqueued
  exact hqueued.symm

/-- A step of a session in which the serials do not wrap and each `process()` takes its items. -/
def Regular (net : Network E P C) (s : PipelineState E P C) (event : Event E P C) : Prop :=
  NotWrapping s event ∧ TakesSynchronous net s event

instance (s : PipelineState E P C) (event : Event E P C) : Decidable (Regular net s event) :=
  inferInstanceAs (Decidable (_ ∧ _))

structure Session (net : Network E P C) (first : Nat) (stale : E → Nat → Nat)
    (s : PipelineState E P C) : Prop where
  inStep : InStep net first stale s
  running : Running net s

theorem Session.step {event : Event E P C} (h : Session net first stale s)
    (hpins : ∀ e, net.isProducer e = false → net.m_hasSynchronousPin e = true)
    (hstale : ∀ e x, first ≤ x → stale e x = 0) (hregular : Regular net s event)
    (hs : s.step net event = some s') : Session net first stale s' :=
  ⟨h.inStep.step hpins hstale hregular.1 hregular.2 hs, h.running.step hs⟩

theorem reaches_session (hfirst : first < 2 ^ 32) (hstale : ∀ e x, first ≤ x → stale e x = 0)
    (hpins : ∀ e, net.isProducer e = false → net.m_hasSynchronousPin e = true)
    (h : Reaches (PipelineState.step net) (Regular net) (.started first stale) s) :
    Session net first stale s :=
  h.invariant ⟨started_inStep hfirst, started_running⟩
    fun _ _ _ hi hregular hs => hi.step hpins hstale hregular hs

/-- No frame is produced in a round. -/
theorem Round.session {es : List (Event E P C)} (h : Round net (Regular net) s s' es)
    (hpins : ∀ e, net.isProducer e = false → net.m_hasSynchronousPin e = true)
    (hstale : ∀ e x, first ≤ x → stale e x = 0) (hi : Session net first stale s) :
    Session net first stale s' ∧ s'.m_serial = s.m_serial := by
  refine h.path.invariant (I := fun u => Session net first stale u ∧ u.m_serial = s.m_serial)
    ⟨hi, rfl⟩ ?_
  rintro u event u' ⟨hi, hserial⟩ ⟨hquiet, hregular⟩ hs
  refine ⟨hi.step hpins hstale hregular hs, ?_⟩
  cases event with
  | schedule order answer =>
    have ht : Turn net u u' := schedule_cases hs
    rcases ht.m_serial with hsame | ⟨hphase, -⟩
    · rw [hsame, hserial]
    · exact (hquiet _ hphase).elim
  | work e action =>
    obtain ⟨_, hw⟩ := work_cases (hi.running.accounted.shaped e) hs
    rw [hw.m_serial, hserial]

/-- All has been done after enough rounds. -/
theorem Session.completes (h : Session net first stale s) (hacyclic : net.Acyclic)
    (hpins : ∀ e, net.isProducer e = false → net.m_hasSynchronousPin e = true)
    (hstale : ∀ e x, first ≤ x → stale e x = 0) :
    ∃ bound, ∀ n t, bound ≤ n →
      Repeats (fun s t => ∃ es, Round net (Regular net) s t es) s n t →
      AllDone net first t ∧ t.m_serial = s.m_serial := by
  obtain ⟨cost, hcosts⟩ := hacyclic.exists_costs
  refine ⟨potential net cost s + 1, fun n t hn hrounds => ?_⟩
  have hdone : Session net first stale t ∧ t.m_serial = s.m_serial := by
    refine hrounds.invariant (I := fun u => Session net first stale u ∧ u.m_serial = s.m_serial)
      ⟨h, rfl⟩ ?_
    rintro u u' ⟨hi, hserial⟩ ⟨es, hr⟩
    obtain ⟨hi', hserial'⟩ := hr.session hpins hstale hi
    exact ⟨hi', hserial'.trans hserial⟩
  refine ⟨hdone.1.inStep.allDone hacyclic hpins ?_, hdone.2⟩
  have hzero : potential net cost t = 0 := by
    refine hrounds.exhausts h ?_ (Nat.le_of_succ_le hn)
    rintro u u' hi ⟨es, hr⟩
    exact ⟨(hr.session hpins hstale hi).1, hr.potential_le hi.running hcosts⟩
  cases hrounds with
  | zero => omega
  | succ _ hr =>
    obtain ⟨es, hr⟩ := hr
    exact rest_of_potential hcosts hzero hr.after

/-- Every frame is run by every element: when no more are produced, all has been done after a
number of rounds, whatever the threads do in which order. -/
theorem frames_complete (hacyclic : net.Acyclic)
    (hpins : ∀ e, net.isProducer e = false → net.m_hasSynchronousPin e = true)
    (hfirst : first < 2 ^ 32) (hstale : ∀ e x, first ≤ x → stale e x = 0)
    (h : Reaches (PipelineState.step net) (Regular net) (.started first stale) s) :
    ∃ bound, ∀ n t, bound ≤ n →
      Repeats (fun s t => ∃ es, Round net (Regular net) s t es) s n t →
      AllDone net first t ∧ t.m_serial = s.m_serial :=
  (reaches_session hfirst hstale hpins h).completes hacyclic hpins hstale

section
variable {allowed : PipelineState E P C → Event E P C → Prop}

/-- The turns of a loop of `schedule` that finds nothing to do. -/
theorem path_turns {α β : Type} (phase : List α → β → Phase E C)
    (hallowed : ∀ todo b, NotProducing { s with phase := phase todo b } ∧
      allowed { s with phase := phase todo b } (.schedule [] false))
    (hturn : ∀ x todo b, ∃ b', PipelineState.step net { s with phase := phase (x :: todo) b }
      (.schedule [] false) = some { s with phase := phase todo b' }) (todo : List α) (b : β) :
    ∃ es b', Path (PipelineState.step net) (fun s event => NotProducing s ∧ allowed s event)
      { s with phase := phase todo b } es { s with phase := phase [] b' } := by
  induction todo generalizing b with
  | nil => exact ⟨[], b, .nil⟩
  | cons x todo ih =>
    obtain ⟨b', hb'⟩ := hturn x todo b
    obtain ⟨es, b'', hes⟩ := ih b'
    exact ⟨_, b'', .cons (.schedule [] false) (hallowed _ _) hb' hes⟩

/-- When nothing is left to do and no producer is ready, `schedule` can go on forever. -/
theorem rest_round (hr : s.AtRest) (hqueue : s.m_runQueue = []) (hp : net.producers ≠ [])
    (hallowed : ∀ phase order, (∀ todo, phase ≠ .producing todo) →
      allowed { s with phase := phase } (.schedule order false)) :
    ∃ es, Round net allowed s s es := by
  have hself : { s with phase := .idle } = s := by
    rw [← hr.phase]
  have hquiet (phase : Phase E C) (order : List E) (h : ∀ todo, phase ≠ .producing todo) :
      NotProducing { s with phase := phase } ∧
        allowed { s with phase := phase } (.schedule order false) := ⟨h, hallowed _ _ h⟩
  obtain ⟨dispatching, -, hdispatching⟩ := path_turns (s := s)
    (fun todo (_ : Unit) => .dispatching todo) (fun _ _ => hquiet _ _ (by simp))
    (fun e todo _ => ⟨(), by simp [PipelineState.step, PipelineState.schedule, hr.ready]⟩)
    net.children ()
  obtain ⟨measuring, max, hmeasuring⟩ := path_turns (s := s)
    (fun todo (max : Nat) => .measuring todo max) (fun _ _ => hquiet _ _ (by simp))
    (fun c todo max => ⟨_, rfl⟩) net.connections 0
  -- reaping finds nothing, and there is nothing to dispatch
  have hfirst : PipelineState.step net { s with phase := .reaping [] }
      (.schedule net.children false) = some { s with phase := .dispatching net.children } := by
    simp [PipelineState.step, PipelineState.schedule]
  have hbegin : PipelineState.step net { s with phase := .idle } (.schedule [] false) =
      some { s with phase := .reaping [] } := by
    simp [PipelineState.step, PipelineState.schedule, hqueue]
  have hpath := Path.cons (.schedule [] false) (hquiet .idle _ (by simp)) hbegin
    (.cons (.schedule net.children false) (hquiet _ _ (by simp)) hfirst
      (hdispatching.append (.cons (.schedule [] false) (hquiet _ _ (by simp)) rfl hmeasuring)))
  rw [hself] at hpath
  have hend : ∃ es, Path (PipelineState.step net) (fun s event => NotProducing s ∧ allowed s event)
      { s with phase := .measuring [] max } es { s with phase := .idle } := by
    by_cases hmax : max < 5
    · -- the first producer is asked and is not ready
      obtain ⟨e, producers, hproducers⟩ := List.exists_cons_of_ne_nil hp
      have hask : PipelineState.step net { s with phase := .measuring [] max }
          (.schedule [] false) = some { s with phase := .asking (e :: producers) true } := by
        simp [PipelineState.step, PipelineState.schedule, hmax, hproducers]
      have hnot : PipelineState.step net { s with phase := .asking (e :: producers) true }
          (.schedule [] false) = some { s with phase := .asking producers false } := by
        simp [PipelineState.step, PipelineState.schedule]
      obtain ⟨asking, -, hasking⟩ := path_turns (s := s)
        (fun todo (_ : Unit) => .asking todo false) (fun _ _ => hquiet _ _ (by simp))
        (fun e todo _ => ⟨(), rfl⟩) producers ()
      exact ⟨_, .cons (.schedule [] false) (hquiet _ _ (by simp)) hask
        (.cons (.schedule [] false) (hquiet _ _ (by simp)) hnot
          (hasking.concat (.schedule [] false) (hquiet _ _ (by simp)) rfl))⟩
    · have hlong : PipelineState.step net { s with phase := .measuring [] max }
          (.schedule [] false) = some { s with phase := .idle } := by
        simp [PipelineState.step, PipelineState.schedule, hmax]
      exact ⟨_, .cons (.schedule [] false) (hquiet _ _ (by simp)) hlong .nil⟩
  obtain ⟨last, hlast⟩ := hend
  have hall := hpath.append hlast
  rw [hself] at hall
  refine ⟨_, hall, hr.phase, hr.phase, ⟨[], false, by simp⟩, ?_⟩
  rintro ⟨e, hbusy, -⟩
  rw [hr.idle] at hbusy
  exact hbusy.elim

end

instance : Decidable (NotProducing s) :=
  match hphase : s.phase with
  | .producing todo => .isFalse fun h => h todo hphase
  | .idle | .reaping .. | .dispatching .. | .measuring .. | .asking .. | .stopping =>
    .isTrue fun todo h => by simp [hphase] at h

def Event.turns : Event E P C → Bool
  | .schedule .. => true
  | .work .. => false

section
variable {allowed : PipelineState E P C → Event E P C → Prop} [∀ s e, Decidable (allowed s e)]

/-- Steps that are a round, if the pipeline is idle after them. -/
def runRound (net : Network E P C) (allowed : PipelineState E P C → Event E P C → Prop)
    [∀ s e, Decidable (allowed s e)] (s : PipelineState E P C) (es : List (Event E P C)) :
    Option (PipelineState E P C) :=
  if s.phase = .idle ∧ es.any Event.turns ∧ es.any Event.getsOn then
    (run (guarded (PipelineState.step net) fun s event => NotProducing s ∧ allowed s event)
      s es).filter fun s' => s'.phase = .idle
  else none

theorem repeats_of_runRound {ess : List (List (Event E P C))}
    (h : run (runRound net allowed) s ess = some s') :
    Repeats (fun s s' => ∃ es, Round net allowed s s' es) s ess.length s' := by
  induction ess using List.reverseRecOn generalizing s' with
  | nil =>
    cases h
    exact .zero
  | append_singleton ess es ih =>
    rw [run_concat] at h
    obtain ⟨t, ht, hround⟩ := Option.bind_eq_some_iff.mp h
    unfold runRound at hround
    split at hround
    case isTrue hcheck =>
      obtain ⟨hidle, hturns, hgets⟩ := hcheck
      obtain ⟨hrun, hidle'⟩ := Option.filter_eq_some_iff.mp hround
      rw [List.length_append, List.length_singleton]
      refine .succ (ih ht) ⟨es, .of_guarded_run hrun, hidle, by simpa using hidle', ?_, fun _ => ?_⟩
      · obtain ⟨event, hin, hturn⟩ := List.any_eq_true.mp hturns
        cases event with
        | schedule order answer => exact ⟨order, answer, hin⟩
        | work => cases hturn
      · exact List.any_eq_true.mp hgets
    · cases hround

end

/-- The runs that a frame leads to in the row, each with the turns of `schedule` after it. -/
def chainRounds : List (List (Event (Fin 3) (Fin 2) (Fin 2))) :=
  [List.flatten [List.replicate 2 (.work 0 (.returns true)), [.work 0 (.put 0)],
      List.replicate 7 (.work 0 (.returns true)), [.schedule [0] false],
      List.replicate 11 (.schedule [0, 1, 2] false)],
    List.flatten [List.replicate 4 (.work 1 (.returns true)), [.work 1 (.get 0), .work 1 (.put 1)],
      List.replicate 7 (.work 1 (.returns true)), [.schedule [1] false],
      List.replicate 11 (.schedule [0, 1, 2] false)],
    List.flatten [List.replicate 4 (.work 2 (.returns true)), [.work 2 (.get 1)],
      List.replicate 4 (.work 2 (.returns true)), [.schedule [2] false],
      List.replicate 11 (.schedule [0, 1, 2] false)]]

def Worker.isIdle : Worker P C → Bool
  | .idle => true
  | _ => false

/-- A frame was produced, and the row works it off. -/
theorem frames_complete_chain : ∃ s t n, s.dispatched 0 = [1] ∧ s.runs 2 = [] ∧ t.runs 2 = [1] ∧
    Repeats (fun s t => ∃ es, Round (chain true) (Regular (chain true)) s t es) s n t ∧
    AllDone (chain true) 1 t := by
  have hend : ((run (guarded (PipelineState.step (chain true)) (Regular (chain true)))
      (.started 1 fun _ _ => 0) (chainFrame.take 13)).bind fun s =>
        (run (runRound (chain true) (Regular (chain true))) s chainRounds).map fun t =>
          (s.dispatched 0, s.runs 2, t.runs 2, t.m_runQueue,
            decide (t.phase = .idle ∧ ∀ e, (t.worker e).isIdle ∧ t.m_readyQueue e = []))) =
      some ([1], [], [1], [], true) := by decide +kernel
  obtain ⟨s, hs, hrest⟩ := Option.bind_eq_some_iff.mp hend
  obtain ⟨t, ht, hstate⟩ := Option.map_eq_some_iff.mp hrest
  simp only [Prod.mk.injEq, decide_eq_true_eq] at hstate
  obtain ⟨hdispatched, hruns, hruns', hqueue, hphase, hworkers⟩ := hstate
  have hr : t.AtRest := by
    refine ⟨hphase, fun e => ?_, fun e => (hworkers e).2⟩
    have hidle := (hworkers e).1
    cases hw : t.worker e <;> rw [hw] at hidle <;> first | rfl | cases hidle
  have hacyclic := (chain true).acyclic_of_rank Fin.val (by decide)
  obtain ⟨bound, hbound⟩ := frames_complete hacyclic (by decide) (by decide) (fun _ _ _ => rfl)
    (.of_guarded_run hs)
  have hrounds (n : Nat) :
      Repeats (fun s t => ∃ es, Round (chain true) (Regular (chain true)) s t es) t n t := by
    induction n with
    | zero => exact .zero
    | succ n ih =>
      refine .succ ih (rest_round hr hqueue (by decide) fun phase order hnot => ⟨?_, trivial⟩)
      exact fun hproducing => (hnot [] hproducing).elim
  have hall := (repeats_of_runRound ht).trans (hrounds bound)
  exact ⟨s, t, _, hdispatched, hruns, hruns', hall, (hbound _ _ (by omega) hall).1⟩

end ParleVision.Runtime
