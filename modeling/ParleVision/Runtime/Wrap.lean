import ParleVision.Runtime.Alignment

namespace ParleVision.Runtime
open Lib

variable {E P C : Type} {net : Network E P C} {first : Nat}

/-- The producers are dispatched when each processor that gets items has begun its run for the
frames with serial 0 that went before. -/
def CatchesUp (net : Network E P C) (first : Nat) (s : PipelineState E P C) : Event E P C → Prop
  | .schedule .. => s.phase = .asking [] true → ∀ z, unsigned z = 0 → first ≤ z → z < s.m_serial →
      ∀ c, z ∈ s.runs (net.target c)
  | .work .. => True

/-- Two serials that are less than a lap apart are told by their values. -/
theorem eq_of_unsigned_eq {x y : Nat} (h : unsigned x = unsigned y) (hx : x < y + 2 ^ 32)
    (hy : y < x + 2 ^ 32) : x = y := by
  unfold unsigned at h
  omega

/-- From a serial on there is one with the value 0 within a lap. -/
theorem exists_zero (x : Nat) : ∃ z, unsigned z = 0 ∧ x ≤ z ∧ z < x + 2 ^ 32 := by
  unfold unsigned
  exact ⟨(x + (2 ^ 32 - 1)) / 2 ^ 32 * 2 ^ 32, by omega, by omega, by omega⟩

/-- A later serial has a larger value, unless there is one with the value 0 in between. -/
theorem later_of_no_zero {x y : Nat} (hlt : x < y)
    (hzero : ∀ z, unsigned z = 0 → x < z → z < y → False) :
    unsigned y > unsigned x ∨ unsigned y = 0 := by
  by_contra hnot
  refine hzero (y / 2 ^ 32 * 2 ^ 32) ?_ ?_ ?_
  all_goals
    unfold unsigned at *
    omega

variable {s s' : PipelineState E P C}

variable [DecidableEq E] [DecidableEq C]

/-- The elements have begun their runs for the frames with serial 0, before the next one is
dispatched. -/
def CaughtUp (net : Network E P C) (first : Nat) (s : PipelineState E P C) : Prop :=
  ∀ z, unsigned z = 0 → first ≤ z → z + 1 < s.next → ∀ c, z ∈ s.runs (net.target c)

omit [DecidableEq C] in
theorem CaughtUp.turn (h : CaughtUp net first s) (ht : Turn net s s')
    (hcatches : s.phase = .asking [] true → ∀ z, unsigned z = 0 → first ≤ z → z < s.m_serial →
      ∀ c, z ∈ s.runs (net.target c)) : CaughtUp net first s' := by
  intro z hz hfirst hnext
  rw [ht.records.1]
  obtain hsame | ⟨hphase, hmore⟩ := ht.next
  · exact h z hz hfirst (hsame ▸ hnext)
  · rw [hmore] at hnext
    exact hcatches hphase z hz hfirst (Nat.lt_of_succ_lt_succ hnext)

theorem CaughtUp.works {e : E} {action : Action P C} {w' : Worker P C}
    (h : CaughtUp net first s) (hw : Works net s e action s' w') : CaughtUp net first s' := by
  intro z hz hfirst hnext c
  rw [hw.next] at hnext
  exact (hw.records.1 _).subset (h z hz hfirst hnext c)

/-- The serials are in order, and no element is behind by a lap. -/
structure Wrapping (net : Network E P C) (first : Nat) (s : PipelineState E P C) : Prop where
  accounted : Accounted net s
  framed : Framed net first s
  serials : Serials net first (fun _ _ => 0) s
  caught : CaughtUp net first s

omit [DecidableEq E] in
theorem started_wrapping : Wrapping net first (.started first fun _ _ => 0) where
  accounted := started_accounted first _
  framed := started_framed
  serials := started_serials first _
  caught z _ hfirst hnext := by
    change z + 1 < first at hnext
    omega

section
variable (h : Wrapping net first s) (hacyclic : net.Acyclic)
  (hpins : ∀ c, net.m_hasSynchronousPin (net.target c) = true)

omit [DecidableEq E] in
include h hacyclic in
/-- No element was announced for a frame that was not dispatched. -/
theorem Wrapping.lt_next (e : E) : ∀ x ∈ s.flow.announced e, x < s.next := by
  induction e using hacyclic.induction with
  | hstep e ih =>
    intro x hx
    cases hp : net.isProducer e with
    | true =>
      rw [Flow.announced, h.framed.ready e hp, List.append_nil] at hx
      obtain hlt | ⟨heq, todo, hphase, -⟩ := h.serials.produced e hp x hx
      · unfold PipelineState.next
        split
        · exact Nat.lt_succ_of_lt hlt
        · exact hlt
      · rw [PipelineState.next, hphase, heq]
        exact Nat.lt_succ_self _
    | false =>
      have hin : ∃ c, net.target c = e ∧ x ∈ s.notified c := by
        cases hhas : net.m_hasSynchronousPin e with
        | true =>
          obtain ⟨c, hc⟩ := net.exists_syncInput hhas
          exact ⟨c, ((net.mem_syncInputs e c).mp hc).1, (h.serials.complete e hhas x).mp hx c hc⟩
        | false => exact h.serials.asynchronous e hhas hp x hx
      obtain ⟨c, hc, hx⟩ := hin
      exact ih c hc x ((h.accounted.notified_announced c).subset hx)

omit [DecidableEq E] in
include h hacyclic hpins in
/-- A frame that an element was not announced for is less than a lap behind the last one. -/
theorem Wrapping.lt_lap {c : C} {x y : Nat} (hfirst : first ≤ x)
    (hnot : x ∉ s.flow.announced (net.target c)) (hy : y < s.next) : y < x + 2 ^ 32 := by
  obtain ⟨z, hz, hxz, hlap⟩ := exists_zero x
  by_contra hle
  have hruns := h.caught z hz (by omega) (by omega) c
  have hin := (h.accounted.runs_announced _).subset hruns
  have hconsecutive := h.serials.consecutive h.accounted h.framed hacyclic hpins (net.target c)
  rw [hconsecutive, List.mem_range'_1] at hnot hin
  omega

omit [DecidableEq E] in
include h hacyclic hpins in
theorem Wrapping.distinct {c : C} (hsync : net.isSynchronous c = true)
    (hc : (s.worker (net.source c)).announcing = some c) :
    Distinct net (fun _ _ => 0) s.flow c := by
  refine ⟨rfl, ?_⟩
  intro c' hc' y hy hnot heq
  obtain ⟨hin, hlast⟩ := h.serials.announcing h.accounted rfl hc
  have htarget := ((net.mem_syncInputs _ c').mp hc').1
  have hyin := (h.accounted.notified_announced c').subset hy
  -- neither was the other one announced, as it is new on its own pin
  have hxnot : s.processingSerial (net.source c) ∉ s.flow.announced (net.target c) := by
    intro hmem
    have hnew := (h.serials.complete _ (hpins c) _).mp hmem c
      ((net.mem_syncInputs _ c).mpr ⟨rfl, hsync⟩)
    exact Nat.lt_irrefl _ (hlast _ hnew)
  apply eq_of_unsigned_eq heq
  · exact h.lt_lap hacyclic hpins (h.serials.range _ _ hin).1 hxnot (h.lt_next hacyclic _ y hyin)
  · exact h.lt_lap hacyclic hpins (h.serials.range _ y hyin).1 hnot (h.lt_next hacyclic _ _ hin)

omit [DecidableEq E] in
include h in
/-- The serial an element works with is that of its last run. -/
theorem Wrapping.le_processing {e : E} {x : Nat} (hx : x ∈ s.runs e) :
    x ≤ s.processingSerial e := by
  have hne : s.runs e ≠ [] := List.ne_nil_of_mem hx
  have hsplit := dropLast_append_last hne
  rw [← (h.accounted.element e).processing] at hsplit
  have hord := (h.serials.ordered e).sublist (h.accounted.runs_announced e)
  rw [← hsplit] at hord hx
  obtain hx | hx := List.mem_append.mp hx
  · exact Nat.le_of_lt ((List.pairwise_append.mp hord).2.2 x hx _ (List.mem_singleton_self _))
  · exact Nat.le_of_eq (List.mem_singleton.mp hx)

include h hacyclic hpins in
theorem Wrapping.not_assertionFails (e : E) : ¬ s.AssertionFails net e := by
  have hzero {e : E} {x : Nat} (hp : s.processingSerial e = 0) : s.flow.Later e x := by
    rw [Flow.Later, hp]
    exact (Nat.eq_zero_or_pos (unsigned x)).symm
  rintro (⟨c, hc, hnone⟩ | ⟨x, hw, hp, hnot⟩)
  · obtain ⟨hsync, hnot⟩ := (newData_eq_none_iff _ c).mp hnone
    have hsource := Worker.announcing_source (h.accounted.shaped e) hc
    subst e
    have hnext := h.lt_next hacyclic _ _ (h.serials.announcing h.accounted rfl hc).1
    obtain hp | ⟨hmem, hlt⟩ := h.serials.processing_lt h.accounted hsync hc
    · exact hnot (hzero hp)
    · refine hnot (later_of_no_zero hlt fun z hz hpz hzx => ?_)
      have hfirst := (h.serials.range _ _ ((h.accounted.runs_announced _).subset hmem)).1
      have hruns := h.caught z hz (by omega) (by omega) c
      have hle := h.le_processing hruns
      omega
  · -- a producer is run for one frame after the other
    have hconsecutive := h.serials.consecutive h.accounted h.framed hacyclic hpins e
    obtain ⟨-, hx⟩ := h.accounted.entered_eq hconsecutive hw
    have hruns := h.accounted.runs_isPrefix e
    rw [hconsecutive] at hruns
    obtain hp | hmem := h.accounted.processing_mem e
    · exact hnot (hzero hp)
    · obtain ⟨-, hp | hlt⟩ := h.serials.processing_lt_entered h.accounted hw
      · exact hnot (hzero hp)
      · refine hnot (later_of_no_zero hlt fun z hz hpz hzx => ?_)
        have hfirst := (h.serials.range _ _ ((h.accounted.runs_announced _).subset hmem)).1
        have hz : z ∈ s.runs e := by
          rw [eq_range'_of_isPrefix hruns, List.mem_range'_1]
          omega
        have hle := h.le_processing hz
        omega

end

variable [DecidableEq P]

theorem Wrapping.step {event : Event E P C} (h : Wrapping net first s) (hacyclic : net.Acyclic)
    (hpins : ∀ c, net.m_hasSynchronousPin (net.target c) = true)
    (hcatches : CatchesUp net first s event) (hs : s.step net event = some s') :
    Wrapping net first s' := by
  have haccounted := h.accounted.step hs
  have hframed := h.framed.step h.accounted hs
  cases event with
  | schedule order answer =>
    have ht : Turn net s s' := schedule_cases hs
    exact ⟨haccounted, hframed, h.serials.turn h.accounted.producing ht, h.caught.turn ht hcatches⟩
  | work e action =>
    obtain ⟨w', hw⟩ := work_cases (h.accounted.shaped e) hs
    refine ⟨haccounted, hframed, ?_, h.caught.works hw⟩
    apply h.serials.works h.accounted hw
    · intro c hc hsync
      have hsource := Worker.announcing_source (h.accounted.shaped e) hc
      subst e
      exact h.distinct hacyclic hpins hsync hc
    · intro c _ hhas
      rw [hpins c] at hhas
      cases hhas

/-- The assertions hold across the wrap of the counter, as long as no frame is dispatched after one
with serial 0 before each processor has begun its run for that one. The scoreboards are empty at
first. -/
theorem serial_wrap_around {s : PipelineState E P C} (hacyclic : net.Acyclic)
    (hsync : ∀ c, net.isSynchronous c = true)
    (h : Reaches (PipelineState.step net) (CatchesUp net first) (.started first fun _ _ => 0) s)
    (e : E) : ¬ s.AssertionFails net e := by
  have hpins (c : C) : net.m_hasSynchronousPin (net.target c) = true :=
    (net.m_hasSynchronousPin_iff _).mpr ⟨c, rfl, hsync c⟩
  have hinv : Wrapping net first s := by
    refine h.invariant started_wrapping ?_
    intro s event s' hi hcatches hs
    exact hi.step hacyclic hpins hcatches hs
  exact hinv.not_assertionFails hacyclic hpins e

instance [Fintype C] (s : PipelineState E P C) (event : Event E P C) :
    Decidable (CatchesUp net first s event) :=
  match event with
  | .schedule .. =>
    decidable_of_iff (s.phase = .asking [] true →
      ∀ z ∈ List.range' first (s.m_serial - first), unsigned z = 0 →
        ∀ c, z ∈ s.runs (net.target c)) (by
      refine imp_congr_right fun _ => forall_congr' fun z => ?_
      rw [List.mem_range'_1]
      constructor
      · exact fun h hz hfirst hlt => h ⟨hfirst, by omega⟩ hz
      · exact fun h hz hzero => h hzero hz.1 (by omega))
  | .work .. => .isTrue trivial

def chainFrames : List (Event (Fin 3) (Fin 2) (Fin 2)) :=
  List.flatten (chainFrame :: List.replicate 2
    (.schedule [2] true :: List.flatten [List.replicate 13 (.schedule [0, 1, 2] true),
      chainFrame.drop 13]))

theorem serial_wrap_around_chain : ∃ s : PipelineState (Fin 3) (Fin 2) (Fin 2),
    (s.runs 2).map unsigned = [2 ^ 32 - 1, 0, 1] ∧ ∀ e, ¬ s.AssertionFails (chain true) e := by
  have hend : (run (guarded (PipelineState.step (chain true)) (CatchesUp (chain true) (2 ^ 32 - 1)))
      (.started (2 ^ 32 - 1) fun _ _ => 0) chainFrames).map (fun s => (s.runs 2).map unsigned) =
      some [2 ^ 32 - 1, 0, 1] := by decide +kernel
  obtain ⟨s, hs, hruns⟩ := Option.map_eq_some_iff.mp hend
  have hacyclic := (chain true).acyclic_of_rank Fin.val (by decide)
  exact ⟨s, hruns, serial_wrap_around hacyclic (by decide) (.of_guarded_run hs)⟩

/-- Three frames of a producer, with a processor that has only begun with the first. -/
def chainBehind : List (Event (Fin 3) (Fin 2) (Fin 2)) :=
  List.flatten [[.schedule [] true], List.replicate 12 (.schedule [0, 1, 2] true),
    List.replicate 2 (.work 0 (.returns true)), [.work 0 (.put 0)],
    List.replicate 7 (.work 0 (.returns true)), [.schedule [0] true],
    List.replicate 13 (.schedule [0, 1, 2] true), List.replicate 2 (.work 1 (.returns true)),
    List.replicate 2 (.work 0 (.returns true)), [.work 0 (.put 0)],
    List.replicate 7 (.work 0 (.returns true)), [.schedule [0, 1] true],
    List.replicate 14 (.schedule [0, 1, 2] true), List.replicate 2 (.work 0 (.returns true)),
    [.work 0 (.put 0), .work 0 (.returns true)]]

/-- The item with serial 1 comes before the processor has begun with the one with serial 0. -/
theorem serial_wrap_around_fails :
    (chain true).Acyclic ∧ (∀ c, (chain true).isSynchronous c = true) ∧
    ∃ s, Reaches (PipelineState.step (chain true)) (TakesSynchronous (chain true))
        (.started (2 ^ 32 - 1) fun _ _ => 0) s ∧
      s.runs 1 = [2 ^ 32 - 1] ∧ s.AssertionFails (chain true) 0 := by
  have hend : (run (guarded (PipelineState.step (chain true)) (TakesSynchronous (chain true)))
      (.started (2 ^ 32 - 1) fun _ _ => 0) chainBehind).map
        (fun s => (s.runs 1, (s.worker 0).announcing, (s.flow.newData (chain true) 0).isNone)) =
      some ([2 ^ 32 - 1], some 0, true) := by decide +kernel
  obtain ⟨s, hs, hview⟩ := Option.map_eq_some_iff.mp hend
  obtain ⟨hruns, hannouncing, hnone⟩ := by simpa only [Prod.mk.injEq] using hview
  have hfails : s.AssertionFails (chain true) 0 :=
    .inl ⟨0, hannouncing, Option.isNone_iff_eq_none.mp hnone⟩
  exact ⟨(chain true).acyclic_of_rank Fin.val (by decide), by decide, s, .of_guarded_run hs, hruns,
    hfails⟩

end ParleVision.Runtime
