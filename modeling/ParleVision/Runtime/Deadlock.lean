import ParleVision.Runtime.Watched

namespace ParleVision.Runtime
open Lib

variable {E P C : Type} {net : Network E P C} {first : Nat} {stale : E → Nat → Nat}

/-- One element is run for no more frames than another, whatever the elements put. -/
inductive Network.NoMoreOften (net : Network E P C) : E → E → Prop
  | refl (e : E) : NoMoreOften net e e
  | trans {e e' e'' : E} : NoMoreOften net e e' → NoMoreOften net e' e'' → NoMoreOften net e e''
  /-- all producers are run for each frame -/
  | producers {e e' : E} : net.isProducer e = true → net.isProducer e' = true → NoMoreOften net e e'
  /-- an element is run for what comes on all of its synchronous pins -/
  | aligned {e e' : E} : net.m_hasSynchronousPin e' = true →
      (∀ c ∈ net.syncInputs e', NoMoreOften net e (net.source c)) → NoMoreOften net e e'
  | joined {e e' : E} : net.m_hasSynchronousPin e = true →
      (∀ c ∈ net.syncInputs e, NoMoreOften net (net.source c) e') → NoMoreOften net e e'
  /-- or for each item on its asynchronous pins -/
  | alone {c : C} : net.inputs (net.target c) = [c] → net.isSynchronous c = false →
      NoMoreOften net (net.target c) (net.source c)
  | silent {e e' : E} : net.isProducer e = false → net.inputs e = [] → NoMoreOften net e e'

structure PipelineState.AtRest (s : PipelineState E P C) : Prop where
  phase : s.phase = .idle
  idle : ∀ e, s.worker e = .idle
  ready : ∀ e, s.m_readyQueue e = []

/-- And a queue is too long for the producers to be dispatched. -/
structure PipelineState.Stuck (s : PipelineState E P C) : Prop extends s.AtRest where
  long : ∃ c, 5 ≤ (s.m_queue c).length

instance (w : Worker P C) : Decidable w.Busy :=
  match w with
  | .idle => .isFalse id
  | .dispatched .. | .entered .. | .peeking .. | .flushing .. | .processing .. | .putting ..
  | .posting .. | .ending .. | .notError .. | .thrown | .leaving | .finished .. => .isTrue trivial

variable [DecidableEq E] [DecidableEq P] [DecidableEq C] {s : Watched E P C} {e : E}
  {action : Action P C} {t : PipelineState E P C} {w' : Worker P C} {c : C}

def Watched.after (net : Network E P C) (s : Watched E P C) (event : Event E P C)
    (t : PipelineState E P C) : Watched E P C :=
  ⟨t, s.heldAfter net event, s.omittedAfter net event⟩

/-- For each item on an asynchronous pin there is a run of its owner that has not begun, or that has
found it and not taken it, or it was not announced yet. -/
def Watched.Awaited (net : Network E P C) (s : Watched E P C) (c : C) : Prop :=
  (s.put c).length + (s.runs (net.target c)).length ≤
    (s.taken c).length + (s.flow.announced (net.target c)).length +
      (if (s.worker (net.target c)).untaken c ∧ s.held c = true then 1 else 0) +
      (if (s.worker (net.source c)).announcing = some c then 1 else 0)

omit [DecidableEq E] [DecidableEq P] in
/-- A pin that is empty. -/
theorem Watched.Awaited.of_empty {s : Watched E P C} (hqueued : s.flow.Queued)
    (hempty : s.m_queue c = [])
    (hruns : (s.runs (net.target c)).length ≤ (s.flow.announced (net.target c)).length) :
    s.Awaited net c := by
  have hput : s.put c = s.taken c := by
    rw [hqueued c, hempty]
    exact List.append_nil _
  rw [Awaited, hput]
  omega

theorem Watched.Awaited.turn {order : List E} {answer : Bool} (h : s.Awaited net c)
    (ha : Accounted net s.pipeline) (ht : Turn net s.pipeline t) :
    (s.after net (.schedule order answer) t).Awaited net c := by
  have huntaken : (t.worker (net.target c)).untaken c = (s.worker (net.target c)).untaken c :=
    ht.reads ha (·.untaken c) rfl (fun _ => rfl) _
  have hannouncing : (t.worker (net.source c)).announcing = (s.worker (net.source c)).announcing :=
    ht.reads ha Worker.announcing rfl (fun _ => rfl) _
  have hannounced := (ht.announced (net.target_not_producer c) ha.producing).1
  change (t.put c).length + (t.runs (net.target c)).length ≤
    (t.taken c).length + (t.flow.announced (net.target c)).length +
      (if (t.worker (net.target c)).untaken c ∧ s.held c = true then 1 else 0) +
      (if (t.worker (net.source c)).announcing = some c then 1 else 0)
  rw [ht.connections.2, ht.records.1, ht.records.2, hannounced]
  simp only [huntaken, hannouncing]
  exact h

omit [DecidableEq E] [DecidableEq P] in
/-- An element without synchronous pins finds no NULL, and takes what it holds. -/
theorem Watched.taken_held (ha : Accounted net s.pipeline)
    (hasync : net.m_hasSynchronousPin (net.target c) = false)
    (htakes : TakesItems net s (.work (net.target c) action)) (hheld : s.held c = true)
    (hu : (s.worker (net.target c)).untaken c) :
    (s.worker (net.target c)).over net action c = false := by
  have hshaped := ha.shaped (net.target c)
  rw [Bool.eq_false_iff]
  intro hover
  unfold Worker.over at hover
  split at hover
  case h_1 hw =>
    rw [hw] at hshaped
    rw [hshaped.2 rfl] at hasync
    cases hasync
  case h_2 calls b hw =>
    have htaken : (s.worker (net.target c)).TakenItems net s.held (net.target c) := htakes
    rw [hw] at htaken hu
    exact hu (htaken c ((net.mem_inputs _ c).mpr rfl) hheld)
  case h_3 => cases hover

theorem Watched.Awaited.work (h : ¬ (s.worker (net.target c)).failed → s.Awaited net c)
    (ha : Accounted net s.pipeline) (ha' : Accounted net t) (hdata : s.flow.HoldsData net)
    (hasync : net.m_hasSynchronousPin (net.target c) = false)
    (htakes : TakesItems net s (.work e action)) (hs : s.pipeline.work net e action = some t)
    (hw : Works net s.pipeline e action t w') (hfailed : ¬ (t.worker (net.target c)).failed) :
    (s.after net (.work e action) t).Awaited net c := by
  have hold := h fun hf => hfailed (hw.failed hf)
  have hput := hw.put_announced hasync
  unfold Watched.Awaited at hold
  by_cases hbegins : net.target c = e ∧ ∃ serial, s.worker e = .entered serial
  · obtain ⟨rfl, serial, hentered⟩ := hbegins
    have hheld : s.heldAfter net (.work (net.target c) action) c =
        (s.m_queue c).head?.any fun d => !d.isNull := s.heldAfter_entered net rfl hentered
    cases hany : (s.m_queue c).head?.any fun d => !d.isNull with
    | false =>
      refine .of_empty ha'.queued ?_ (ha'.runs_announced _).length_le
      change t.m_queue c = []
      rw [work_entered hs hentered]
      exact hdata.empty (net.isSynchronous_of_not hasync) hany
    | true =>
      have htaken := hw.le_taken hfailed fun _ _ => by rw [hentered]; rfl
      have hbefore : ¬ ((s.worker (net.target c)).untaken c ∧ s.held c = true) := by
        rw [hentered]
        exact And.left
      have hafter : (t.worker (net.target c)).untaken c → (t.worker (net.target c)).untaken c ∧
          s.heldAfter net (.work (net.target c) action) c = true :=
        fun hu => ⟨hu, hheld.trans hany⟩
      have hmono := one_le_one_of_imp hafter
      rw [if_neg hbefore] at hold
      change (t.put c).length + (t.runs (net.target c)).length ≤
        (t.taken c).length + (t.flow.announced (net.target c)).length +
          (if (t.worker (net.target c)).untaken c ∧
            s.heldAfter net (.work (net.target c) action) c = true then 1 else 0) +
          (if (t.worker (net.source c)).announcing = some c then 1 else 0)
      omega
  · change (t.put c).length + (t.runs (net.target c)).length ≤
      (t.taken c).length + (t.flow.announced (net.target c)).length +
        (if (t.worker (net.target c)).untaken c ∧ s.heldAfter net (.work e action) c = true
          then 1 else 0) +
        (if (t.worker (net.source c)).announcing = some c then 1 else 0)
    rw [s.heldAfter_of_not net hbegins]
    cases hheld : s.held c with
    | false =>
      -- it need not take what has come since
      have hruns := hw.runs_eq fun serial htarget hentered => hbegins ⟨htarget, serial, hentered⟩
      have htaken := (hw.records.2 c).length_le
      rw [hheld] at hold
      simp only [Bool.false_eq_true, and_false, if_false] at hold ⊢
      rw [hruns]
      omega
    | true =>
      have htaken := hw.le_taken hfailed fun he hu => by
        rw [← he] at htakes hu ⊢
        exact Watched.taken_held ha hasync htakes hheld hu
      rw [hheld] at hold
      simp only [and_true] at hold ⊢
      omega

/-- Each run of the source of a pin puts one item at most, and each run of its target takes one or
leaves out a frame. -/
def Watched.KeptUp (net : Network E P C) (s : Watched E P C) (c : C) : Prop :=
  (s.put c).length + (if (s.worker (net.source c)).unput net c then 1 else 0) +
      (s.runs (net.target c)).length ≤
    (s.taken c).length + (s.runs (net.source c)).length +
      (if (s.worker (net.target c)).untaken c then 1 else 0) + s.omitted c

theorem Watched.KeptUp.turn {order : List E} {answer : Bool} (h : s.KeptUp net c)
    (ha : Accounted net s.pipeline) (ht : Turn net s.pipeline t) :
    (s.after net (.schedule order answer) t).KeptUp net c := by
  have hunput : (t.worker (net.source c)).unput net c = (s.worker (net.source c)).unput net c :=
    ht.reads ha (·.unput net c) rfl (fun _ => rfl) _
  have huntaken : (t.worker (net.target c)).untaken c = (s.worker (net.target c)).untaken c :=
    ht.reads ha (·.untaken c) rfl (fun _ => rfl) _
  change (t.put c).length + (if (t.worker (net.source c)).unput net c then 1 else 0) +
      (t.runs (net.target c)).length ≤
    (t.taken c).length + (t.runs (net.source c)).length +
      (if (t.worker (net.target c)).untaken c then 1 else 0) + s.omitted c
  rw [ht.connections.2, ht.records.1, ht.records.2]
  simp only [hunput, huntaken]
  exact h

theorem Watched.KeptUp.work (h : ¬ (s.worker (net.target c)).failed → s.KeptUp net c)
    (hqueued : s.flow.Queued) (hs : s.pipeline.work net e action = some t)
    (hw : Works net s.pipeline e action t w') (hfailed : ¬ (t.worker (net.target c)).failed) :
    (s.after net (.work e action) t).KeptUp net c := by
  have hold := h fun hf => hfailed (hw.failed hf)
  have hput := hw.put_le c
  unfold Watched.KeptUp at *
  change (t.put c).length + (if (t.worker (net.source c)).unput net c then 1 else 0) +
      (t.runs (net.target c)).length ≤
    (t.taken c).length + (t.runs (net.source c)).length +
      (if (t.worker (net.target c)).untaken c then 1 else 0) + s.omittedAfter net (.work e action) c
  by_cases hover : net.target c = e ∧ (s.worker e).over net action c = true
  · have hflow := work_over hs hover.2
    rw [Watched.omittedAfter, if_pos hover]
    rw [hflow] at hput ⊢
    by_cases hempty : s.m_queue c = []
    · have hsame : s.put c = s.taken c := by
        rw [hqueued c, hempty]
        exact List.append_nil _
      rw [if_pos hempty, hsame, PipelineState.behind]
      rw [hsame] at hput
      omega
    · rw [if_neg hempty, ← hover.1]
      by_cases hu : (s.worker (net.target c)).untaken c
      · rw [if_pos hu] at hold ⊢
        omega
      · rw [if_neg hu] at hold ⊢
        omega
  · have htaken := hw.le_taken hfailed fun he _ =>
      Bool.eq_false_iff.mpr fun hl => hover ⟨he, hl⟩
    rw [Watched.omittedAfter, if_neg hover]
    omega

structure Served (net : Network E P C) (first : Nat) (stale : E → Nat → Nat)
    (s : Watched E P C) : Prop where
  accounted : Accounted net s.pipeline
  framed : Framed net first s.pipeline
  scored : Scored net stale s.flow
  incomplete : s.flow.Incomplete net
  data : s.flow.HoldsData net
  alone : ∀ c, net.inputs (net.target c) = [c] → net.isSynchronous c = false →
    s.flow.announced (net.target c) = s.notified c
  awaited : ∀ c, net.m_hasSynchronousPin (net.target c) = false →
    ¬ (s.worker (net.target c)).failed → s.Awaited net c
  keptUp : ∀ c, net.m_hasSynchronousPin (net.target c) = true →
    ¬ (s.worker (net.target c)).failed → s.KeptUp net c
  seldom : ∀ c, net.m_hasSynchronousPin (net.target c) = true → s.omitted c ≤ 4

omit [DecidableEq E] in
theorem started_served
    (hstale : ∀ e, net.m_hasSynchronousPin e = true → ∀ x, stale e x < net.m_pincount e) :
    Served net first stale (.started first stale) where
  accounted := started_accounted first stale
  framed := started_framed
  scored := started_scored
  incomplete := hstale
  data _ _ _ hd := absurd hd List.not_mem_nil
  alone _ _ _ := rfl
  awaited _ _ _ := Nat.zero_le _
  keptUp _ _ _ := Nat.zero_le _
  seldom _ _ := Nat.zero_le _

theorem Served.turn {order : List E} {answer : Bool} (h : Served net first stale s)
    (hs : s.pipeline.schedule net order answer = some t) :
    Served net first stale (s.after net (.schedule order answer) t) := by
  have ha := h.accounted
  have ht : Turn net s.pipeline t := schedule_cases hs
  have hstep : s.pipeline.step net (.schedule order answer) = some t := hs
  have hfailed (e : E) : (t.worker e).failed = (s.worker e).failed :=
    ht.reads ha Worker.failed rfl (fun _ => rfl) e
  refine ⟨ha.step hstep, h.framed.step ha hstep, h.scored.step ha hstep,
    h.incomplete.step ha hstep, ?data, ?alone, ?awaited, ?keptUp, h.seldom⟩
  case data =>
    intro c hc d hd
    change d ∈ t.m_queue c at hd
    rw [ht.connections.1] at hd
    exact h.data c hc d hd
  case alone =>
    intro c halone hasync
    obtain ⟨hannounced, hnotified⟩ := ht.announced (net.target_not_producer c) ha.producing
    change t.flow.announced (net.target c) = t.notified c
    rw [hannounced, hnotified]
    exact h.alone c halone hasync
  case awaited =>
    intro c hasync hnot
    exact (h.awaited c hasync ((hfailed _).symm ▸ hnot)).turn ha ht
  case keptUp =>
    intro c hhas hnot
    exact (h.keptUp c hhas ((hfailed _).symm ▸ hnot)).turn ha ht

theorem Served.work (h : Served net first stale s)
    (htakes : TakesItems net s (.work e action)) (hseldom : SeldomLeavesOut net s (.work e action))
    (hs : s.pipeline.work net e action = some t) :
    Served net first stale (s.after net (.work e action) t) := by
  have ha := h.accounted
  obtain ⟨w', hw⟩ := work_cases (ha.shaped e) hs
  have hstep : s.pipeline.step net (.work e action) = some t := hs
  have ha' := ha.step hstep
  refine ⟨ha', h.framed.step ha hstep, h.scored.step ha hstep, h.incomplete.step ha hstep,
    h.data.run hw.run, ?alone, ?awaited, ?keptUp, ?seldom⟩
  case alone =>
    intro c halone hasync
    exact hw.run.announced_alone halone hasync (h.alone c halone hasync)
  case awaited =>
    intro c hasync hnot
    exact .work (h.awaited c hasync) ha ha' h.data hasync htakes hs hw hnot
  case keptUp =>
    intro c hhas hnot
    exact .work (h.keptUp c hhas) ha.queued hs hw hnot
  case seldom =>
    intro c hhas
    change s.omittedAfter net (.work e action) c ≤ 4
    by_cases he : net.target c = e
    · subst e
      exact hseldom hhas c ((net.mem_inputs _ c).mpr rfl)
    · rw [Watched.omittedAfter, if_neg fun hand => he hand.1]
      exact h.seldom c hhas

theorem Served.step {event : Event E P C} {s' : Watched E P C} (h : Served net first stale s)
    (htakes : TakesItems net s event) (hseldom : SeldomLeavesOut net s event)
    (hs : s.step net event = some s') : Served net first stale s' := by
  obtain ⟨t, ht, rfl⟩ := Option.map_eq_some_iff.mp hs
  cases event with
  | schedule order answer => exact h.turn ht
  | work e action => exact h.work htakes hseldom ht

section
variable {s : PipelineState E P C}

omit [DecidableEq E] [DecidableEq P] in
theorem Accounted.rest_runs (ha : Accounted net s) (hr : s.AtRest) (e : E) :
    s.runs e = s.flow.announced e := by
  have hdispatched := (ha.element e).dispatched
  rw [hr.idle e] at hdispatched
  rw [Flow.announced, ← hdispatched, hr.ready e, List.append_nil]
  exact (List.append_nil _).symm

omit [DecidableEq E] [DecidableEq P] in
theorem Accounted.rest_put (ha : Accounted net s) (hr : s.AtRest) (c : C) :
    s.put c = s.notified c := by
  have hnotified := (ha.element (net.source c)).notified c rfl
  rw [hr.idle] at hnotified
  rw [hnotified]
  exact List.append_nil _

omit [DecidableEq E] [DecidableEq P] in
theorem Accounted.rest_notified (ha : Accounted net s) (hr : s.AtRest) {c : C}
    (hsync : net.isSynchronous c = true) :
    s.notified c = s.flow.announced (net.source c) := by
  have hacc := ha.element (net.source c)
  rw [hr.idle] at hacc
  rw [← ha.rest_put hr, hacc.sync_put c rfl hsync id id, ha.rest_runs hr]

end

omit [DecidableEq E] in
/-- A frame is complete for an element when each of its synchronous pins has its item. -/
theorem Served.rest_scored (h : Served net first stale s) (hr : s.AtRest) {e : E}
    (hhas : net.m_hasSynchronousPin e = true) (value : Nat) :
    let sources := (net.syncInputs e).map fun c => times (s.flow.announced (net.source c)) value
    net.m_pincount e * times (s.flow.announced e) value ≤ stale e value + sources.sum ∧
      sources.sum < net.m_pincount e * (times (s.flow.announced e) value + 1) := by
  intro sources
  have hbalance := h.scored.balance e value
  have hlookup := h.incomplete e hhas value
  have hsame : s.flow.scored net e value = sources.sum := by
    refine congrArg List.sum (List.map_congr_left fun c hc => ?_)
    rw [h.accounted.rest_notified hr ((net.mem_syncInputs e c).mp hc).2]
  rw [hsame] at hbalance
  rw [Nat.mul_succ]
  omega

omit [DecidableEq E] in
theorem Served.rest_times (h : Served net first stale s)
    (hstale : ∀ e, net.m_hasSynchronousPin e = true → ∀ x, stale e x < net.m_pincount e)
    (hr : s.AtRest) {e e' : E} (he : net.NoMoreOften e e') (value : Nat) :
    times (s.flow.announced e) value ≤ times (s.flow.announced e') value := by
  induction he with
  | refl e => exact Nat.le_refl _
  | trans _ _ ih ih' => exact ih.trans ih'
  | @producers e e' he he' =>
    have hnone (e : E) : ¬ s.produced e := not_produced (by simp [hr.phase])
    rw [Flow.announced, Flow.announced, hr.ready, hr.ready, h.framed.before e he (hnone e),
      h.framed.before e' he' (hnone e')]
  | @aligned e e' hhas _ ih =>
    have hless := (h.rest_scored hr hhas value).2
    have hmany := List.card_nsmul_le_sum
      ((net.syncInputs e').map fun c => times (s.flow.announced (net.source c)) value)
      (times (s.flow.announced e) value) fun n hn => by
        obtain ⟨c, hc, rfl⟩ := List.mem_map.mp hn
        exact ih c hc
    rw [List.length_map, ← net.m_pincount_eq, Nat.nsmul_eq_mul] at hmany
    exact Nat.lt_succ_iff.mp (Nat.lt_of_mul_lt_mul_left (hmany.trans_lt hless))
  | @joined e e' hhas _ ih =>
    have hless := (h.rest_scored hr hhas value).1
    have hfew := List.sum_le_card_nsmul
      ((net.syncInputs e).map fun c => times (s.flow.announced (net.source c)) value)
      (times (s.flow.announced e') value) fun n hn => by
        obtain ⟨c, hc, rfl⟩ := List.mem_map.mp hn
        exact ih c hc
    rw [List.length_map, ← net.m_pincount_eq, Nat.nsmul_eq_mul] at hfew
    have hold := hstale e hhas value
    refine Nat.lt_succ_iff.mp (Nat.lt_of_mul_lt_mul_left (a := net.m_pincount e) ?_)
    rw [Nat.mul_succ]
    omega
  | @alone c halone hasync =>
    rw [h.alone c halone hasync, ← h.accounted.rest_put hr, ← h.accounted.rest_runs hr]
    exact times_le_of_sublist ((h.accounted.element _).put c rfl) value
  | @silent e e' he hnone =>
    rw [h.scored.silent e he fun c hc => ?_]
    · exact Nat.zero_le _
    · have hmem := (net.mem_inputs e c).mpr hc
      rw [hnone] at hmem
      cases hmem

omit [DecidableEq E] in
theorem Served.rest_short (h : Served net first stale s)
    (hstale : ∀ e, net.m_hasSynchronousPin e = true → ∀ x, stale e x < net.m_pincount e)
    (hoften : ∀ c, net.m_hasSynchronousPin (net.target c) = true →
      net.NoMoreOften (net.source c) (net.target c))
    (hr : s.AtRest) (c : C) : (s.m_queue c).length < 5 := by
  have ha := h.accounted
  have hruns := ha.rest_runs hr
  have hnot : ¬ (s.worker (net.target c)).failed := by
    rw [hr.idle]
    exact id
  have hqueue := congrArg List.length (ha.queued c)
  rw [List.length_append, List.length_map] at hqueue
  cases hhas : net.m_hasSynchronousPin (net.target c) with
  | false =>
    have hawaited := h.awaited c hhas hnot
    simp only [Watched.Awaited, hr.idle, hruns] at hawaited
    change _ ≤ _ + 0 + 0 at hawaited
    omega
  | true =>
    have hkept := h.keptUp c hhas hnot
    have hseldom := h.seldom c hhas
    have hlength := length_le_of_times_le (h.rest_times hstale hr (hoften c hhas))
    simp only [Watched.KeptUp, hr.idle, hruns] at hkept
    change _ + 0 + _ ≤ _ + 0 + _ at hkept
    omega

/-- No queue keeps the producers from being dispatched when nothing else is left to run. -/
theorem no_deadlock
    (hstale : ∀ e, net.m_hasSynchronousPin e = true → ∀ x, stale e x < net.m_pincount e)
    (hoften : ∀ c, net.m_hasSynchronousPin (net.target c) = true →
      net.NoMoreOften (net.source c) (net.target c))
    (h : Reaches (Watched.step net)
      (fun s event => TakesItems net s event ∧ SeldomLeavesOut net s event)
      (.started first stale) s) : ¬ s.Stuck := by
  have hinv : Served net first stale s := by
    refine h.invariant (started_served hstale) ?_
    intro s event s' hi hallowed hs
    exact hi.step hallowed.1 hallowed.2 hs
  rintro ⟨hr, c, hlong⟩
  have hshort := hinv.rest_short hstale hoften hr c
  omega

section
variable {f : Flow E C} {s s' : PipelineState E P C}

structure Held (f : Flow E C) (c : C) (s : PipelineState E P C) : Prop where
  flow : s.flow = f
  idle : ∀ e, s.worker e = .idle
  seen : match s.phase with
    | .measuring todo max => c ∈ todo ∨ 5 ≤ max
    | .asking .. | .producing .. | .stopping => False
    | .idle | .reaping _ | .dispatching _ => True

omit [DecidableEq C] [DecidableEq P] in
theorem Held.schedule {c : C} {order : List E} {answer : Bool} (h : Held f c s)
    (hready : ∀ e, f.m_readyQueue e = []) (hlong : 5 ≤ (f.m_queue c).length)
    (hs : s.schedule net order answer = some s') : Held f c s' := by
  obtain ⟨rfl, hidle, hseen⟩ := h
  unfold PipelineState.schedule at hs
  cases hp : s.phase with
  | idle =>
    simp only [hp] at hs
    split at hs
    · cases hs
      exact ⟨rfl, hidle, trivial⟩
    · cases hs
  | reaping todo =>
    cases todo with
    | nil =>
      simp only [hp] at hs
      split at hs
      · cases hs
        exact ⟨rfl, hidle, trivial⟩
      · cases hs
    | cons e todo =>
      simp only [hp, hidle e] at hs
      cases hs
      exact ⟨rfl, hidle, trivial⟩
  | dispatching todo =>
    cases todo with
    | nil =>
      simp only [hp] at hs
      cases hs
      exact ⟨rfl, hidle, .inl (net.mem_connections c)⟩
    | cons e todo =>
      simp only [hp, hready e] at hs
      cases hs
      exact ⟨rfl, hidle, trivial⟩
  | measuring todo max =>
    rw [hp] at hseen
    cases todo with
    | nil =>
      have hmax := hseen.resolve_left List.not_mem_nil
      simp only [hp, if_neg (Nat.not_lt.mpr hmax)] at hs
      cases hs
      exact ⟨rfl, hidle, trivial⟩
    | cons c' todo =>
      simp only [hp] at hs
      cases hs
      refine ⟨rfl, hidle, ?_⟩
      obtain hc | hmax := hseen
      · obtain rfl | hc := List.mem_cons.mp hc
        · exact .inr (Nat.le_trans hlong (Nat.le_max_left ..))
        · exact .inl hc
      · exact .inr (Nat.le_trans hmax (Nat.le_max_right ..))
  | asking todo allReady =>
    rw [hp] at hseen
    exact hseen.elim
  | producing todo =>
    rw [hp] at hseen
    exact hseen.elim
  | stopping =>
    rw [hp] at hseen
    exact hseen.elim

end

/-- It is for ever. -/
theorem PipelineState.Stuck.forever {s s' : Watched E P C}
    {allowed : Watched E P C → Event E P C → Prop} (h : s.Stuck)
    (hr : Reaches (Watched.step net) allowed s s') : s'.flow = s.flow := by
  obtain ⟨⟨hphase, hidle, hready⟩, c, hlong⟩ := h
  have hheld : Held s.flow c s'.pipeline := by
    refine hr.invariant (I := fun s' => Held s.flow c s'.pipeline)
      ⟨rfl, hidle, by rw [hphase]; trivial⟩ ?_
    intro s₁ event s₂ hi _ hs
    obtain ⟨t, ht, rfl⟩ := Option.map_eq_some_iff.mp hs
    cases event with
    | schedule order answer => exact hi.schedule hready hlong ht
    | work e action => simp [PipelineState.step, PipelineState.work, hi.idle e] at ht
  exact hheld.flow

/-- A producer with two pins, for the synchronous and the asynchronous pin of a processor. -/
def snapshot : Network (Fin 2) (Fin 2) (Fin 2) where
  children := [0, 1]
  isProducer e := e == 0
  outputPins := ![[0, 1], []]
  outputs := ![[0], [1]]
  inputs := ![[], [0, 1]]
  connections := [0, 1]
  owner := ![0, 0]
  fromPin := ![0, 1]
  target := ![1, 1]
  isSynchronous := ![true, false]
  isDataGuaranteed := ![true, false]
  mem_children := mem_two
  mem_connections := mem_two
  mem_outputPins := by decide
  mem_outputs := mem_singles
  mem_inputs := by decide
  children_nodup := by decide
  outputPins_nodup := by decide
  outputs_nodup := singles_nodup
  inputs_nodup := by decide
  producer_inputs := by decide

instance (held : C → Bool) (e : E) (w : Worker P C) : Decidable (w.TakenItems net held e) :=
  match w with
  | .processing calls =>
    inferInstanceAs (Decidable (∀ c ∈ net.inputs e, held c = true → c ∈ calls.got))
  | .idle | .dispatched .. | .entered .. | .peeking .. | .flushing .. | .putting .. | .posting ..
  | .ending .. | .notError .. | .thrown | .leaving | .finished .. => .isTrue trivial

instance (s : Watched E P C) (event : Event E P C) : Decidable (TakesItems net s event) :=
  match event with
  | .work e (.returns _) => inferInstanceAs (Decidable ((s.worker e).TakenItems net s.held e))
  | .schedule .. | .work _ (.get _) | .work _ (.clear _) | .work _ (.put _) | .work _ .setError
  | .work _ .throws => .isTrue trivial

instance (s : Watched E P C) (event : Event E P C) : Decidable (SeldomLeavesOut net s event) :=
  match event with
  | .work e action => inferInstanceAs (Decidable (net.m_hasSynchronousPin e = true →
      ∀ c ∈ net.inputs e, s.omittedAfter net (.work e action) c ≤ 4))
  | .schedule .. => .isTrue trivial

def snapshotFrame : List (Event (Fin 2) (Fin 2) (Fin 2)) :=
  List.flatten [[.schedule [] true], List.replicate 11 (.schedule [0, 1] true),
    List.replicate 2 (.work 0 (.returns true)), [.work 0 (.put 0)],
    List.replicate 3 (.work 0 (.returns true)), [.work 0 (.put 1)],
    List.replicate 7 (.work 0 (.returns true)), [.schedule [0] false],
    List.replicate 10 (.schedule [0, 1] false), List.replicate 5 (.work 1 (.returns true)),
    [.work 1 (.get 0), .work 1 (.get 1)], List.replicate 4 (.work 1 (.returns true)),
    [.schedule [1] false], List.replicate 10 (.schedule [0, 1] false)]

theorem no_deadlock_snapshot :
    ∃ s : Watched (Fin 2) (Fin 2) (Fin 2), s.taken 1 = [1] ∧ ¬ s.Stuck := by
  have hend : (run (guarded (Watched.step snapshot)
      fun s event => TakesItems snapshot s event ∧ SeldomLeavesOut snapshot s event)
      (.started 1 fun _ _ => 0) snapshotFrame).map (·.taken 1) = some [1] := by decide +kernel
  obtain ⟨s, hs, htaken⟩ := Option.map_eq_some_iff.mp hend
  refine ⟨s, htaken, no_deadlock ?_ ?_ (.of_guarded_run hs)⟩
  · intro e he _
    revert e
    decide
  · intro c _
    have hproducer (c : Fin 2) : snapshot.isProducer (snapshot.source c) = true := by
      revert c
      decide
    exact .aligned (by revert c; decide) fun c' _ => .producers (hproducer c) (hproducer c')

def Event.Willing : Event E P C → Prop
  | .schedule _ answer => answer = true
  | .work .. => True

instance (event : Event E P C) : Decidable event.Willing :=
  match event with
  | .schedule _ answer => inferInstanceAs (Decidable (answer = true))
  | .work .. => .isTrue trivial

/-- Five frames for which the producer puts an item on the asynchronous pin only. -/
def unflushed : List (Event (Fin 2) (Fin 2) (Fin 2)) :=
  let tick (n : Nat) (runQueue : List (Fin 2)) : List (Event (Fin 2) (Fin 2) (Fin 2)) :=
    .schedule runQueue true :: List.replicate n (.schedule [0, 1] true)
  let produce : List (Event (Fin 2) (Fin 2) (Fin 2)) :=
    List.flatten [List.replicate 2 (.work 0 (.returns true)), [.work 0 (.put 1)],
      List.replicate 9 (.work 0 (.returns true))]
  let process : List (Event (Fin 2) (Fin 2) (Fin 2)) := List.replicate 10 (.work 1 (.returns true))
  List.flatten [tick 11 [], produce, tick 12 [0], produce, process, tick 13 [0, 1], produce,
    process, tick 13 [0, 1], produce, process, tick 13 [0, 1], produce, process, tick 9 [0, 1],
    process, tick 8 [1]]

/-- The processor is not run for a NULL, and its asynchronous pin is not flushed. -/
theorem no_deadlock_fails : snapshot.Acyclic ∧
    ∃ s, Reaches (Watched.step snapshot)
        (fun s event => TakesItems snapshot s event ∧ event.Willing) (.started 1 fun _ _ => 0) s ∧
      s.Stuck ∧ ∀ s', Reaches (Watched.step snapshot)
        (fun s event => TakesItems snapshot s event ∧ event.Willing) s s' →
        s'.dispatched = s.dispatched := by
  have hend : (run (guarded (Watched.step snapshot)
      fun s event => TakesItems snapshot s event ∧ event.Willing)
      (.started 1 fun _ _ => 0) unflushed).map
        (fun s => (s.phase, decide (∀ e, ¬ (s.worker e).Busy),
          decide (∀ e, s.m_readyQueue e = []), (s.m_queue 1).length)) =
      some (.idle, true, true, 5) := by decide +kernel
  obtain ⟨s, hs, hview⟩ := Option.map_eq_some_iff.mp hend
  obtain ⟨hphase, hidle, hready, hlong⟩ := by
    simpa only [Prod.mk.injEq, decide_eq_true_eq] using hview
  have hstuck : s.Stuck :=
    ⟨⟨hphase, fun e => Worker.not_busy (hidle e), hready⟩, 1, hlong.ge⟩
  refine ⟨snapshot.acyclic_of_rank Fin.val (by decide), s, .of_guarded_run hs, hstuck, ?_⟩
  intro s' hr
  rw [hstuck.forever hr]

end ParleVision.Runtime
