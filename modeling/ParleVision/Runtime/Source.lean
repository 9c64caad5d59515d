import ParleVision.Runtime.Frames

namespace ParleVision.Runtime
open ParleVision.Lib

/-- What has come for a producer and waits until `produce` is called. -/
structure Source (S A O : Type) where
  readyToProduce : S → Bool
  arrives : S → A → S
  /-- what `produce` puts and what it leaves; nothing when it takes what is not there -/
  produce : S → Option (O × S)

/-- Once it is ready, only `produce` changes that, and what is put then is as it should be. -/
structure Source.Lawful {S A O : Type} (source : Source S A O) (valid : O → Prop) : Prop where
  stays : ∀ s a, source.readyToProduce s = true → source.readyToProduce (source.arrives s a) = true
  produces : ∀ s, source.readyToProduce s = true →
    ∃ o s', source.produce s = some (o, s') ∧ valid o

/-- It is in `produce` and has not put anything yet. -/
def Worker.isProducing {P C : Type} : Worker P C → Bool
  | .processing ⟨[], _⟩ => true
  | _ => false

theorem Worker.isProducing_iff {P C : Type} {w : Worker P C} :
    w.isProducing = true ↔ ∃ got, w = .processing ⟨[], got⟩ := by
  constructor
  · intro h
    unfold isProducing at h
    split at h
    case h_1 got => exact ⟨got, rfl⟩
    case h_2 => cases h
  · rintro ⟨got, rfl⟩
    rfl

/-- A pipeline with one of its producers, and a record of what came for it and what it put. -/
structure SourcedState (E P C S A O : Type) extends PipelineState E P C where
  source : S
  arrived : List A
  produced : List O

inductive SourcedEvent (E P C A : Type) where
  | arrives (a : A)
  | pipeline (event : Event E P C)

namespace SourcedState
variable {E P C S A O : Type}

def started (first : Nat) (stale : E → Nat → Nat) (s : S) : SourcedState E P C S A O where
  toPipelineState := .started first stale
  source := s
  arrived := []
  produced := []

section
variable [DecidableEq E] (producer : E) (source : Source S A O)

/-- It does not say that it is ready when it is not. It may say that it is not for other reasons, a
lost connection for instance. -/
def answers (t : SourcedState E P C S A O) : Event E P C → Bool
  | .schedule _ answer =>
    match t.phase with
    | .asking (e :: _) _ =>
      decide (e = producer → answer = true → source.readyToProduce t.source = true)
    | _ => true
  | .work .. => true

/-- It is in `produce` and takes what has come: it goes on to its first `put`, or returns without
one. -/
def produces (t : SourcedState E P C S A O) : Event E P C → Bool
  | .work e (.put _) | .work e (.returns _) => decide (e = producer) && (t.worker e).isProducing
  | _ => false

variable [DecidableEq P] [DecidableEq C] (net : Network E P C)

def step (t : SourcedState E P C S A O) :
    SourcedEvent E P C A → Option (SourcedState E P C S A O)
  | .arrives a =>
    some { t with source := source.arrives t.source a, arrived := t.arrived ++ [a] }
  | .pipeline event =>
    if t.answers producer source event then
      (t.toPipelineState.step net event).bind fun s =>
        if t.produces producer event then
          (source.produce t.source).map fun o =>
            ⟨s, o.2, t.arrived, t.produced ++ [o.1]⟩
        else some ⟨s, t.source, t.arrived, t.produced⟩
    else none

end

end SourcedState

def Worker.Starting {P C : Type} : Worker P C → Prop
  | .dispatched _ | .entered _ | .processing ⟨[], _⟩ => True
  | _ => False

/-- The run of a producer has no pins to look at. -/
def Worker.OfProducer {P C : Type} : Worker P C → Prop
  | .peeking .. => False
  | .putting calls .. => calls.put ≠ []
  | _ => True

section
variable {E P C : Type} [DecidableEq E] [DecidableEq P] [DecidableEq C] {net : Network E P C}
  {s s' : PipelineState E P C} {e : E}

omit [DecidableEq P] [DecidableEq C] in
/-- The run of a producer goes on to where it has put something, or has ended without. -/
theorem goto_ofProducer (s : PipelineState E P C) (e : E) {w : Worker P C} {Q : Prop}
    (hof : w.OfProducer) (hnot : ¬ w.Starting) :
    ((s.goto e w).worker e).OfProducer ∧ (((s.goto e w).worker e).Starting → Q) := by
  have hgoto : (s.goto e w).worker e = w := Function.update_self ..
  rw [hgoto]
  exact ⟨hof, fun hstarting => absurd hstarting hnot⟩

/-- A producer has put something as soon as its `produce` has called `put`. -/
theorem process_ofProducer {calls : Calls P C} {action : Action P C}
    (he : net.isProducer e = true) (hs : s.process net e calls action = some s')
    (hw : s.worker e = .processing calls) :
    (s'.worker e).OfProducer ∧
      ((s'.worker e).Starting → (s.worker e).Starting ∧ action = .setError) := by
  cases action with
  | get c =>
    simp only [PipelineState.process, if_neg (net.ne_target he c).symm] at hs
    cases hs
  | clear c =>
    simp only [PipelineState.process, if_neg (net.ne_target he c).symm] at hs
    cases hs
  | put p =>
    simp only [PipelineState.process] at hs
    split at hs
    · split at hs
      · cases hs
        exact goto_ofProducer _ _ trivial id
      · cases hs
        exact goto_ofProducer _ _ (List.cons_ne_nil _ _) id
    · cases hs
  | setError =>
    cases hs
    change (s.worker e).OfProducer ∧ ((s.worker e).Starting → _)
    rw [hw]
    exact ⟨trivial, fun h => ⟨h, rfl⟩⟩
  | returns b =>
    cases hs
    exact goto_ofProducer _ _ trivial id
  | throws =>
    cases hs
    exact goto_ofProducer _ _ trivial id

theorem work_ofProducer {action : Action P C} (he : net.isProducer e = true)
    (hs : s.work net e action = some s') (h : (s.worker e).OfProducer) :
    (s'.worker e).OfProducer ∧ ((s'.worker e).Starting → (s.worker e).Starting ∧
      ∀ calls, s.worker e = .processing calls → action = .setError) := by
  have hgoto (s : PipelineState E P C) (w : Worker P C) : (s.goto e w).worker e = w :=
    Function.update_self ..
  cases hw : s.worker e with
  | idle =>
    simp only [PipelineState.work, hw] at hs
    cases hs
  | dispatched serial =>
    simp only [PipelineState.work, hw] at hs
    split at hs
    · cases hs
      rw [hgoto]
      exact ⟨trivial, fun _ => ⟨trivial, by simp⟩⟩
    · cases hs
  | entered serial =>
    simp only [PipelineState.work, hw, if_pos he] at hs
    split at hs
    · cases hs
      rw [hgoto]
      exact ⟨trivial, fun _ => ⟨trivial, by simp⟩⟩
    · cases hs
  | peeking todo nullDetected =>
    rw [hw] at h
    exact h.elim
  | flushing todo =>
    cases todo with
    | nil =>
      simp only [PipelineState.work, hw] at hs
      cases hs
      exact goto_ofProducer _ _ trivial id
    | cons c todo =>
      simp only [PipelineState.work, hw] at hs
      split at hs
      all_goals
        cases hs
        exact goto_ofProducer _ _ trivial id
  | processing calls =>
    simp only [PipelineState.work, hw] at hs
    obtain ⟨hof, hstarting⟩ := process_ofProducer he hs hw
    refine ⟨hof, fun hs' => ?_⟩
    obtain ⟨hold, hput⟩ := hstarting hs'
    exact ⟨hw ▸ hold, fun _ _ => hput⟩
  | putting calls todo pushed =>
    rw [hw] at h
    cases todo with
    | nil =>
      simp only [PipelineState.work, hw] at hs
      cases hs
      rw [hgoto]
      refine ⟨trivial, fun hstarting => ?_⟩
      obtain ⟨put, got⟩ := calls
      cases put with
      | nil => exact absurd rfl h
      | cons p put => exact hstarting.elim
    | cons c todo =>
      cases pushed with
      | false =>
        simp only [PipelineState.work, hw] at hs
        cases hs
        exact goto_ofProducer _ _ h id
      | true =>
        simp only [PipelineState.work, hw] at hs
        split at hs
        · cases hs
        · cases hs
          exact goto_ofProducer _ _ h id
  | posting todo pushed result =>
    cases todo with
    | nil =>
      simp only [PipelineState.work, hw] at hs
      cases hs
      exact goto_ofProducer _ _ trivial id
    | cons c todo =>
      cases pushed with
      | false =>
        simp only [PipelineState.work, hw] at hs
        cases hs
        exact goto_ofProducer _ _ trivial id
      | true =>
        simp only [PipelineState.work, hw] at hs
        split at hs
        · cases hs
        · cases hs
          exact goto_ofProducer _ _ trivial id
  | ending result =>
    simp only [PipelineState.work, hw] at hs
    cases hs
    split
    · exact goto_ofProducer _ _ trivial id
    · exact goto_ofProducer _ _ trivial id
  | notError result =>
    simp only [PipelineState.work, hw] at hs
    cases hs
    exact goto_ofProducer _ _ trivial id
  | thrown =>
    simp only [PipelineState.work, hw] at hs
    cases hs
    exact goto_ofProducer _ _ trivial id
  | leaving =>
    simp only [PipelineState.work, hw] at hs
    cases hs
    exact goto_ofProducer _ _ trivial id
  | finished result =>
    simp only [PipelineState.work, hw] at hs
    cases hs

end

namespace SourcedState
variable {E P C S A O : Type} {producer : E} {source : Source S A O} {valid : O → Prop}

theorem produces_iff [DecidableEq E] {t : SourcedState E P C S A O} {event : Event E P C} :
    t.produces producer event = true ↔ ∃ action got, event = .work producer action ∧
      t.worker producer = .processing ⟨[], got⟩ ∧
      ((∃ p, action = .put p) ∨ ∃ b, action = .returns b) := by
  constructor
  · intro h
    unfold produces at h
    split at h
    case h_1 e p =>
      obtain ⟨he, hw⟩ := Bool.and_eq_true_iff.mp h
      cases of_decide_eq_true he
      obtain ⟨got, hw⟩ := Worker.isProducing_iff.mp hw
      exact ⟨_, got, rfl, hw, .inl ⟨p, rfl⟩⟩
    case h_2 e b =>
      obtain ⟨he, hw⟩ := Bool.and_eq_true_iff.mp h
      cases of_decide_eq_true he
      obtain ⟨got, hw⟩ := Worker.isProducing_iff.mp hw
      exact ⟨_, got, rfl, hw, .inr ⟨b, rfl⟩⟩
    case h_3 => cases h
  · rintro ⟨action, got, rfl, hw, ⟨p, rfl⟩ | ⟨b, rfl⟩⟩
    · simp [produces, Worker.isProducing_iff.mpr ⟨got, hw⟩]
    · simp [produces, Worker.isProducing_iff.mpr ⟨got, hw⟩]

structure Primed (producer : E) (source : Source S A O) (t : SourcedState E P C S A O) :
    Prop where
  asked : ∀ todo, t.phase = .asking todo true → producer ∉ todo →
    t.worker producer = .idle ∧ source.readyToProduce t.source = true
  producing : ∀ todo, t.phase = .producing todo → producer ∈ todo →
    t.worker producer = .idle ∧ source.readyToProduce t.source = true
  starting : (t.worker producer).Starting → source.readyToProduce t.source = true
  ofProducer : (t.worker producer).OfProducer

theorem Primed.arrives {t : SourcedState E P C S A O} (h : Primed producer source t)
    (hlawful : source.Lawful valid) (a : A) :
    Primed producer source
      { t with source := source.arrives t.source a, arrived := t.arrived ++ [a] } where
  asked todo hphase htodo := (h.asked todo hphase htodo).imp_right (hlawful.stays _ a)
  producing todo hphase htodo := (h.producing todo hphase htodo).imp_right (hlawful.stays _ a)
  starting hw := hlawful.stays _ a (h.starting hw)
  ofProducer := h.ofProducer

variable [DecidableEq E] [DecidableEq P] [DecidableEq C] {net : Network E P C}
  {t : SourcedState E P C S A O} {s' : PipelineState E P C}

omit [DecidableEq E] [DecidableEq P] in
/-- An element that says it has not been dispatched has no run. -/
theorem idle_of_beforeDispatched {s : PipelineState E P C} {e : E} (ha : Accounted net s)
    (h : s.beforeDispatched e = true) : s.worker e = .idle := by
  apply Worker.not_busy
  intro hbusy
  have hstate := (ha.busy e).mp hbusy
  have hrunning := ha.running e
  simp only [PipelineState.beforeDispatched, List.mem_cons, List.not_mem_nil, or_false,
    decide_eq_true_eq] at h
  rcases h with h | h | h
  · exact hrunning.1 h
  · exact hrunning.2 h
  · exact hstate h

omit [DecidableEq P] [DecidableEq C] in
/-- `schedule` comes past the producers one by one, and keeps whether all were ready so far. -/
theorem schedule_asking {s s' : PipelineState E P C} {order : List E} {answer : Bool}
    {todo : List E} {allReady : Bool} (hs : s.schedule net order answer = some s')
    (hphase : s'.phase = .asking todo allReady) :
    todo = net.producers ∧ allReady = true ∨
      ∃ e before, s.phase = .asking (e :: todo) before ∧
        allReady = (before && (s.beforeDispatched e && answer)) ∧ s'.worker = s.worker := by
  cases hp : s.phase with
  | measuring cs max =>
    cases cs with
    | nil =>
      simp only [PipelineState.schedule, hp] at hs
      cases hs
      left
      change (if max < 5 then Phase.asking net.producers true else .idle) = _ at hphase
      split at hphase
      · cases hphase
        exact ⟨rfl, rfl⟩
      · cases hphase
    | cons c cs =>
      simp only [PipelineState.schedule, hp] at hs
      cases hs
      cases hphase
  | asking es allReady' =>
    cases es with
    | nil =>
      simp only [PipelineState.schedule, hp] at hs
      cases hs
      change (if allReady' = true then Phase.producing net.producers else .idle) = _ at hphase
      split at hphase
      · cases hphase
      · cases hphase
    | cons e es =>
      simp only [PipelineState.schedule, hp] at hs
      cases hs
      right
      obtain ⟨rfl, hready⟩ := Phase.asking.inj hphase
      exact ⟨e, allReady', rfl, hready.symm, rfl⟩
  | idle =>
    simp only [PipelineState.schedule, hp] at hs
    split at hs
    · cases hs
      cases hphase
    · cases hs
  | reaping es =>
    cases es with
    | nil =>
      simp only [PipelineState.schedule, hp] at hs
      split at hs
      · cases hs
        cases hphase
      · cases hs
    | cons e es =>
      simp only [PipelineState.schedule, hp] at hs
      split at hs
      all_goals
        cases hs
        cases hphase
  | dispatching es =>
    cases es with
    | nil =>
      simp only [PipelineState.schedule, hp] at hs
      cases hs
      cases hphase
    | cons e es =>
      simp only [PipelineState.schedule, hp] at hs
      split at hs
      · cases hs
        cases hphase
      · split at hs
        · cases hs
          cases hphase
        · unfold PipelineState.dispatch at hs
          split at hs
          · cases hs
            cases hphase
          · cases hs
  | producing es =>
    have ht := schedule_cases hs
    cases ht with
    | moves hfrom => exact absurd hp (hfrom es)
    | reaps h => cases hp.symm.trans h
    | dispatches h => cases hp.symm.trans h
    | produces _ _ hphase' => cases hphase'.symm.trans hphase
    | ticks => cases hphase
  | stopping =>
    simp only [PipelineState.schedule, hp] at hs
    cases hs

omit [DecidableEq P] in
/-- A step of `schedule`. -/
theorem Primed.schedule {first : Nat} {order : List E} {answer : Bool}
    (h : Primed producer source t) (ha : Accounted net t.toPipelineState)
    (hf : Framed net first t.toPipelineState) (hproducer : net.isProducer producer = true)
    (hanswer : t.answers producer source (.schedule order answer) = true)
    (hs : t.toPipelineState.schedule net order answer = some s') :
    Primed producer source ⟨s', t.source, t.arrived, t.produced⟩ := by
  have hmem : producer ∈ net.producers :=
    List.mem_filter.mpr ⟨net.mem_children producer, hproducer⟩
  have hturn : Turn net t.toPipelineState s' := schedule_cases hs
  constructor
  case asked =>
    intro todo hphase htodo
    rcases schedule_asking hs hphase with ⟨rfl, -⟩ | ⟨e, allReady, hold, hall, hworker⟩
    · exact absurd hmem htodo
    · change s'.worker producer = .idle ∧ _
      obtain ⟨rfl, hbefore, htrue⟩ := by simpa only [Bool.and_eq_true] using hall.symm
      rw [hworker]
      by_cases he : producer = e
      · subst e
        refine ⟨idle_of_beforeDispatched ha hbefore, ?_⟩
        simp only [answers, hold, decide_eq_true_eq] at hanswer
        exact hanswer trivial htrue
      · exact h.asked (e :: todo) hold (by simp [he, htodo])
  case producing =>
    intro todo hphase htodo
    change s'.worker producer = .idle ∧ _
    cases hturn with
    | moves _ hto =>
      obtain ⟨hasking, -⟩ := hto todo hphase
      exact h.asked [] hasking List.not_mem_nil
    | reaps => cases hphase
    | dispatches _ _ _ hphase' => cases hphase'.symm.trans hphase
    | @produces e todo' _ hold hdispatch hphase' =>
      cases hphase'.symm.trans hphase
      obtain ⟨hidle, hready⟩ := h.producing _ hold (List.mem_cons_of_mem _ htodo)
      have hne : producer ≠ e := by
        rintro rfl
        exact (List.nodup_cons.mp (ha.producing _ hold).1).1 htodo
      rw [hdispatch.worker, Function.update_of_ne hne]
      exact ⟨hidle, hready⟩
    | ticks => cases hphase
  case starting =>
    intro hw
    change (s'.worker producer).Starting at hw
    cases hturn with
    | moves => exact h.starting hw
    | @reaps e =>
      by_cases he : producer = e
      · subst e
        change (Function.update t.worker producer .idle producer).Starting at hw
        rw [Function.update_self] at hw
        exact hw.elim
      · change (Function.update t.worker e .idle producer).Starting at hw
        rw [Function.update_of_ne he] at hw
        exact h.starting hw
    | @dispatches e _ _ _ _ _ hq hdispatch =>
      -- nothing is announced to a producer
      have hne : producer ≠ e := by
        rintro rfl
        rw [hf.ready producer hproducer] at hq
        cases hq
      rw [hdispatch.worker, Function.update_of_ne hne] at hw
      exact h.starting hw
    | @produces e _ _ hold hdispatch =>
      by_cases he : producer = e
      · subst e
        exact (h.producing _ hold (List.mem_cons_self ..)).2
      · rw [hdispatch.worker, Function.update_of_ne he] at hw
        exact h.starting hw
    | ticks => exact h.starting hw
  case ofProducer =>
    rcases hturn.worker_cases ha producer with ⟨hw, -⟩ | ⟨-, -, hw⟩ | ⟨serial, -, hw⟩
    · exact hw.symm ▸ h.ofProducer
    · exact hw.symm ▸ trivial
    · exact hw.symm ▸ trivial

/-- A step of the run of an element. -/
theorem Primed.work {e : E} {action : Action P C} {source' : S} {os : List O}
    (h : Primed producer source t) (ha : Accounted net t.toPipelineState)
    (hproducer : net.isProducer producer = true)
    (hs : t.toPipelineState.work net e action = some s')
    (hsource : t.produces producer (.work e action) = false → source' = t.source) :
    Primed producer source ⟨s', source', t.arrived, os⟩ := by
  obtain ⟨w', hw⟩ := work_cases (ha.shaped e) hs
  by_cases he : e = producer
  · subst e
    have hbusy (hidle : t.worker producer = .idle) : False := by
      have := hw.busy
      rw [hidle] at this
      exact this
    obtain ⟨hof, hstarting⟩ := work_ofProducer hproducer hs h.ofProducer
    constructor
    case asked =>
      intro todo hphase htodo
      exact (hbusy (h.asked todo (hw.phase ▸ hphase) htodo).1).elim
    case producing =>
      intro todo hphase htodo
      exact (hbusy (h.producing todo (hw.phase ▸ hphase) htodo).1).elim
    case starting =>
      intro hstart
      obtain ⟨hold, hput⟩ := hstarting hstart
      have hkept : source' = t.source := by
        apply hsource
        rw [Bool.eq_false_iff, ne_eq, produces_iff]
        rintro ⟨action, got, heq, hprocessing, haction⟩
        cases heq
        rw [hput _ hprocessing] at haction
        simp at haction
      change source.readyToProduce source' = true
      rw [hkept]
      exact h.starting hold
    case ofProducer => exact hof
  · have hsame : s'.worker producer = t.worker producer := by
      rw [hw.worker, Function.update_of_ne (Ne.symm he)]
    have hkept : source' = t.source := by
      apply hsource
      rw [Bool.eq_false_iff, ne_eq, produces_iff]
      rintro ⟨action, got, heq, -⟩
      cases heq
      exact he rfl
    subst source'
    constructor
    case asked =>
      intro todo hphase htodo
      change s'.worker producer = .idle ∧ _
      rw [hsame]
      exact h.asked todo (hw.phase ▸ hphase) htodo
    case producing =>
      intro todo hphase htodo
      change s'.worker producer = .idle ∧ _
      rw [hsame]
      exact h.producing todo (hw.phase ▸ hphase) htodo
    case starting =>
      intro hstart
      change (s'.worker producer).Starting at hstart
      rw [hsame] at hstart
      exact h.starting hstart
    case ofProducer =>
      change (s'.worker producer).OfProducer
      rw [hsame]
      exact h.ofProducer

/-- Nothing comes in a step of the pipeline. -/
theorem step_arrived {event : Event E P C} {t' : SourcedState E P C S A O}
    (hs : t.step producer source net (.pipeline event) = some t') : t'.arrived = t.arrived := by
  simp only [SourcedState.step] at hs
  split at hs
  case isFalse => cases hs
  case isTrue =>
    obtain ⟨s', -, hs⟩ := Option.bind_eq_some_iff.mp hs
    split at hs
    · obtain ⟨o, -, rfl⟩ := Option.map_eq_some_iff.mp hs
      rfl
    · cases hs
      rfl

omit [DecidableEq P] [DecidableEq C] in
/-- Only from a producer that is ready something is put. -/
theorem ready_of_produces {event : Event E P C} (h : Primed producer source t)
    (hproduces : t.produces producer event = true) :
    source.readyToProduce t.source = true := by
  obtain ⟨-, got, -, hw, -⟩ := produces_iff.mp hproduces
  apply h.starting
  rw [hw]
  trivial

theorem Primed.step {first : Nat} {event : SourcedEvent E P C A} {t' : SourcedState E P C S A O}
    (h : Primed producer source t) (hlawful : source.Lawful valid)
    (hproducer : net.isProducer producer = true) (ha : Accounted net t.toPipelineState)
    (hf : Framed net first t.toPipelineState) (hs : t.step producer source net event = some t') :
    Primed producer source t' ∧ Accounted net t'.toPipelineState ∧
      Framed net first t'.toPipelineState ∧
      ((∃ a, t'.source = source.arrives t.source a ∧ t'.arrived = t.arrived ++ [a] ∧
          t'.produced = t.produced) ∨
        (t'.source = t.source ∧ t'.arrived = t.arrived ∧ t'.produced = t.produced) ∨
        ∃ o, source.produce t.source = some (o, t'.source) ∧ valid o ∧ t'.arrived = t.arrived ∧
          t'.produced = t.produced ++ [o]) := by
  cases event with
  | arrives a =>
    cases hs
    exact ⟨h.arrives hlawful a, ha, hf, .inl ⟨a, rfl, rfl, rfl⟩⟩
  | pipeline event =>
    simp only [SourcedState.step] at hs
    split at hs
    case isFalse => cases hs
    case isTrue hanswers =>
      obtain ⟨s', hs', hs⟩ := Option.bind_eq_some_iff.mp hs
      have hprimed {source' : S} {os : List O}
          (hsource : t.produces producer event = false → source' = t.source) :
          Primed producer source ⟨s', source', t.arrived, os⟩ := by
        cases event with
        | schedule order answer =>
          cases hsource rfl
          have hkept := h.schedule ha hf hproducer hanswers hs'
          exact ⟨hkept.asked, hkept.producing, hkept.starting, hkept.ofProducer⟩
        | work e action => exact h.work ha hproducer hs' hsource
      split at hs
      case isTrue hproduces =>
        obtain ⟨⟨o, s''⟩, ho, rfl⟩ := Option.map_eq_some_iff.mp hs
        obtain ⟨o', s₁, ho', hvalid⟩ := hlawful.produces _ (ready_of_produces h hproduces)
        cases ho.symm.trans ho'
        refine ⟨hprimed fun hnot => ?_, ha.step hs', hf.step ha hs', .inr (.inr ?_)⟩
        · cases hnot.symm.trans hproduces
        · exact ⟨o, ho, hvalid, rfl, rfl⟩
      case isFalse =>
        cases hs
        exact ⟨hprimed fun _ => rfl, ha.step hs', hf.step ha hs', .inr (.inl ⟨rfl, rfl, rfl⟩)⟩

/-- What is kept by what comes and what is put holds in every state reached; and what is put is as
it should be, also the next time. -/
theorem invariant {J : S → List A → List O → Prop} {first : Nat} {stale : E → Nat → Nat} {s₀ : S}
    (hlawful : source.Lawful valid) (hproducer : net.isProducer producer = true)
    (hstart : J s₀ [] [])
    (harrives : ∀ s a as os, J s as os → J (source.arrives s a) (as ++ [a]) os)
    (hproduces : ∀ s as os o s', J s as os → source.produce s = some (o, s') →
      J s' as (os ++ [o]))
    (h : Reaches (step producer source net) (fun _ _ => True) (.started first stale s₀) t) :
    J t.source t.arrived t.produced ∧ (∀ o ∈ t.produced, valid o) ∧
      ∀ got, t.worker producer = .processing ⟨[], got⟩ →
        ∃ o s', source.produce t.source = some (o, s') ∧ valid o := by
  have hinv : (Primed producer source t ∧ Accounted net t.toPipelineState ∧
      Framed net first t.toPipelineState) ∧ J t.source t.arrived t.produced ∧
      ∀ o ∈ t.produced, valid o := by
    refine h.invariant (I := fun t => (Primed producer source t ∧
      Accounted net t.toPipelineState ∧ Framed net first t.toPipelineState) ∧
      J t.source t.arrived t.produced ∧ ∀ o ∈ t.produced, valid o) ?_ ?_
    · refine ⟨⟨⟨?_, ?_, False.elim, trivial⟩, started_accounted first stale, started_framed⟩,
        hstart, ?_⟩
      · exact fun _ hphase => by cases hphase
      · exact fun _ hphase => by cases hphase
      · exact fun o ho => absurd ho List.not_mem_nil
    · intro t event t' ⟨⟨hprimed, ha, hf⟩, hJ, hvalid⟩ _ hs
      obtain ⟨hprimed', ha', hf', hsource⟩ := hprimed.step hlawful hproducer ha hf hs
      refine ⟨⟨hprimed', ha', hf'⟩, ?_⟩
      rcases hsource with ⟨a, hs', has, hos⟩ | ⟨hs', has, hos⟩ | ⟨o, ho, hv, has, hos⟩
      · rw [hs', has, hos]
        exact ⟨harrives _ _ _ _ hJ, hvalid⟩
      · rw [hs', has, hos]
        exact ⟨hJ, hvalid⟩
      · rw [has, hos]
        refine ⟨hproduces _ _ _ _ _ hJ ho, fun o' ho' => ?_⟩
        rcases List.mem_append.mp ho' with ho' | ho'
        · exact hvalid o' ho'
        · exact List.mem_singleton.mp ho' ▸ hv
  obtain ⟨⟨hprimed, -, -⟩, hJ, hvalid⟩ := hinv
  refine ⟨hJ, hvalid, fun got hw => hlawful.produces _ (hprimed.starting ?_)⟩
  rw [hw]
  trivial

end SourcedState

end ParleVision.Runtime
