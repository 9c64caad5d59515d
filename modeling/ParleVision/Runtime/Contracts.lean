import ParleVision.Runtime.Consumption
import ParleVision.Runtime.Realised
import ParleVision.Runtime.Sequential

namespace ParleVision.Runtime
open ParleVision.Lib

variable {E P C V M : Type}

/-- What may be put on an output pin, what an input pin may be given, and what the members of an
element are between two runs. -/
structure Contracts (E P C V M : Type) where
  offers : P → V → Prop
  accepts : C → V → Prop
  members : E → M → Prop

/-- As long as it gets what its pins accept, it puts what they offer. -/
def Program.Keeps (k : Contracts E P C V M) (e : E) : Program P C V M → Prop
  | .get c next => ∀ v, k.accepts c v → (next v).Keeps k e
  | .clear _ next => next.Keeps k e
  | .put p v next => k.offers p v ∧ next.Keeps k e
  | .setError next => next.Keeps k e
  | .returns _ members => k.members e members
  | .throws => True

/-- Both ends of each connection agree, and each element keeps its part. -/
structure Contracts.Kept (k : Contracts E P C V M) (net : Network E P C)
    (process : E → Nat → M → Program P C V M) : Prop where
  agree : ∀ c v, k.offers (net.fromPin c) v → k.accepts c v
  process : ∀ e serial members, k.members e members → (process e serial members).Keeps k e

section
variable (k : Contracts E P C V M) (net : Network E P C)

def Values.Accepted (v : Values E P C V M) : Prop :=
  ∀ c x, some x ∈ v.payloads c → k.accepts c x

structure HoldsFor (e : E) (members : M) (program : Program P C V M) (w : Worker P C) : Prop where
  held : k.members e members
  keeps : program.Keeps k e
  putting : ∀ calls todo pushed, w = .putting calls todo pushed →
    ∃ p x next, program = .put p x next ∧ ∀ c ∈ todo, net.fromPin c = p

structure Holds (t : ValuedState E P C V M) : Prop where
  accepted : t.toValues.Accepted k
  element : ∀ e, HoldsFor k net e (t.members e) (t.program e) (t.worker e)

end

section
variable {k : Contracts E P C V M} {net : Network E P C}
  {process : E → Nat → M → Program P C V M} {e : E} {v : Values E P C V M}

section
variable [DecidableEq C]

theorem Values.Accepted.push (h : v.Accepted k) {c : C} {item : Option V}
    (hitem : ∀ x, item = some x → k.accepts c x) : (v.push c item).Accepted k := by
  intro c' x hx
  by_cases hc : c' = c
  · subst c'
    change some x ∈ Function.update v.payloads c _ c at hx
    rw [Function.update_self] at hx
    rcases List.mem_append.mp hx with hx | hx
    · exact h c x hx
    · exact hitem x (List.mem_singleton.mp hx).symm
  · change some x ∈ Function.update v.payloads c _ c' at hx
    rw [Function.update_of_ne hc] at hx
    exact h c' x hx

theorem Values.Accepted.take (h : v.Accepted k) (c : C) : (v.take c).Accepted k := by
  intro c' x hx
  by_cases hc : c' = c
  · subst c'
    change some x ∈ Function.update v.payloads c _ c at hx
    rw [Function.update_self] at hx
    exact h c x (List.mem_of_mem_tail hx)
  · change some x ∈ Function.update v.payloads c _ c' at hx
    rw [Function.update_of_ne hc] at hx
    exact h c' x hx

end

/-- What a step of a run leaves of what the element computes. -/
structure Values.KeptBy (k : Contracts E P C V M) (e : E) (v : Values E P C V M) : Prop where
  accepted : v.Accepted k
  members : k.members e (v.members e)
  program : (v.program e).Keeps k e

section
variable [DecidableEq E]

theorem Values.KeptBy.goOn (h : v.KeptBy k e) {program : Program P C V M}
    (hprogram : program.Keeps k e) : (v.goOn e program).KeptBy k e where
  accepted := h.accepted
  members := h.members
  program := by
    change (Function.update v.program e program e).Keeps k e
    rw [Function.update_self]
    exact hprogram

theorem Values.KeptBy.setMembers (h : v.KeptBy k e) {members : M}
    (hmembers : k.members e members) : (v.setMembers e members).KeptBy k e where
  accepted := h.accepted
  members := by
    change k.members e (Function.update v.members e members e)
    rw [Function.update_self]
    exact hmembers
  program := h.program

variable [DecidableEq C]

omit [DecidableEq E] in
theorem Values.KeptBy.take (h : v.KeptBy k e) (c : C) : (v.take c).KeptBy k e :=
  ⟨h.accepted.take c, h.members, h.program⟩

omit [DecidableEq E] in
theorem Values.KeptBy.push (h : v.KeptBy k e) {c : C} {item : Option V}
    (hitem : ∀ x, item = some x → k.accepts c x) : (v.push c item).KeptBy k e :=
  ⟨h.accepted.push hitem, h.members, h.program⟩

theorem Values.KeptBy.processing (h : v.KeptBy k e) (calls : Calls P C) :
    (v.process e calls).KeptBy k e := by
  have hprogram := h.program
  unfold Values.process
  split
  case h_1 c next hp =>
    rw [hp] at hprogram
    split
    · exact h
    · split
      case h_1 x rest hc =>
        -- the item that is taken is one the pin accepts
        have hx : k.accepts c x := h.accepted c x (hc ▸ List.mem_cons_self ..)
        exact (h.take c).goOn (hprogram x hx)
      case h_2 => exact h.take c
  case h_2 c next hp =>
    rw [hp] at hprogram
    split
    · exact h
    · exact (h.take c).goOn hprogram
  case h_5 next hp =>
    rw [hp] at hprogram
    exact h.goOn hprogram
  case h_6 b members hp =>
    rw [hp] at hprogram
    exact h.setMembers hprogram
  all_goals exact h

theorem Values.KeptBy.work (hk : k.Kept net process) (h : v.KeptBy k e) {w : Worker P C}
    (hw : HoldsFor k net e (v.members e) (v.program e) w) :
    (v.work process e w).KeptBy k e := by
  unfold Values.work
  split
  case h_1 serial => exact h.goOn (hk.process e serial _ h.members)
  case h_2 c todo => exact h.take c
  case h_3 calls => exact h.processing calls
  case h_4 calls c todo =>
    obtain ⟨p, x, next, hp, htodo⟩ := hw.putting calls (c :: todo) false rfl
    have hprogram := hw.keeps
    rw [hp] at hprogram
    rw [hp]
    refine h.push fun y hy => ?_
    cases hy
    apply hk.agree
    rw [htodo c (List.mem_cons_self ..)]
    exact hprogram.1
  case h_5 calls pushed =>
    obtain ⟨p, x, next, hp, -⟩ := hw.putting calls [] pushed rfl
    have hprogram := hw.keeps
    rw [hp] at hprogram
    rw [hp]
    exact h.goOn hprogram.2
  case h_6 c todo result => exact h.push fun _ hx => by cases hx
  case h_7 => exact h

variable [DecidableEq P] {s s' : PipelineState E P C} {action : Action P C}

theorem process_putting {calls calls' : Calls P C} {todo : List C} {pushed : Bool}
    (hs : s.process net e calls' action = some s') (hworker : s.worker e = .processing calls')
    (hw : s'.worker e = .putting calls todo pushed) :
    ∃ p, action = .put p ∧ todo = net.outputs p := by
  have hgoto {t : PipelineState E P C} {w : Worker P C} (h : some (t.goto e w) = some s') :
      w = .putting calls todo pushed := by
    rw [← hw, ← Option.some.inj h, goto_worker]
  cases action with
  | put p =>
    simp only [PipelineState.process] at hs
    split at hs
    case isFalse => cases hs
    case isTrue =>
      split at hs
      · cases hgoto hs
      · cases hgoto hs
        exact ⟨p, rfl, rfl⟩
  | get c =>
    simp only [PipelineState.process] at hs
    split at hs
    case isFalse => cases hs
    case isTrue =>
      split at hs
      · cases hgoto hs
      · split at hs
        · cases hgoto hs
        · have hputting := hgoto hs
          split at hputting
          all_goals cases hputting
  | clear c =>
    simp only [PipelineState.process] at hs
    split at hs
    case isFalse => cases hs
    case isTrue =>
      split at hs
      · cases hgoto hs
      · split at hs
        all_goals cases hgoto hs
  | setError =>
    cases hs
    cases hworker.symm.trans hw
  | returns b => cases hgoto hs
  | throws => cases hgoto hs

/-- A run that puts has just begun to, or goes on. -/
theorem work_putting {calls : Calls P C} {todo : List C} {pushed : Bool}
    (hs : s.work net e action = some s') (hw : s'.worker e = .putting calls todo pushed) :
    (∃ p calls', action = .put p ∧ todo = net.outputs p ∧ s.worker e = .processing calls') ∨
      ∃ c todo' pushed', s.worker e = .putting calls (c :: todo') pushed' ∧ todo ⊆ c :: todo' := by
  have hgoto {t : PipelineState E P C} {w : Worker P C} (h : some (t.goto e w) = some s') :
      w = .putting calls todo pushed := by
    rw [← hw, ← Option.some.inj h, goto_worker]
  cases hworker : s.worker e with
  | idle =>
    simp only [PipelineState.work, hworker] at hs
    cases hs
  | dispatched serial =>
    simp only [PipelineState.work, hworker] at hs
    split at hs
    · cases hgoto hs
    · cases hs
  | entered serial =>
    simp only [PipelineState.work, hworker] at hs
    split at hs
    all_goals
      split at hs
      · cases hgoto hs
      · cases hs
  | peeking todo' nullDetected =>
    cases todo' with
    | nil =>
      simp only [PipelineState.work, hworker] at hs
      have hputting := hgoto hs
      split at hputting
      all_goals cases hputting
    | cons c todo' =>
      simp only [PipelineState.work, hworker] at hs
      split at hs
      · split at hs
        all_goals cases hgoto hs
      · cases hgoto hs
  | flushing todo' =>
    cases todo' with
    | nil =>
      simp only [PipelineState.work, hworker] at hs
      cases hgoto hs
    | cons c todo' =>
      simp only [PipelineState.work, hworker] at hs
      split at hs
      all_goals cases hgoto hs
  | processing calls' =>
    simp only [PipelineState.work, hworker] at hs
    obtain ⟨p, haction, htodo⟩ := process_putting hs hworker hw
    exact .inl ⟨p, calls', haction, htodo, rfl⟩
  | putting calls' todo' pushed' =>
    right
    cases todo' with
    | nil =>
      simp only [PipelineState.work, hworker] at hs
      cases hgoto hs
    | cons c todo' =>
      cases pushed' with
      | false =>
        simp only [PipelineState.work, hworker] at hs
        cases hgoto hs
        exact ⟨c, todo', false, rfl, fun _ => id⟩
      | true =>
        simp only [PipelineState.work, hworker] at hs
        split at hs
        · cases hs
        · cases hgoto hs
          exact ⟨c, todo, true, rfl, fun _ => List.mem_cons_of_mem c⟩
  | posting todo' pushed' result =>
    cases todo' with
    | nil =>
      simp only [PipelineState.work, hworker] at hs
      cases hgoto hs
    | cons c todo' =>
      cases pushed' with
      | false =>
        simp only [PipelineState.work, hworker] at hs
        cases hgoto hs
      | true =>
        simp only [PipelineState.work, hworker] at hs
        split at hs
        · cases hs
        · cases hgoto hs
  | ending result =>
    simp only [PipelineState.work, hworker] at hs
    have hputting := hgoto hs
    split at hputting
    all_goals cases hputting
  | notError | thrown | leaving =>
    simp only [PipelineState.work, hworker] at hs
    cases hgoto hs
  | finished result =>
    simp only [PipelineState.work, hworker] at hs
    cases hs

theorem Holds.step (hk : k.Kept net process) {t t' : ValuedState E P C V M} {move : Move E}
    (h : Holds k net t) (ha : Accounted net t.toPipelineState)
    (hs : t.step net process move = some t') : Holds k net t' := by
  obtain ⟨s', hs', rfl⟩ := Option.map_eq_some_iff.mp hs
  cases move with
  | schedule order answer =>
    refine ⟨h.accepted, fun e => ⟨(h.element e).held, (h.element e).keeps, ?_⟩⟩
    intro calls todo pushed hw
    rcases (schedule_cases hs').worker_cases ha e with ⟨hsame, -⟩ | ⟨-, -, hidle⟩ | ⟨serial, -, hd⟩
    · exact (h.element e).putting calls todo pushed (hsame ▸ hw)
    · cases hidle.symm.trans hw
    · cases hd.symm.trans hw
  | work e =>
    have hkept := Values.KeptBy.work hk
      ⟨h.accepted, (h.element e).held, (h.element e).keeps⟩ (h.element e)
    refine ⟨hkept.accepted, fun e' => ?_⟩
    by_cases hne : e' = e
    · subst e'
      refine ⟨hkept.members, hkept.program, fun calls todo pushed hw => ?_⟩
      change s'.worker e = _ at hw
      change ∃ p x next, (t.toValues.work process e (t.worker e)).program e = _ ∧ _
      rcases work_putting hs' hw with ⟨p, calls', haction, rfl, hold⟩ |
        ⟨c, todo', pushed', hold, hsub⟩
      · rw [hold]
        cases hp : t.program e with
        | put q x next =>
          rw [hp] at haction
          cases haction
          refine ⟨p, x, next, ?_, fun c hc => (net.mem_outputs p c).mp hc⟩
          change (t.toValues.process e calls').program e = _
          simp only [Values.process, hp]
        | _ =>
          rw [hp] at haction
          cases haction
      · obtain ⟨p, x, next, hp, htodo⟩ := (h.element e).putting calls (c :: todo') pushed' hold
        refine ⟨p, x, next, ?_, fun c' hc' => htodo c' (hsub hc')⟩
        rw [hold]
        cases pushed' with
        | false =>
          simp only [Values.work, hp]
          exact hp
        | true => exact hp
    · obtain ⟨w', hw⟩ := work_cases (ha.shaped e) hs'
      have hothers :
          (t.toValues.work process e (t.worker e)).members e' = t.members e' ∧
            (t.toValues.work process e (t.worker e)).program e' = t.program e' :=
        Values.work_others hne
      change HoldsFor k net e' ((t.toValues.work process e (t.worker e)).members e')
        ((t.toValues.work process e (t.worker e)).program e') (s'.worker e')
      rw [hothers.1, hothers.2, hw.worker, Function.update_of_ne hne]
      exact h.element e'

/-- In every state reached the items are what the pins accept, and the members what they are
promised to be. -/
theorem Holds.of_reaches (hk : k.Kept net process) {first : Nat} {stale : E → Nat → Nat}
    {members : E → M} (hmembers : ∀ e, k.members e (members e)) {t : ValuedState E P C V M}
    (h : Reaches (ValuedState.step net process) (fun _ _ => True) (.started first stale members)
      t) :
    Holds k net t := by
  have hinv : Accounted net t.toPipelineState ∧ Holds k net t := by
    refine h.invariant (I := fun t => Accounted net t.toPipelineState ∧ Holds k net t) ?_ ?_
    · refine ⟨started_accounted first stale, ?_, fun e => ⟨hmembers e, trivial, ?_⟩⟩
      · exact fun c x hx => absurd hx List.not_mem_nil
      · exact fun calls todo pushed hw => by cases hw
    · intro t move t' ⟨ha, hholds⟩ _ hs
      refine ⟨?_, hholds.step hk ha hs⟩
      obtain ⟨s', hs', rfl⟩ := Option.map_eq_some_iff.mp hs
      cases move with
      | schedule => exact ha.step hs'
      | work => exact ha.step hs'
  exact hinv.2

end

end

end ParleVision.Runtime

namespace ParleVision.Graph.Pipeline
open Lib ParleVision.Runtime

variable {s : Pipeline} {V M : Type}

/-- A pin is given values of its type; `userType` is the type of a QVariant. -/
def typed (hs : s.Inv) (userType : V → Int) (members : {p // s.IsChild p} → M → Prop) :
    Contracts {p // s.IsChild p} {r // s.HasPin r} {c // s.Connected c} V M where
  offers r v := ∀ o, s.outputPin r.1 = some o → userType v = o.m_typeId
  accepts c v := ∀ i, s.inputPin (toPin hs c) = some i → userType v = i.m_typeId
  members := members

/-- The pins of a connection have one type. -/
theorem typed_agree (hs : s.Inv) {userType : V → Int}
    {members : {p // s.IsChild p} → M → Prop} (pins : HashOrder Int) (modes : PinModes)
    (c : {c // s.Connected c}) (v : V)
    (h : (typed hs userType members).offers ((network hs pins modes).fromPin c) v) :
    (typed hs userType members).accepts c v := by
  obtain ⟨k, out, inp, hk, hl⟩ := hs.ends c.2
  have hout : (fromPin hs c).1 = out := Option.get_of_eq_some _ (by rw [hl.conn])
  have hin : toPin hs c = inp := Option.get_of_eq_some _ (by rw [hl.conn])
  obtain ⟨o, i, ho, -, hi, -, htype⟩ := hl.pins
  intro i' hi'
  rw [hin, hi] at hi'
  cases hi'
  rw [← htype]
  exact h o (hout ▸ ho)

/-- From the editor to `get()`: in a pipeline whose editing only connected pins of its children, when
every element puts values of the types of its output pins as long as it gets values of the types of
its input pins, each value on its way to a pin is of the type of the pin. -/
theorem typed_delivery {isRegistered : Int → Bool} {h : HashOrder Int}
    {elems : ElemPtr → Element} (he : ∀ p, (elems p).Constructed) {m_changed : Bool}
    {es : List Edit} (ha : AllowedRun isRegistered h es (.new elems m_changed))
    (hes : edits isRegistered h es (.new elems m_changed) = some s) (userType : V → Int)
    (holds : {p // s.IsChild p} → M → Prop) :
    ∃ hs : s.Inv, ∀ (pins : HashOrder Int) (modes : PinModes) process first stale members,
      (∀ p serial m, holds p m → (process p serial m).Keeps (typed hs userType holds) p) →
      (∀ p, holds p (members p)) → ∀ t : ValuedState _ _ _ V M,
      Reaches (ValuedState.step (network hs pins modes) process) (fun _ _ => True)
        (.started first stale members) t →
      (∀ c i v, s.inputPin (toPin hs c) = some i → some v ∈ t.payloads c →
        userType v = i.m_typeId) ∧ ∀ p, holds p (t.members p) := by
  obtain ⟨g, hg, hs, -⟩ := (Inv.new he m_changed).edits h ha
  cases hes.symm.trans hg
  refine ⟨hs, fun pins modes process first stale members hkeeps hmembers t ht => ?_⟩
  have hkept : (typed hs userType holds).Kept (network hs pins modes) process :=
    ⟨typed_agree hs pins modes, hkeeps⟩
  have hholds := Holds.of_reaches hkept hmembers ht
  exact ⟨fun c i v hi hv => hholds.accepted c v hv i hi, fun p => (hholds.element p).held⟩

open ParleVision.Lifecycle.Pipeline

def sourceAndSinkGraph : Pipeline :=
  (edits (fun _ => true) (.ascending Int) sourceAndSinkEdits (.new sourceAndSink false)).getD
    (.new sourceAndSink false)

theorem sourceAndSinkGraph_edits :
    edits (fun _ => true) (.ascending Int) sourceAndSinkEdits (.new sourceAndSink false) =
      some sourceAndSinkGraph := rfl

/-- It takes an item from each pin, and puts its serial on each as a value of one type. -/
def sendSerial {E P C : Type} (net : Network E P C) (type : Int) (e : E) (serial : Nat) (m : Unit) :
    Program P C (Int × Nat) Unit :=
  (net.inputs e).foldr (fun c next => .get c fun _ => next)
    ((net.outputPins e).foldr (fun p next => .put p (type, serial) next) (.returns true m))

theorem sendSerial_keeps {E P C : Type} {net : Network E P C} {type : Int}
    {k : Contracts E P C (Int × Nat) Unit} (e : E) (serial : Nat) (m : Unit)
    (hoffers : ∀ p, k.offers p (type, serial)) (hm : k.members e m) :
    (sendSerial net type e serial m).Keeps k e := by
  have hputs (pins : List P) :
      (pins.foldr (fun p next => .put p (type, serial) next)
        (.returns true m : Program P C (Int × Nat) Unit)).Keeps k e := by
    induction pins with
    | nil => exact hm
    | cons p pins ih => exact ⟨hoffers p, ih⟩
  unfold sendSerial
  induction net.inputs e with
  | nil => exact hputs _
  | cons c inputs ih => exact fun _ _ => ih

/-- All its pins are of one type. -/
theorem sourceAndSinkGraph_types (r : {r // sourceAndSinkGraph.HasPin r}) (o : OutputPin)
    (ho : sourceAndSinkGraph.outputPin r.1 = some o) : o.m_typeId = 5 := by
  have hall : ∀ p ∈ [0, 1], ∀ r ∈ sourceAndSinkGraph.outputRefs (.ascending Int) p,
      ∀ o ∈ sourceAndSinkGraph.outputPin r, o.m_typeId = 5 := by decide +kernel
  have howner : r.1.owner ∈ [0, 1] := mem_children.mpr r.2.1
  exact hall _ howner r.1 (mem_outputRefs.mpr ⟨rfl, r.2.2⟩) o ho

theorem sourceAndSinkGraph_inv : sourceAndSinkGraph.Inv := by
  obtain ⟨g, hg, hs, -⟩ :=
    (Inv.new sourceAndSink_constructed false).edits (.ascending Int) sourceAndSink_allowed
  cases sourceAndSinkGraph_edits.symm.trans hg
  exact hs

def sourceAndSinkNetwork : Network {p // sourceAndSinkGraph.IsChild p}
    {r // sourceAndSinkGraph.HasPin r} {c // sourceAndSinkGraph.Connected c} :=
  network sourceAndSinkGraph_inv (.ascending Int) ⟨fun _ => true, fun _ => true⟩

/-- The first number waits on the pin of the sink. -/
theorem typed_delivery_sourceAndSink :
    ∃ (hs : sourceAndSinkGraph.Inv) (t : ValuedState {p // sourceAndSinkGraph.IsChild p}
        {r // sourceAndSinkGraph.HasPin r} {c // sourceAndSinkGraph.Connected c} (Int × Nat) Unit),
      sourceAndSinkNetwork.connections.map t.payloads = [[some (5, 1)]] ∧
      ∀ c i v, sourceAndSinkGraph.inputPin (toPin hs c) = some i → some v ∈ t.payloads c →
        v.1 = i.m_typeId := by
  obtain ⟨hs, htyped⟩ := typed_delivery (M := Unit) sourceAndSink_constructed sourceAndSink_allowed
    sourceAndSinkGraph_edits (fun v : Int × Nat => v.1) fun _ _ => True
  have hend : (run (ValuedState.step sourceAndSinkNetwork (sendSerial sourceAndSinkNetwork 5))
      (.started 1 (fun _ _ => 0) fun _ => ())
      (.schedule [] true ::
        (List.replicate 9 (.schedule sourceAndSinkNetwork.children true) ++
          (sourceAndSinkNetwork.children.take 1).flatMap fun e => List.replicate 4 (.work e)))).map
        (fun t => sourceAndSinkNetwork.connections.map t.payloads) = some [[some (5, 1)]] := by
    decide +kernel
  obtain ⟨t, ht, hpayloads⟩ := Option.map_eq_some_iff.mp hend
  refine ⟨hs, t, hpayloads, (htyped (.ascending Int) ⟨fun _ => true, fun _ => true⟩ _ 1
    (fun _ _ => 0) (fun _ => ()) (fun p serial m hm => ?_) (fun _ => trivial) t
    (.of_run (fun _ _ _ => trivial) ht)).1⟩
  exact sendSerial_keeps p serial m (fun r o ho => (sourceAndSinkGraph_types r o ho).symm) hm

end ParleVision.Graph.Pipeline
