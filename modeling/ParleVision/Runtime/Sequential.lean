import ParleVision.Runtime.Alignment
import ParleVision.Runtime.Dataflow
import ParleVision.Runtime.Wrap

namespace ParleVision.Runtime
open ParleVision.Lib

variable {E P C V M : Type}

/-- The payloads that are on their way, and what the elements compute. -/
structure Values (E P C V M : Type) where
  /-- of the items on the queue of a connection, with none for a NULL -/
  payloads : C → List (Option V)
  members : E → M
  /-- what the `process()` of an element has still to do -/
  program : E → Program P C V M

namespace Values

section
variable [DecidableEq C] (v : Values E P C V M)

def push (c : C) (item : Option V) : Values E P C V M :=
  { v with payloads := Function.update v.payloads c (v.payloads c ++ [item]) }

def take (c : C) : Values E P C V M :=
  { v with payloads := Function.update v.payloads c (v.payloads c).tail }

end

section
variable [DecidableEq E] (v : Values E P C V M)

def goOn (e : E) (program : Program P C V M) : Values E P C V M :=
  { v with program := Function.update v.program e program }

def setMembers (e : E) (members : M) : Values E P C V M :=
  { v with members := Function.update v.members e members }

variable [DecidableEq C]

def process (e : E) (calls : Calls P C) : Values E P C V M :=
  match v.program e with
  | .get c next =>
    if c ∈ calls.got then v
    else match v.payloads c with
      | some x :: _ => (v.take c).goOn e (next x)
      | _ => v.take c
  | .clear c next => if c ∈ calls.got then v else (v.take c).goOn e next
  | .put .. | .throws => v
  | .setError next => v.goOn e next
  | .returns _ members => v.setMembers e members

def work (process : E → Nat → M → Program P C V M) (e : E) : Worker P C → Values E P C V M
  | .entered serial => v.goOn e (process e serial (v.members e))
  | .flushing (c :: _) => v.take c
  | .processing calls => v.process e calls
  | .putting _ (c :: _) false =>
    match v.program e with
    | .put _ x _ => v.push c (some x)
    | _ => v
  | .putting _ [] _ =>
    match v.program e with
    | .put _ _ next => v.goOn e next
    | _ => v
  | .posting (c :: _) false _ => v.push c none
  | _ => v

end

end Values

structure ValuedState (E P C V M : Type) extends PipelineState E P C, Values E P C V M

/-- Which thread takes a step; what a `process()` does next is told by its program. -/
inductive Move (E : Type) where
  | schedule (order : List E) (answer : Bool)
  | work (e : E)

namespace ValuedState

def started (first : Nat) (stale : E → Nat → Nat) (members : E → M) : ValuedState E P C V M where
  toPipelineState := .started first stale
  payloads := fun _ => []
  members := members
  program := fun _ => .throws

/-- The step as one of the items and serials. -/
def event (t : ValuedState E P C V M) : Move E → Event E P C
  | .schedule order answer => .schedule order answer
  | .work e => .work e (t.program e).action

variable [DecidableEq E] [DecidableEq P] [DecidableEq C] (net : Network E P C)
  (process : E → Nat → M → Program P C V M)

def step (t : ValuedState E P C V M) (move : Move E) : Option (ValuedState E P C V M) :=
  (t.toPipelineState.step net (t.event move)).map fun s =>
    match move with
    | .schedule .. => ⟨s, t.toValues⟩
    | .work e => ⟨s, t.toValues.work process e (t.worker e)⟩

end ValuedState

section
variable [DecidableEq E] [DecidableEq P] [DecidableEq C] (net : Network E P C)
  (process : E → Nat → M → Program P C V M) (first : Nat) (frames : Nat → FrameState E C V M)

omit [DecidableEq E] [DecidableEq P] [DecidableEq C] in
/-- The payloads on a queue are those of the frames of their serials. -/
structure Carried (c : C) (queue : List Data) (payloads : List (Option V)) : Prop where
  payloads : payloads = queue.map fun d => (frames (d.serial - first + 1)).items c
  isNull : ∀ d ∈ queue, d.isNull = ((frames (d.serial - first + 1)).items c).isNone

/-- The rest of a `process()` gives what the whole gives. -/
structure Continues (e : E) (n : Nat) (calls : Calls P C) (out : P → Option V)
    (program : Program P C V M) : Prop where
  put : ∀ p, p ∈ calls.put ↔ (out p).isSome = true
  takes : program.TakesAll net e calls.got
  outcome : program.outcome (net.received (frames (n + 1)).items e) calls.got out =
    net.processed process e (first + n) (frames (n + 1)).items ((frames n).members e)

/-- The run of an element for the frame after the first `n` does what is to be done in it. -/
def Worker.Agrees (e : E) (n : Nat) (members : M) (program : Program P C V M) :
    Worker P C → Prop
  | .peeking todo nullDetected => members = (frames n).members e ∧
    program = process e (first + n) members ∧
    net.nullDetected (frames (n + 1)).items (net.inputs e) =
      (net.nullDetected (frames (n + 1)).items todo || nullDetected)
  | .flushing _ => members = (frames n).members e ∧
    net.nullDetected (frames (n + 1)).items (net.inputs e) = true
  | .processing calls => ∃ out, Continues net process first frames e n calls out program
  | .putting calls todo _ => ∃ p x next out, program = .put p x next ∧
    (∀ c ∈ todo, net.fromPin c = p) ∧ out p = some x ∧
    Continues net process first frames e n calls out next
  | .posting todo _ _ => members = (frames (n + 1)).members e ∧
    ∀ c ∈ todo, (frames (n + 1)).items c = none
  | _ => True

/-- What an element has come to after so many runs, the last of which may still be going on. -/
structure FollowsFor (e : E) (runs : Nat) (members : M) (program : Program P C V M)
    (w : Worker P C) : Prop where
  rested : ¬ w.underway → ¬ w.failed → members = (frames runs).members e
  agrees : ∀ n, runs = n + 1 → w.Agrees net process first frames e n members program

structure Follows (t : ValuedState E P C V M) : Prop where
  carried : ∀ c, Carried first frames c (t.m_queue c) (t.payloads c)
  element : ∀ e, FollowsFor net process first frames e (t.runs e).length (t.members e)
    (t.program e) (t.worker e)

structure Forwards (e : E) (s : PipelineState E P C) (v : Values E P C V M) : Prop where
  carried : ∀ c, Carried first frames c (s.m_queue c) (v.payloads c)
  element : FollowsFor net process first frames e (s.runs e).length (v.members e) (v.program e)
    (s.worker e)

end

section
variable [DecidableEq E] [DecidableEq P] [DecidableEq C] {net : Network E P C}
  {process : E → Nat → M → Program P C V M} {first : Nat} {frames : Nat → FrameState E C V M}

section
omit [DecidableEq E] [DecidableEq P] [DecidableEq C]
variable {c : C} {queue : List Data} {payloads : List (Option V)}

theorem Carried.push (h : Carried first frames c queue payloads) {d : Data} {item : Option V}
    (hitem : (frames (d.serial - first + 1)).items c = item) (hnull : d.isNull = item.isNone) :
    Carried first frames c (queue ++ [d]) (payloads ++ [item]) where
  payloads := by rw [List.map_append, ← h.payloads, List.map_singleton, hitem]
  isNull := by
    intro d' hd'
    rcases List.mem_append.mp hd' with hd' | hd'
    · exact h.isNull d' hd'
    · rw [List.mem_singleton.mp hd', hitem]
      exact hnull

theorem Carried.tail {d : Data} (h : Carried first frames c (d :: queue) payloads) :
    Carried first frames c queue payloads.tail where
  payloads := by rw [h.payloads]; rfl
  isNull d' hd' := h.isNull d' (List.mem_cons_of_mem _ hd')

/-- The first item is that of the frame with its serial. -/
theorem Carried.head {d : Data} {n : Nat} (h : Carried first frames c (d :: queue) payloads)
    (hd : d.serial = first + n) : d.isNull = ((frames (n + 1)).items c).isNone ∧
      payloads = (frames (n + 1)).items c :: payloads.tail := by
  have hn : d.serial - first + 1 = n + 1 := by omega
  constructor
  · rw [h.isNull d (List.mem_cons_self ..), hn]
  · rw [h.payloads, List.map_cons, List.tail_cons, hn]

end

variable {stale : E → Nat → Nat} {s : PipelineState E P C} {e : E} {n : Nat}

omit [DecidableEq E] [DecidableEq P] in
/-- The run after `n` others is that of the frame after `n` others. -/
theorem Accounted.processingSerial_eq (ha : Accounted net s)
    (hconsecutive : s.flow.announced e = List.range' first (s.flow.announced e).length)
    (hn : (s.runs e).length = n + 1) : s.processingSerial e = first + n := by
  have hruns := ha.runs_isPrefix e
  rw [hconsecutive] at hruns
  rw [(ha.element e).processing, eq_range'_of_isPrefix hruns, hn, List.range'_1_concat,
    getLastD_append]

omit [DecidableEq E] [DecidableEq P] in
/-- What a run takes from a synchronous pin is of its own frame. -/
theorem head_serial {c : C} {d : Data} {queue : List Data} (ha : Accounted net s)
    (htaken : TakenFor net s.flow e (s.worker e))
    (hconsecutive : ∀ e, s.flow.announced e = List.range' first (s.flow.announced e).length)
    (hc : c ∈ net.syncInputs e) (hu : (s.worker e).untaken c)
    (hn : (s.runs e).length = n + 1) (hq : s.m_queue c = d :: queue) : d.serial = first + n := by
  obtain ⟨htarget, hsync⟩ := (net.mem_syncInputs e c).mp hc
  have hfailed : ¬ (s.worker e).failed := fun hf =>
    Worker.failed_not_underway hf (Worker.untaken_underway hu)
  have hlength : (s.taken c).length = n := by
    have hlt := (ha.element e).untaken c htarget hu
    have hle := htaken.before hfailed c hc
    omega
  have hqueue := ha.queue_consecutive hsync (hconsecutive (net.source c))
  rw [hq, List.map_cons] at hqueue
  obtain ⟨hd, -⟩ := List.range'_eq_cons_iff.mp hqueue.symm
  rw [← hd, hlength]

namespace Continues
variable {calls : Calls P C} {out : P → Option V}

/-- What was put already is what the element makes in this frame. -/
theorem items_of_put {program : Program P C V M}
    (h : Continues net process first frames e n calls out program)
    (hcoherent : Coherent net process first frames) {c : C} (hc : net.source c = e)
    (hput : (out (net.fromPin c)).isSome = true) :
    (frames (n + 1)).items c = out (net.fromPin c) := by
  rw [hcoherent.items n e c hc, ← h.outcome]
  exact program.outcome_put_of_isSome _ _ hput

theorem get {c : C} {x : V} {next : V → Program P C V M}
    (h : Continues net process first frames e n calls out (.get c next)) (hc : net.target c = e)
    (hgot : c ∉ calls.got) (hx : (frames (n + 1)).items c = some x) :
    Continues net process first frames e n { calls with got := c :: calls.got } out (next x) where
  put := h.put
  takes := h.takes x
  outcome := by
    rw [← h.outcome]
    simp only [Program.outcome, if_neg hgot, Network.received, if_pos hc, hx]

theorem clear {c : C} {next : Program P C V M}
    (h : Continues net process first frames e n calls out (.clear c next))
    (hgot : c ∉ calls.got) :
    Continues net process first frames e n { calls with got := c :: calls.got } out next where
  put := h.put
  takes := h.takes
  outcome := by
    rw [← h.outcome]
    simp only [Program.outcome, if_neg hgot]

theorem puts {p : P} {x : V} {next : Program P C V M}
    (h : Continues net process first frames e n calls out (.put p x next))
    (hput : p ∉ calls.put) :
    Continues net process first frames e n { calls with put := p :: calls.put }
      (Function.update out p (some x)) next where
  put := by
    intro q
    change q ∈ p :: calls.put ↔ _
    rw [List.mem_cons]
    by_cases hq : q = p
    · simp [hq]
    · rw [Function.update_of_ne hq, ← h.put q]
      exact or_iff_right hq
  takes := h.takes
  outcome := by
    rw [← h.outcome]
    simp only [Program.outcome, if_neg (mt (h.put p).mpr hput)]

theorem setError {next : Program P C V M}
    (h : Continues net process first frames e n calls out (.setError next)) :
    Continues net process first frames e n calls out next :=
  ⟨h.put, h.takes, h.outcome⟩

/-- When it returns, the members are those after the frame, and the pins that were not put to have
no item in it. -/
theorem returns {b : Bool} {members : M}
    (h : Continues net process first frames e n calls out (.returns b members))
    (hcoherent : Coherent net process first frames) :
    members = (frames (n + 1)).members e ∧
      ∀ c ∈ net.posts e calls.put, (frames (n + 1)).items c = none := by
  constructor
  · rw [hcoherent.members n e, ← h.outcome]
    rfl
  · intro c hc
    obtain ⟨hsource, -, hput⟩ := (net.mem_posts e calls.put c).mp hc
    rw [hcoherent.items n e c hsource, ← h.outcome]
    exact Option.not_isSome_iff_eq_none.mp (mt (h.put _).mpr hput)

end Continues

variable {v : Values E P C V M}

theorem FollowsFor.failed {runs : Nat} {members : M} {program : Program P C V M}
    {w : Worker P C} (hw : w.failed) :
    FollowsFor net process first frames e runs members program w where
  rested _ hf := absurd hw hf
  agrees n _ := by
    cases w
    all_goals trivial

theorem FollowsFor.of_rested {runs : Nat} {members : M} {program : Program P C V M}
    {w : Worker P C} (hu : ¬ w.underway) (h : members = (frames runs).members e) :
    FollowsFor net process first frames e runs members program w where
  rested _ _ := h
  agrees n _ := by
    cases w
    all_goals first | trivial | exact absurd trivial hu

theorem FollowsFor.underway {members : M} {program : Program P C V M} {w : Worker P C}
    (hw : w.underway) (h : w.Agrees net process first frames e n members program) :
    FollowsFor net process first frames e (n + 1) members program w where
  rested hu _ := absurd hw hu
  agrees n' hn := by
    cases hn
    exact h

/-- Nothing is put or taken. -/
theorem Forwards.goto {w : Worker P C} {program : Program P C V M} {members : M}
    (hcarried : ∀ c, Carried first frames c (s.m_queue c) (v.payloads c))
    (h : FollowsFor net process first frames e (s.runs e).length members program w)
    {v' : Values E P C V M} (hpayloads : v'.payloads = v.payloads)
    (hmembers : v'.members e = members) (hprogram : v'.program e = program) :
    Forwards net process first frames e (s.goto e w) v' where
  carried c := by
    rw [hpayloads]
    exact hcarried c
  element := by
    rw [hmembers, hprogram]
    change FollowsFor net process first frames e (s.runs e).length members program
      (Function.update s.worker e w e)
    rw [Function.update_self]
    exact h

/-- An item is taken. -/
theorem Forwards.takes {w : Worker P C} {program : Program P C V M} {members : M}
    {f : Flow E C} {c : C} {d : Data} (hget : s.flow.get c = some (f, d))
    (hcarried : ∀ c, Carried first frames c (s.m_queue c) (v.payloads c))
    (h : FollowsFor net process first frames e (s.runs e).length members program w)
    {v' : Values E P C V M} (hpayloads : v'.payloads = (v.take c).payloads)
    (hmembers : v'.members e = members) (hprogram : v'.program e = program) :
    Forwards net process first frames e ((s.withFlow f).goto e w) v' := by
  obtain ⟨queue, hq, hf⟩ := get_some hget
  have hruns : f.runs = s.runs := by rw [hf]
  rw [← hruns] at h
  refine .goto (s := s.withFlow f) (v := v.take c) ?_ h hpayloads hmembers hprogram
  intro c'
  change Carried first frames c' (f.m_queue c')
    (Function.update v.payloads c (v.payloads c).tail c')
  rw [hf]
  change Carried first frames c' (Function.update s.m_queue c queue c') _
  by_cases hc : c' = c
  · subst c'
    have hold := hcarried c
    rw [hq] at hold
    rw [Function.update_self, Function.update_self]
    exact hold.tail
  · rw [Function.update_of_ne hc, Function.update_of_ne hc]
    exact hcarried c'

/-- An item is put. -/
theorem Forwards.pushes {w : Worker P C} {program : Program P C V M} {members : M} {c : C}
    {item : Option V} (hserial : s.processingSerial (net.source c) = first + n)
    (hitem : (frames (n + 1)).items c = item)
    (hcarried : ∀ c, Carried first frames c (s.m_queue c) (v.payloads c))
    (h : FollowsFor net process first frames e (s.runs e).length members program w)
    {v' : Values E P C V M} (hpayloads : v'.payloads = (v.push c item).payloads)
    (hmembers : v'.members e = members) (hprogram : v'.program e = program) :
    Forwards net process first frames e
      ((s.withFlow (s.flow.push net c item.isNone)).goto e w) v' := by
  refine .goto (s := s.withFlow (s.flow.push net c item.isNone)) (v := v.push c item) ?_ h
    hpayloads hmembers hprogram
  intro c'
  change Carried first frames c'
    (Function.update s.m_queue c (s.m_queue c ++ [_]) c')
    (Function.update v.payloads c (v.payloads c ++ [item]) c')
  by_cases hc : c' = c
  · subst c'
    rw [Function.update_self, Function.update_self]
    refine (hcarried c).push ?_ rfl
    change (frames (s.processingSerial (net.source c) - first + 1)).items c = item
    rw [hserial, Nat.add_sub_cancel_left, hitem]
  · rw [Function.update_of_ne hc, Function.update_of_ne hc]
    exact hcarried c'

omit [DecidableEq E] [DecidableEq P] in
/-- Nothing is taken from an empty queue. -/
theorem Carried.take_payloads {c : C}
    (h : Carried first frames c (s.m_queue c) (v.payloads c)) (hget : s.flow.get c = none) :
    v.payloads c = [] ∧ (v.take c).payloads = v.payloads := by
  have hq : s.m_queue c = [] := by
    unfold Flow.get at hget
    split at hget
    · assumption
    · cases hget
  have hempty : v.payloads c = [] := by rw [h.payloads, hq, List.map_nil]
  refine ⟨hempty, ?_⟩
  change Function.update v.payloads c (v.payloads c).tail = v.payloads
  rw [hempty, List.tail_nil, ← hempty, Function.update_eq_self]

/-- A step of a `process()`. -/
theorem Forwards.processing {calls : Calls P C} {s' : PipelineState E P C}
    (hcoherent : Coherent net process first frames)
    (hcarried : ∀ c, Carried first frames c (s.m_queue c) (v.payloads c))
    (hn : (s.runs e).length = n + 1)
    (hhead : ∀ c d queue, net.target c = e → c ∉ calls.got → s.m_queue c = d :: queue →
      d.serial = first + n)
    (hw : s.worker e = .processing calls)
    (h : ∃ out, Continues net process first frames e n calls out (v.program e))
    (hs : s.process net e calls (v.program e).action = some s') :
    Forwards net process first frames e s' (v.process e calls) := by
  obtain ⟨out, h⟩ := h
  have hfailed : FollowsFor net process first frames e (s.runs e).length (v.members e)
      (v.program e) (.thrown : Worker P C) := .failed trivial
  have hrunning {calls' : Calls P C} {out' : P → Option V} {members : M}
      {program : Program P C V M}
      (hc : Continues net process first frames e n calls' out' program) :
      FollowsFor net process first frames e (s.runs e).length members program
        (.processing calls' : Worker P C) := by
    rw [hn]
    exact .underway trivial ⟨out', hc⟩
  cases hp : v.program e with
  | get c next =>
    rw [hp] at h hs
    simp only [Program.action, PipelineState.process] at hs
    simp only [Values.process, hp]
    split at hs
    case isFalse => cases hs
    case isTrue hc =>
      split at hs
      case isTrue hgot =>
        cases hs
        rw [if_pos hgot]
        exact .goto hcarried hfailed rfl rfl rfl
      case isFalse hgot =>
        rw [if_neg hgot]
        split at hs
        case h_1 hget =>
          cases hs
          obtain ⟨hempty, hsame⟩ := (hcarried c).take_payloads hget
          rw [hempty]
          exact .goto hcarried hfailed hsame rfl rfl
        case h_2 f d hget =>
          cases hs
          obtain ⟨queue, hq, -⟩ := get_some hget
          have hfirst := hcarried c
          rw [hq] at hfirst
          obtain ⟨hnull, hpayloads⟩ := hfirst.head (hhead c d queue hc hgot hq)
          rw [hpayloads]
          -- the item is a NULL just when it has no payload
          cases hitem : (frames (n + 1)).items c with
          | none =>
            rw [hnull, hitem]
            exact .takes hget hcarried hfailed rfl rfl rfl
          | some x =>
            rw [hnull, hitem]
            exact .takes hget hcarried (hrunning (h.get hc hgot hitem)) rfl rfl
              (Function.update_self ..)
  | clear c next =>
    rw [hp] at h hs
    simp only [Program.action, PipelineState.process] at hs
    simp only [Values.process, hp]
    split at hs
    case isFalse => cases hs
    case isTrue hc =>
      split at hs
      case isTrue hgot =>
        cases hs
        rw [if_pos hgot]
        exact .goto hcarried hfailed rfl rfl rfl
      case isFalse hgot =>
        rw [if_neg hgot]
        split at hs
        case h_1 hget =>
          cases hs
          obtain ⟨-, hsame⟩ := (hcarried c).take_payloads hget
          exact .goto hcarried (.failed (w := .thrown) trivial) hsame rfl rfl
        case h_2 f d hget =>
          cases hs
          exact .takes hget hcarried (hrunning (h.clear hgot)) rfl rfl (Function.update_self ..)
  | put p x next =>
    rw [hp] at h hs
    simp only [Program.action, PipelineState.process] at hs
    simp only [Values.process, hp]
    split at hs
    case isFalse => cases hs
    case isTrue hc =>
      split at hs
      case isTrue hput =>
        cases hs
        exact .goto hcarried hfailed rfl rfl rfl
      case isFalse hput =>
        cases hs
        refine .goto hcarried ?_ rfl rfl rfl
        rw [hn]
        refine .underway trivial ⟨p, x, next, _, hp, ?_, ?_, h.puts hput⟩
        · exact fun c hc => (net.mem_outputs p c).mp hc
        · exact Function.update_self ..
  | setError next =>
    rw [hp] at h hs
    cases hs
    simp only [Values.process, hp]
    refine ⟨hcarried, ?_⟩
    change FollowsFor net process first frames e (s.runs e).length (v.members e)
      (Function.update v.program e next e) (s.worker e)
    rw [Function.update_self, hw]
    exact hrunning h.setError
  | returns b members =>
    rw [hp] at h hs
    cases hs
    simp only [Values.process, hp]
    refine .goto hcarried ?_ rfl (Function.update_self ..) rfl
    rw [hn]
    exact .underway trivial (h.returns hcoherent)
  | throws =>
    rw [hp] at hs
    cases hs
    simp only [Values.process, hp]
    exact .goto hcarried hfailed rfl rfl rfl

omit [DecidableEq E] [DecidableEq P] in
/-- A run that was begun. -/
theorem exists_runs_length (ha : Accounted net s) (hu : (s.worker e).underway) :
    ∃ n, (s.runs e).length = n + 1 :=
  Nat.exists_eq_succ_of_ne_zero fun h => (ha.element e).begun hu (List.length_eq_zero_iff.mp h)

/-- What is to be put is not announced yet. -/
theorem Forwards.announces {c : C} {f : Flow E C} {w : Worker P C}
    (hf : s.flow.newData net c = some f)
    (hcarried : ∀ c, Carried first frames c (s.m_queue c) (v.payloads c))
    (h : FollowsFor net process first frames e (s.runs e).length (v.members e) (v.program e) w) :
    Forwards net process first frames e ((s.withFlow f).goto e w) v := by
  have hannounces := newData_announces hf
  rw [← hannounces.runs] at h
  refine .goto (s := s.withFlow f) ?_ h rfl rfl rfl
  intro c'
  change Carried first frames c' (f.m_queue c') _
  rw [hannounces.m_queue]
  exact hcarried c'

/-- Where it begins, each element has come to the frame after those it was run for. -/
theorem Forwards.begins {serial : Nat} {s' : PipelineState E P C}
    (hserial : serial = first + (s.runs e).length)
    (htakes : ∀ e serial members, (process e serial members).TakesAll net e [])
    (hcarried : ∀ c, Carried first frames c (s.m_queue c) (v.payloads c))
    (hmembers : v.members e = (frames (s.runs e).length).members e)
    (hw : s.worker e = .entered serial)
    (hs : s.work net e (v.program e).action = some s') :
    Forwards net process first frames e s' (v.work process e (.entered serial)) := by
  have hruns : ((s.flow.setProcessingSerial e serial).runs e).length = (s.runs e).length + 1 := by
    change (Function.update s.runs e (s.runs e ++ [serial]) e).length = _
    rw [Function.update_self, List.length_append, List.length_singleton]
  have hprogram : (v.work process e (.entered serial : Worker P C)).program e =
      process e serial (v.members e) := Function.update_self ..
  have hbegin {w : Worker P C} (hu : w.underway)
      (h : w.Agrees net process first frames e (s.runs e).length (v.members e)
        (process e serial (v.members e))) :
      Forwards net process first frames e
        ((s.withFlow (s.flow.setProcessingSerial e serial)).goto e w)
        (v.work process e (.entered serial)) := by
    refine .goto (s := s.withFlow (s.flow.setProcessingSerial e serial)) hcarried ?_ rfl rfl hprogram
    change FollowsFor net process first frames e
      ((s.flow.setProcessingSerial e serial).runs e).length _ _ _
    rw [hruns]
    exact .underway hu h
  unfold PipelineState.work at hs
  simp only [hw] at hs
  split at hs
  case isTrue hproducer =>
    split at hs
    case isFalse => cases hs
    case isTrue =>
      cases hs
      refine hbegin trivial ⟨fun _ => none, ⟨by simp, htakes .., ?_⟩⟩
      rw [← hserial, hmembers, Network.processed, net.producer_inputs e hproducer,
        if_neg (by simp [Network.nullDetected])]
  case isFalse =>
    split at hs
    case isFalse => cases hs
    case isTrue =>
      cases hs
      exact hbegin trivial ⟨hmembers, by rw [hserial], (Bool.or_false _).symm⟩

/-- The run goes on in the frame it is for. -/
theorem Values.followsFor (v : Values E P C V M) (hn : (s.runs e).length = n + 1) {w : Worker P C}
    (h : w.underway ∧ w.Agrees net process first frames e n (v.members e) (v.program e)) :
    FollowsFor net process first frames e (s.runs e).length (v.members e) (v.program e) w := by
  rw [hn]
  exact .underway h.1 h.2

/-- The run looks for a NULL, and goes to `process()` when there is none. -/
theorem Forwards.peeking {todo : List C} {nullDetected : Bool} {s' : PipelineState E P C}
    (htakes : ∀ e serial members, (process e serial members).TakesAll net e [])
    (hcarried : ∀ c, Carried first frames c (s.m_queue c) (v.payloads c))
    (hn : (s.runs e).length = n + 1)
    (hhead : ∀ c ∈ todo, ∀ d queue, s.m_queue c = d :: queue → d.serial = first + n)
    (hw : s.worker e = .peeking todo nullDetected)
    (h : (Worker.peeking todo nullDetected : Worker P C).Agrees net process first frames e n
      (v.members e) (v.program e))
    (hs : s.work net e (v.program e).action = some s') :
    Forwards net process first frames e s' (v.work process e (.peeking todo nullDetected)) := by
  obtain ⟨hmembers, hprogram, hnull⟩ := h
  cases todo with
  | nil =>
    simp only [PipelineState.work, hw] at hs
    cases hs
    change _ = (false || nullDetected) at hnull
    rw [Bool.false_or] at hnull
    refine .goto hcarried (v.followsFor hn ?_) rfl rfl rfl
    cases nullDetected with
    | true => exact ⟨trivial, hmembers, hnull⟩
    | false =>
      refine ⟨trivial, fun _ => none, ⟨by simp, ?_, ?_⟩⟩
      · rw [hprogram]
        exact htakes ..
      · rw [hprogram, hmembers, Network.processed, hnull]
        rfl
  | cons c todo =>
    rw [net.nullDetected_cons] at hnull
    simp only [PipelineState.work, hw] at hs
    split at hs
    case isTrue hguaranteed =>
      split at hs
      case h_1 =>
        cases hs
        exact .goto hcarried (.failed (w := .thrown) trivial) rfl rfl rfl
      case h_2 d queue hq =>
        cases hs
        have hfirst := hcarried c
        rw [hq] at hfirst
        obtain ⟨hd, -⟩ := hfirst.head (hhead c (by simp) d queue hq)
        refine .goto hcarried (v.followsFor hn ?_) rfl rfl rfl
        refine ⟨trivial, hmembers, hprogram, ?_⟩
        rw [hnull, hguaranteed, Bool.true_and, hd]
        ac_rfl
    case isFalse hguaranteed =>
      cases hs
      refine .goto hcarried (v.followsFor hn ?_) rfl rfl rfl
      refine ⟨trivial, hmembers, hprogram, ?_⟩
      rw [hnull, Bool.eq_false_of_not_eq_true hguaranteed]
      rfl

/-- The run takes the items of a frame with a NULL, and makes nothing of them. -/
theorem Forwards.flushing {todo : List C} {s' : PipelineState E P C}
    (hcoherent : Coherent net process first frames)
    (hcarried : ∀ c, Carried first frames c (s.m_queue c) (v.payloads c))
    (hn : (s.runs e).length = n + 1) (hw : s.worker e = .flushing todo)
    (h : (Worker.flushing todo : Worker P C).Agrees net process first frames e n (v.members e)
      (v.program e))
    (hs : s.work net e (v.program e).action = some s') :
    Forwards net process first frames e s' (v.work process e (.flushing todo)) := by
  obtain ⟨hmembers, hnull⟩ := h
  cases todo with
  | nil =>
    simp only [PipelineState.work, hw] at hs
    cases hs
    have hprocessed : net.processed process e (first + n) (frames (n + 1)).items
        ((frames n).members e) = ⟨fun _ => none, some ((frames n).members e)⟩ := by
      rw [Network.processed, if_pos hnull]
    refine .goto hcarried (v.followsFor hn ?_) rfl rfl rfl
    refine ⟨trivial, ?_, fun c hc => ?_⟩
    · rw [hmembers, hcoherent.members n e, hprocessed]
      rfl
    · rw [hcoherent.items n e c ((net.mem_posts e [] c).mp hc).1, hprocessed]
  | cons c todo =>
    simp only [PipelineState.work, hw] at hs
    split at hs
    case h_1 hget =>
      cases hs
      exact .goto hcarried (.failed (w := .thrown) trivial) ((hcarried c).take_payloads hget).2 rfl
        rfl
    case h_2 f d hget =>
      cases hs
      refine .takes hget hcarried (v.followsFor hn ?_) rfl rfl rfl
      exact ⟨trivial, hmembers, hnull⟩

/-- The run puts an item on the connections of a pin. -/
theorem Forwards.putting {calls : Calls P C} {todo : List C} {pushed : Bool}
    {s' : PipelineState E P C} (hcoherent : Coherent net process first frames)
    (hcarried : ∀ c, Carried first frames c (s.m_queue c) (v.payloads c))
    (hn : (s.runs e).length = n + 1) (hserial : s.processingSerial e = first + n)
    (hsource : ∀ c ∈ todo, net.source c = e) (hw : s.worker e = .putting calls todo pushed)
    (h : (Worker.putting calls todo pushed).Agrees net process first frames e n (v.members e)
      (v.program e))
    (hs : s.work net e (v.program e).action = some s') :
    Forwards net process first frames e s' (v.work process e (.putting calls todo pushed)) := by
  obtain ⟨p, x, next, out, hprogram, hpins, hput, hcontinues⟩ := h
  cases todo with
  | nil =>
    simp only [PipelineState.work, hw] at hs
    cases hs
    have hnext : FollowsFor net process first frames e (s.runs e).length (v.members e) next
        (.processing calls : Worker P C) := by
      rw [hn]
      exact .underway trivial ⟨out, hcontinues⟩
    refine .goto hcarried hnext ?_ ?_ ?_
    all_goals simp only [Values.work, hprogram, Values.goOn, Function.update_self]
  | cons c todo =>
    have hfrom := hsource c (by simp)
    cases pushed with
    | false =>
      simp only [PipelineState.work, hw] at hs
      cases hs
      have hitem : (frames (n + 1)).items c = some x := by
        rw [hcontinues.items_of_put hcoherent hfrom, hpins c (by simp), hput]
        rw [hpins c (by simp), hput]
        rfl
      have hsame : v.work process e (.putting calls (c :: todo) false : Worker P C) =
          v.push c (some x) := by
        simp only [Values.work, hprogram]
      rw [hsame]
      refine .pushes (hfrom ▸ hserial) hitem hcarried (v.followsFor hn ?_) rfl rfl rfl
      exact ⟨trivial, p, x, next, out, hprogram, hpins, hput, hcontinues⟩
    | true =>
      simp only [PipelineState.work, hw] at hs
      split at hs
      case h_1 => cases hs
      case h_2 f hf =>
        cases hs
        refine .announces hf hcarried (v.followsFor hn ?_)
        exact ⟨trivial, p, x, next, out, hprogram,
          fun c' hc' => hpins c' (List.mem_cons_of_mem _ hc'), hput, hcontinues⟩

/-- The run puts a NULL on the pins that were left out. -/
theorem Forwards.posting {todo : List C} {pushed result : Bool} {s' : PipelineState E P C}
    (hcarried : ∀ c, Carried first frames c (s.m_queue c) (v.payloads c))
    (hn : (s.runs e).length = n + 1) (hserial : s.processingSerial e = first + n)
    (hsource : ∀ c ∈ todo, net.source c = e) (hw : s.worker e = .posting todo pushed result)
    (h : (Worker.posting todo pushed result : Worker P C).Agrees net process first frames e n
      (v.members e) (v.program e))
    (hs : s.work net e (v.program e).action = some s') :
    Forwards net process first frames e s' (v.work process e (.posting todo pushed result)) := by
  obtain ⟨hmembers, hitems⟩ := h
  cases todo with
  | nil =>
    simp only [PipelineState.work, hw] at hs
    cases hs
    have hended : FollowsFor net process first frames e (s.runs e).length (v.members e)
        (v.program e) (.ending result : Worker P C) := .of_rested id (by rw [hmembers, hn])
    split
    · exact .goto (s := s.setState e _) hcarried hended rfl rfl rfl
    · exact .goto hcarried hended rfl rfl rfl
  | cons c todo =>
    have hfrom := hsource c (by simp)
    cases pushed with
    | false =>
      simp only [PipelineState.work, hw] at hs
      cases hs
      refine .pushes (hfrom ▸ hserial) (hitems c (by simp)) hcarried (v.followsFor hn ?_) rfl rfl rfl
      exact ⟨trivial, hmembers, hitems⟩
    | true =>
      simp only [PipelineState.work, hw] at hs
      split at hs
      case h_1 => cases hs
      case h_2 f hf =>
        cases hs
        refine .announces hf hcarried (v.followsFor hn ?_)
        exact ⟨trivial, hmembers, fun c' hc' => hitems c' (List.mem_cons_of_mem _ hc')⟩

/-- A step before a run has begun, or once it puts and takes nothing any more. -/
theorem Forwards.rested {s' : PipelineState E P C} (hu : ¬ (s.worker e).underway)
    (hentered : ∀ serial, s.worker e ≠ .entered serial)
    (hcarried : ∀ c, Carried first frames c (s.m_queue c) (v.payloads c))
    (h : FollowsFor net process first frames e (s.runs e).length (v.members e) (v.program e)
      (s.worker e))
    (hs : s.work net e (v.program e).action = some s') :
    Forwards net process first frames e s' (v.work process e (s.worker e)) := by
  cases hw : s.worker e with
  | idle =>
    simp only [PipelineState.work, hw] at hs
    cases hs
  | dispatched serial =>
    rw [hw] at h
    simp only [PipelineState.work, hw] at hs
    split at hs
    case isFalse => cases hs
    case isTrue =>
      cases hs
      exact .goto (s := s.setState e _) hcarried
        (.of_rested (w := .entered serial) id (h.rested id id)) rfl rfl rfl
  | entered serial => exact absurd hw (hentered serial)
  | ending result =>
    rw [hw] at h
    simp only [PipelineState.work, hw] at hs
    cases hs
    refine .goto hcarried ?_ rfl rfl rfl
    split
    · exact .of_rested id (h.rested id id)
    · exact .of_rested id (h.rested id id)
  | notError result =>
    rw [hw] at h
    simp only [PipelineState.work, hw] at hs
    cases hs
    exact .goto (s := s.setState e _) hcarried
      (.of_rested (w := .finished result) id (h.rested id id)) rfl rfl rfl
  | thrown =>
    simp only [PipelineState.work, hw] at hs
    cases hs
    exact .goto (s := s.setState e _) hcarried (.failed (w := .leaving) trivial) rfl rfl rfl
  | leaving =>
    simp only [PipelineState.work, hw] at hs
    cases hs
    exact .goto hcarried (.failed (w := .finished false) trivial) rfl rfl rfl
  | finished result =>
    simp only [PipelineState.work, hw] at hs
    cases hs
  | peeking | flushing | processing | putting | posting =>
    rw [hw] at hu
    exact absurd trivial hu

/-- Each step of a run brings its element further on the way to what the frames are. -/
theorem Forwards.work {s' : PipelineState E P C} (ha : Accounted net s)
    (htaken : TakenFor net s.flow e (s.worker e))
    (hconsecutive : ∀ e, s.flow.announced e = List.range' first (s.flow.announced e).length)
    (hsync : ∀ c, net.isSynchronous c = true)
    (htakes : ∀ e serial members, (process e serial members).TakesAll net e [])
    (hcoherent : Coherent net process first frames)
    (hcarried : ∀ c, Carried first frames c (s.m_queue c) (v.payloads c))
    (h : FollowsFor net process first frames e (s.runs e).length (v.members e) (v.program e)
      (s.worker e))
    (hs : s.work net e (v.program e).action = some s') :
    Forwards net process first frames e s' (v.work process e (s.worker e)) := by
  by_cases hu : (s.worker e).underway
  swap
  · by_cases hentered : ∃ serial, s.worker e = .entered serial
    · obtain ⟨serial, hw⟩ := hentered
      rw [hw] at h ⊢
      exact .begins (ha.entered_eq (hconsecutive e) hw).2 htakes hcarried (h.rested id id) hw hs
    · exact .rested hu (fun serial hw => hentered ⟨serial, hw⟩) hcarried h hs
  obtain ⟨n, hn⟩ := exists_runs_length ha hu
  have hagrees := h.agrees n hn
  have hshaped := ha.shaped e
  have hserial : s.processingSerial e = first + n := ha.processingSerial_eq (hconsecutive e) hn
  have hhead (c : C) (d : Data) (queue : List Data) (hc : net.target c = e)
      (hu : (s.worker e).untaken c) (hq : s.m_queue c = d :: queue) : d.serial = first + n :=
    head_serial ha htaken hconsecutive ((net.mem_syncInputs e c).mpr ⟨hc, hsync c⟩) hu hn hq
  cases hw : s.worker e with
  | peeking todo nullDetected =>
    rw [hw] at hagrees hshaped hhead
    exact .peeking htakes hcarried hn
      (fun c hc d queue hq => hhead c d queue (hshaped.1 c hc) trivial hq) hw hagrees hs
  | flushing todo =>
    rw [hw] at hagrees
    exact .flushing hcoherent hcarried hn hw hagrees hs
  | processing calls =>
    rw [hw] at hagrees hhead
    simp only [PipelineState.work, hw] at hs
    exact .processing hcoherent hcarried hn hhead hw hagrees hs
  | putting calls todo pushed =>
    rw [hw] at hagrees hshaped
    exact .putting hcoherent hcarried hn hserial (fun c hc => (hshaped.2 c hc).1) hw hagrees hs
  | posting todo pushed result =>
    rw [hw] at hagrees hshaped
    exact .posting hcarried hn hserial (fun c hc => (hshaped.2 c hc).1) hw hagrees hs
  | idle | dispatched | entered | ending | notError | thrown | leaving | finished =>
    rw [hw] at hu
    exact hu.elim

section
omit [DecidableEq P]

/-- The run of an element leaves what the others compute. -/
theorem Values.work_others {w : Worker P C} {e' : E} (hne : e' ≠ e) :
    (v.work process e w).members e' = v.members e' ∧
      (v.work process e w).program e' = v.program e' := by
  have hgoOn (v : Values E P C V M) (program : Program P C V M) :
      (v.goOn e program).members e' = v.members e' ∧
        (v.goOn e program).program e' = v.program e' :=
    ⟨rfl, Function.update_of_ne hne ..⟩
  unfold Values.work
  split
  case h_3 =>
    unfold Values.process
    split
    case h_1 =>
      split
      · exact ⟨rfl, rfl⟩
      · split
        · exact hgoOn ..
        · exact ⟨rfl, rfl⟩
    case h_2 =>
      split
      · exact ⟨rfl, rfl⟩
      · exact hgoOn ..
    case h_5 => exact hgoOn ..
    case h_6 => exact ⟨Function.update_of_ne hne .., rfl⟩
    all_goals exact ⟨rfl, rfl⟩
  case h_4 => split <;> exact ⟨rfl, rfl⟩
  case h_5 =>
    split
    · exact hgoOn ..
    · exact ⟨rfl, rfl⟩
  case h_1 => exact hgoOn ..
  all_goals exact ⟨rfl, rfl⟩

end

omit [DecidableEq P] [DecidableEq C] in
/-- The thread of the pipeline leaves the queues. -/
theorem Turn.m_queue {s' : PipelineState E P C} (h : Turn net s s') : s'.m_queue = s.m_queue := by
  cases h with
  | moves => rfl
  | reaps => rfl
  | dispatches _ _ _ _ hf => rw [hf]; rfl
  | produces _ _ _ hf => rw [hf]; rfl
  | ticks => rfl

namespace Follows
variable {t : ValuedState E P C V M}

theorem schedule {s' : PipelineState E P C} (h : Follows net process first frames t)
    (ha : Accounted net t.toPipelineState) (ht : Turn net t.toPipelineState s') :
    Follows net process first frames ⟨s', t.toValues⟩ where
  carried c := by
    change Carried first frames c (s'.m_queue c) (t.payloads c)
    rw [ht.m_queue]
    exact h.carried c
  element e := by
    change FollowsFor net process first frames e (s'.runs e).length (t.members e) (t.program e)
      (s'.worker e)
    rw [ht.records.1]
    have hold := h.element e
    rcases ht.worker_cases ha e with ⟨hw, -⟩ | ⟨-, hw, hw'⟩ | ⟨serial, hw, hw'⟩
    · rw [hw]
      exact hold
    · rw [hw] at hold
      rw [hw']
      exact .of_rested id (hold.rested id id)
    · rw [hw] at hold
      rw [hw']
      exact .of_rested id (hold.rested id id)

/-- A `process()` returns when it has taken an item from each synchronous pin. -/
theorem takesSynchronous (h : Follows net process first frames t)
    (ha : Accounted net t.toPipelineState) (move : Move E) :
    TakesSynchronous net t.toPipelineState (t.event move) := by
  cases move with
  | schedule => trivial
  | work e =>
    change TakesSynchronous net t.toPipelineState (.work e (t.program e).action)
    cases hp : t.program e with
    | returns b members =>
      change (t.worker e).TakenSynchronous net e
      cases hw : t.worker e with
      | processing calls =>
        obtain ⟨n, hn⟩ := exists_runs_length (e := e) ha (by rw [hw]; trivial)
        have hagrees := (h.element e).agrees n hn
        rw [hw] at hagrees
        obtain ⟨out, -, htakes, -⟩ := hagrees
        rw [hp] at htakes
        exact htakes
      | _ => trivial
    | _ => trivial

theorem step {stale : E → Nat → Nat} {move : Move E} {t' : ValuedState E P C V M}
    (h : Follows net process first frames t) (hi : InStep net first stale t.toPipelineState)
    (hacyclic : net.Acyclic) (hsync : ∀ c, net.isSynchronous c = true)
    (hpins : ∀ e, net.isProducer e = false → net.m_hasSynchronousPin e = true)
    (htakes : ∀ e serial members, (process e serial members).TakesAll net e [])
    (hcoherent : Coherent net process first frames)
    (hs : t.step net process move = some t') : Follows net process first frames t' := by
  have ha := hi.unwrapped.accounted
  obtain ⟨s', hs', rfl⟩ := Option.map_eq_some_iff.mp hs
  cases move with
  | schedule order answer => exact h.schedule ha (schedule_cases hs')
  | work e =>
    have hconsecutive := hi.unwrapped.serials.consecutive ha hi.framed hacyclic
      fun c => hpins _ (net.target_not_producer c)
    obtain ⟨hcarried, helement⟩ := Forwards.work (v := t.toValues) ha (hi.taken e) hconsecutive
      hsync htakes hcoherent h.carried (h.element e) hs'
    refine ⟨hcarried, fun e' => ?_⟩
    by_cases hne : e' = e
    · subst e'
      exact helement
    · obtain ⟨w', hw⟩ := work_cases (ha.shaped e) hs'
      have hmembers :
          (t.toValues.work process e (t.worker e)).members e' = t.members e' ∧
            (t.toValues.work process e (t.worker e)).program e' = t.program e' :=
        Values.work_others hne
      change FollowsFor net process first frames e' (s'.runs e').length
        ((t.toValues.work process e (t.worker e)).members e')
        ((t.toValues.work process e (t.worker e)).program e') (s'.worker e')
      rw [hmembers.1, hmembers.2, (hw.run.others hne).runs, hw.worker,
        Function.update_of_ne hne]
      exact h.element e'

end Follows

/-- What the items are and what the elements have come to is what it is when the frames are run one
after the other, and the elements one after the other for each of them. -/
structure RunsLike (frames : Nat → FrameState E C V M) (net : Network E P C) (first : Nat)
    (t : ValuedState E P C V M) : Prop where
  /-- an item on a connection is the one of the frame with its serial -/
  items : ∀ c, t.payloads c = (t.m_queue c).map fun d => (frames (d.serial - first + 1)).items c
  isNull : ∀ c, ∀ d ∈ t.m_queue c,
    d.isNull = ((frames (d.serial - first + 1)).items c).isNone
  /-- and where `__process` is entered, those of the frame are the next on all pins -/
  heads : ∀ e serial, t.worker e = .entered serial → ∀ c, net.target c = e →
    (t.payloads c).head? = some ((frames (serial - first + 1)).items c)
  /-- the members of an element that does not run are those after the frames it was run for -/
  members : ∀ e, t.worker e = .idle → t.members e = (frames (t.runs e).length).members e

/-- What is reached is in step, and on its way to what running one frame after the other gives. -/
theorem Follows.of_reaches {stale : E → Nat → Nat} {order : List E} {members : E → M}
    {t : ValuedState E P C V M} (horder : net.Topological order)
    (hsync : ∀ c, net.isSynchronous c = true)
    (hpins : ∀ e, net.isProducer e = false → net.m_hasSynchronousPin e = true)
    (htakes : ∀ e serial members, (process e serial members).TakesAll net e [])
    (hfirst : first < 2 ^ 32) (hstale : ∀ e x, first ≤ x → stale e x = 0)
    (h : Reaches (ValuedState.step net process)
      (fun t move => NotWrapping t.toPipelineState (t.event move)) (.started first stale members)
      t) :
    InStep net first stale t.toPipelineState ∧
      Follows net process first (sequential net process order first members) t := by
  have hcoherent : Coherent net process first (sequential net process order first members) :=
    sequential_coherent horder first members
  refine h.invariant (I := fun t => InStep net first stale t.toPipelineState ∧
    Follows net process first (sequential net process order first members) t)
    ⟨started_inStep hfirst, ?_⟩ ?_
  · constructor
    · exact fun c => ⟨rfl, fun d hd => absurd hd List.not_mem_nil⟩
    · exact fun e => .of_rested id rfl
  · intro t move t' hi hallowed hs
    have hfollows := hi.2.step hi.1 horder.acyclic hsync hpins htakes hcoherent hs
    obtain ⟨s', hs', rfl⟩ := Option.map_eq_some_iff.mp hs
    have hinstep := hi.1.step hpins hstale hallowed
      (hi.2.takesSynchronous hi.1.unwrapped.accounted move) hs'
    cases move with
    | schedule => exact ⟨hinstep, hfollows⟩
    | work => exact ⟨hinstep, hfollows⟩

section
variable {s s' : PipelineState E P C} {e : E} {action : Action P C} {w w' : Worker P C}
  {f f' : Flow E C}

omit [DecidableEq P] in
/-- The runs of an element are only added to. -/
theorem Run.runs_prefix (h : Run net f e w action f' w') (e' : E) : f.runs e' <+: f'.runs e' := by
  cases h with
  | quiet => exact List.prefix_refl _
  | @begins serial =>
    by_cases he : e' = e
    · subst e'
      change _ <+: Function.update f.runs e (f.runs e ++ [serial]) e
      rw [Function.update_self]
      exact List.prefix_append _ _
    · change _ <+: Function.update f.runs e (f.runs e ++ [serial]) e'
      rw [Function.update_of_ne he]
  | pushes => exact List.prefix_refl _
  | announces _ hf => rw [(newData_announces hf).runs]
  | takes _ hf =>
    obtain ⟨queue, -, rfl⟩ := get_some hf
    exact List.prefix_refl _

end

omit [DecidableEq P] in
/-- The members change when a `process()` returns. -/
theorem Values.work_members (process : E → Nat → M → Program P C V M) (v : Values E P C V M)
    (w : Worker P C) (e : E) :
    (v.work process e w).members = v.members ∨
      ∃ calls b members, w = .processing calls ∧ v.program e = .returns b members ∧
        v.work process e w = v.setMembers e members := by
  unfold Values.work
  split
  case h_3 calls =>
    unfold Values.process
    split
    case h_1 =>
      left
      split
      · rfl
      · split <;> rfl
    case h_2 =>
      left
      split <;> rfl
    case h_6 b members hp => exact .inr ⟨calls, b, members, rfl, hp, rfl⟩
    all_goals exact .inl rfl
  case h_4 =>
    left
    split <;> rfl
  case h_5 =>
    left
    split <;> rfl
  all_goals exact .inl rfl

omit [DecidableEq P] [DecidableEq C] in
theorem Turn.runs_eq {s s' : PipelineState E P C} (h : Turn net s s') (e : E) :
    s'.runs e = s.runs e := by
  rw [h.records.1]

theorem ValuedState.runs_prefix {t t' : ValuedState E P C V M} {move : Move E}
    (ha : Accounted net t.toPipelineState) (hs : t.step net process move = some t') (e : E) :
    t.runs e <+: t'.runs e := by
  obtain ⟨s', hs', rfl⟩ := Option.map_eq_some_iff.mp hs
  cases move with
  | schedule =>
    change t.runs e <+: s'.runs e
    rw [(schedule_cases hs').runs_eq e]
  | work e' =>
    obtain ⟨w', hw⟩ := work_cases (ha.shaped e') hs'
    exact hw.run.runs_prefix e

/-- The members of an element are always those after some of the frames it was run for. -/
theorem members_reached {stale : E → Nat → Nat} {order : List E} {members : E → M}
    {t : ValuedState E P C V M} (horder : net.Topological order)
    (hsync : ∀ c, net.isSynchronous c = true)
    (hpins : ∀ e, net.isProducer e = false → net.m_hasSynchronousPin e = true)
    (htakes : ∀ e serial members, (process e serial members).TakesAll net e [])
    (hfirst : first < 2 ^ 32) (hstale : ∀ e x, first ≤ x → stale e x = 0)
    (h : Reaches (ValuedState.step net process)
      (fun t move => NotWrapping t.toPipelineState (t.event move)) (.started first stale members)
      t) (e : E) :
    ∃ n ≤ (t.runs e).length,
      t.members e = (sequential net process order first members n).members e := by
  induction h with
  | start => exact ⟨0, Nat.zero_le _, rfl⟩
  | @step t t' move h _ hs ih =>
    obtain ⟨hi, hfollows⟩ := Follows.of_reaches horder hsync hpins htakes hfirst hstale h
    have ha := hi.unwrapped.accounted
    obtain ⟨n, hn, hmembers⟩ := ih
    have hruns := (ValuedState.runs_prefix ha hs e).length_le
    have hkept : t'.members e = t.members e → ∃ n ≤ (t'.runs e).length,
        t'.members e = (sequential net process order first members n).members e :=
      fun hsame => ⟨n, hn.trans hruns, hsame.trans hmembers⟩
    obtain ⟨s', hs', rfl⟩ := Option.map_eq_some_iff.mp hs
    cases move with
    | schedule => exact hkept rfl
    | work e' =>
      rcases Values.work_members process t.toValues (t.worker e') e' with
        hsame | ⟨calls, b, m, hprocessing, hprogram, hset⟩
      · exact hkept (congrFun hsame e)
      · by_cases he : e = e'
        · -- it returns in the run of the last of its frames
          subst e'
          obtain ⟨k, hk⟩ := exists_runs_length (e := e) ha (by rw [hprocessing]; trivial)
          have hagrees := (hfollows.element e).agrees k hk
          rw [hprocessing] at hagrees
          obtain ⟨out, hcontinues⟩ := hagrees
          rw [hprogram] at hcontinues
          refine ⟨k + 1, hk ▸ hruns, ?_⟩
          change (t.toValues.work process e (t.worker e)).members e = _
          rw [hset]
          change Function.update t.members e m e = _
          rw [Function.update_self]
          exact (hcontinues.returns (sequential_coherent horder first members)).1
        · apply hkept
          change (t.toValues.work process e' (t.worker e')).members e = _
          rw [hset]
          exact Function.update_of_ne he ..

/-- In whatever order the threads of a pipeline with synchronous pins take their steps, it computes
what running one frame after the other in the order of `generateGraphOrdering` does. -/
theorem runs_like_sequential {stale : E → Nat → Nat} {order : List E} {members : E → M}
    {t : ValuedState E P C V M} (horder : net.Topological order)
    (hsync : ∀ c, net.isSynchronous c = true)
    (hpins : ∀ e, net.isProducer e = false → net.m_hasSynchronousPin e = true)
    (htakes : ∀ e serial members, (process e serial members).TakesAll net e [])
    (hfirst : first < 2 ^ 32) (hstale : ∀ e x, first ≤ x → stale e x = 0)
    (h : Reaches (ValuedState.step net process)
      (fun t move => NotWrapping t.toPipelineState (t.event move)) (.started first stale members)
      t) :
    RunsLike (sequential net process order first members) net first t := by
  obtain ⟨hi, hfollows⟩ := Follows.of_reaches horder hsync hpins htakes hfirst hstale h
  have hacyclic := horder.acyclic
  have ha := hi.unwrapped.accounted
  have hconsecutive := hi.unwrapped.serials.consecutive ha hi.framed hacyclic
    fun c => hpins _ (net.target_not_producer c)
  constructor
  case items => exact fun c => (hfollows.carried c).payloads
  case isNull => exact fun c => (hfollows.carried c).isNull
  case heads =>
    intro e serial hw c hc
    have hhead := head_of_entered ha hi.unwrapped.serials (hi.taken e) hconsecutive hw
      ((net.mem_syncInputs e c).mpr ⟨hc, hsync c⟩)
    rw [← List.head?_map] at hhead
    rw [(hfollows.carried c).payloads]
    cases hq : t.m_queue c with
    | nil =>
      rw [hq] at hhead
      cases hhead
    | cons d queue =>
      rw [hq] at hhead
      cases hhead
      rfl
  case members =>
    intro e hw
    have helement := hfollows.element e
    rw [hw] at helement
    exact helement.rested id id

end

/-- The producer makes the squares of the serials, the processor sends on how many frames it has
seen and what it got, and the viewer keeps the sum. -/
def chainProcess : Fin 3 → Nat → Nat → Program (Fin 2) (Fin 2) Nat Nat
  | 0, serial, members => .put 0 (serial * serial) (.returns true members)
  | 1, _, members => .get 0 fun x => .put 1 (members + x) (.returns true (members + 1))
  | 2, _, members => .get 1 fun x => .returns true (members + x)

def Event.move {E P C : Type} : Event E P C → Move E
  | .schedule order answer => .schedule order answer
  | .work e _ => .work e

theorem runs_like_sequential_chain :
    ∃ t : ValuedState (Fin 3) (Fin 2) (Fin 2) Nat Nat, t.runs 2 = [1, 2, 3] ∧ t.members 2 = 17 ∧
      RunsLike (sequential (chain true) chainProcess [0, 1, 2] 1 fun _ => 0) (chain true) 1 t := by
  have hend : (run (guarded (ValuedState.step (chain true) chainProcess)
      fun t move => NotWrapping t.toPipelineState (t.event move))
      (.started 1 (fun _ _ => 0) fun _ => 0) (chainFrames.map Event.move)).map
        (fun t => (t.runs 2, t.members 2)) = some ([1, 2, 3], 17) := by decide +kernel
  obtain ⟨t, ht, hstate⟩ := Option.map_eq_some_iff.mp hend
  obtain ⟨hruns, hmembers⟩ := Prod.mk.inj hstate
  refine ⟨t, hruns, hmembers, runs_like_sequential (.of_idxOf (by decide) (by decide) (by decide))
    (by decide) (by decide) ?_ (by decide) (fun _ _ _ => rfl) (.of_guarded_run ht)⟩
  intro e serial members
  match e with
  | 0 => simp [chainProcess, Program.TakesAll, Network.syncInputs, chain]
  | 1 => simp [chainProcess, Program.TakesAll, Network.syncInputs, chain]
  | 2 => simp [chainProcess, Program.TakesAll, Network.syncInputs, chain]

end ParleVision.Runtime
