import ParleVision.Lib.Measure
import ParleVision.Runtime.Stop
import ParleVision.Runtime.Alignment
import Mathlib.Algebra.BigOperators.Group.List.Basic

namespace ParleVision.Runtime
open Lib

variable {E P C : Type} (net : Network E P C)

section
variable (weight : C → Nat)

def putsOn (todo : List C) : Nat := (todo.map fun c => 2 + weight c).sum

section
variable [DecidableEq P] [DecidableEq C]

/-- The steps of a `process()` that has made these calls, at most. -/
def processWork (e : E) (calls : Calls P C) : Nat :=
  5 + ((net.inputs e).map fun c => if c ∈ calls.got then 0 else 1).sum +
    ((net.outputPins e).map fun p =>
      if p ∈ calls.put then 0 else 2 + putsOn weight (net.outputs p)).sum

/-- The steps a run has still to take, at most, with what comes of the items it puts. -/
def Worker.remaining (e : E) : Worker P C → Nat
  | .idle => 0
  | .dispatched _ => (net.inputs e).length + 3 + processWork net weight e ⟨[], []⟩
  | .entered _ => (net.inputs e).length + 2 + processWork net weight e ⟨[], []⟩
  | .peeking todo _ => todo.length + 1 + processWork net weight e ⟨[], []⟩
  | .flushing todo => todo.length + 5 + putsOn weight (net.posts e [])
  | .processing calls => processWork net weight e calls
  | .putting calls todo pushed =>
    processWork net weight e calls + 1 + (putsOn weight todo - if pushed then 1 else 0)
  | .posting todo pushed _ => 4 + (putsOn weight todo - if pushed then 1 else 0)
  | .ending _ => 3
  | .notError _ => 2
  | .thrown => 3
  | .leaving => 2
  | .finished _ => 1

end

@[simp] theorem putsOn_nil : putsOn weight [] = 0 := rfl

@[simp] theorem putsOn_cons (c : C) (todo : List C) :
    putsOn weight (c :: todo) = 2 + weight c + putsOn weight todo := by
  simp [putsOn]

theorem putsOn_append (todo todo' : List C) :
    putsOn weight (todo ++ todo') = putsOn weight todo + putsOn weight todo' := by
  simp [putsOn]

theorem putsOn_filter_le (p : C → Bool) (todo : List C) :
    putsOn weight (todo.filter p) ≤ putsOn weight todo := by
  induction todo with
  | nil => simp
  | cons c todo ih =>
    rw [List.filter_cons]
    split
    · simpa using ih
    · simp only [putsOn_cons]
      omega

variable [DecidableEq P] [DecidableEq C]

omit [DecidableEq C] in
/-- No more is put when `process()` has returned than it could have put. -/
theorem putsOn_posts (e : E) (put : List P) : putsOn weight (net.posts e put) ≤
    ((net.outputPins e).map fun p =>
      if p ∈ put then 0 else 2 + putsOn weight (net.outputs p)).sum := by
  unfold Network.posts
  induction net.outputPins e with
  | nil => simp
  | cons p pins ih =>
    rw [List.flatMap_cons, putsOn_append, List.map_cons, List.sum_cons]
    split
    · simpa using ih
    · have := putsOn_filter_le weight net.isSynchronous (net.outputs p)
      omega

theorem posts_le_processWork (e : E) (calls : Calls P C) :
    5 + putsOn weight (net.posts e calls.put) ≤ processWork net weight e calls := by
  have := putsOn_posts net weight e calls.put
  unfold processWork
  omega

/-- Flushing takes no more steps than a `process()` can. -/
theorem flush_le_processWork (e : E) :
    (net.syncInputs e).length + (5 + putsOn weight (net.posts e [])) ≤
      processWork net weight e ⟨[], []⟩ := by
  have hposts := putsOn_posts net weight e []
  have hlength := List.length_filter_le net.isSynchronous (net.inputs e)
  unfold processWork Network.syncInputs
  simp only [List.not_mem_nil, if_false, List.map_const', List.sum_replicate_nat,
    Nat.mul_one] at hposts ⊢
  omega

end

/-- A sum changes as the one of its terms that changes. -/
theorem sum_map_change {α : Type} {l : List α} {f g : α → Nat} {a : α} (hnodup : l.Nodup)
    (ha : a ∈ l) (hother : ∀ b, b ≠ a → g b = f b) :
    (l.map g).sum + f a = (l.map f).sum + g a := by
  induction l with
  | nil => cases ha
  | cons b l ih =>
    obtain ⟨hb, hnodup⟩ := List.nodup_cons.mp hnodup
    rw [List.map_cons, List.map_cons, List.sum_cons, List.sum_cons]
    rcases List.mem_cons.mp ha with rfl | hal
    · have hrest : l.map g = l.map f :=
        List.map_congr_left fun b hbl => hother b fun he => hb (he ▸ hbl)
      rw [hrest]
      omega
    · have := ih hnodup hal
      rw [hother b fun he => hb (he ▸ hal)]
      omega

section
variable (weight : C → Nat) [DecidableEq P] [DecidableEq C] (e : E)

@[simp] theorem remaining_idle : (Worker.idle : Worker P C).remaining net weight e = 0 := rfl

@[simp] theorem remaining_dispatched (serial : Nat) :
    (Worker.dispatched serial : Worker P C).remaining net weight e =
      (net.inputs e).length + 3 + processWork net weight e ⟨[], []⟩ := rfl

@[simp] theorem remaining_finished (result : Bool) :
    (Worker.finished result : Worker P C).remaining net weight e = 1 := rfl

variable {e}

theorem processWork_got {calls : Calls P C} {c : C} (hc : net.target c = e)
    (hgot : c ∉ calls.got) :
    processWork net weight e { calls with got := c :: calls.got } + 1 ≤
      processWork net weight e calls := by
  have hsum := sum_map_change (f := fun c => if c ∈ calls.got then 0 else 1)
    (g := fun c' => if c' ∈ c :: calls.got then 0 else 1)
    (net.inputs_nodup e) ((net.mem_inputs e c).mpr hc) (fun b hb => by simp [hb])
  simp only [hgot, List.mem_cons_self, if_true, if_false] at hsum
  unfold processWork
  dsimp only
  omega

theorem processWork_put {calls : Calls P C} {p : P} (hp : net.owner p = e)
    (hput : p ∉ calls.put) :
    processWork net weight e { calls with put := p :: calls.put } +
      (2 + putsOn weight (net.outputs p)) ≤ processWork net weight e calls := by
  have hsum := sum_map_change
    (f := fun p => if p ∈ calls.put then 0 else 2 + putsOn weight (net.outputs p))
    (g := fun p' => if p' ∈ p :: calls.put then 0 else 2 + putsOn weight (net.outputs p'))
    (net.outputPins_nodup e) ((net.mem_outputPins e p).mpr hp) (fun b hb => by simp [hb])
  simp only [hput, List.mem_cons_self, if_true, if_false] at hsum
  unfold processWork
  dsimp only
  omega

end

section
variable {net} [DecidableEq E] [DecidableEq C]

theorem newData_ready {f f' : Flow E C} {c : C} (h : f.newData net c = some f') :
    f'.m_readyQueue = f.m_readyQueue ∨ ∃ serial, f'.m_readyQueue =
      (f.pipelineDataConsumerReady (net.target c) serial).m_readyQueue := by
  unfold Flow.newData at h
  dsimp only at h
  split at h
  · split at h
    · split at h
      · split at h
        · cases h
          exact .inr ⟨_, rfl⟩
        · cases h
          exact .inl rfl
      · cases h
    · cases h
      exact .inl rfl
  · cases h
    exact .inr ⟨_, rfl⟩

omit [DecidableEq E] in
theorem get_ready {f f' : Flow E C} {c : C} {d : Data} (h : f.get c = some (f', d)) :
    f'.m_readyQueue = f.m_readyQueue := by
  obtain ⟨queue, -, rfl⟩ := get_some h
  rfl

end

variable [DecidableEq E] [DecidableEq P] [DecidableEq C]

/-- What a step of a run gains on what is left of it: it gets on, and what it adds to the ready
queues was counted. -/
inductive Gains (weight : C → Nat) (s s' : PipelineState E P C) (e : E) (action : Action P C)
    (w' : Worker P C) : Prop where
  | moves : s'.m_readyQueue = s.m_readyQueue →
      w'.remaining net weight e < (s.worker e).remaining net weight e →
      Gains weight s s' e action w'
  | reports : s'.m_readyQueue = s.m_readyQueue → action = .setError → w' = s.worker e →
      Gains weight s s' e action w'
  | readies {c : C} {serial : Nat} :
      s'.m_readyQueue = (s.flow.pipelineDataConsumerReady (net.target c) serial).m_readyQueue →
      w'.remaining net weight e + weight c < (s.worker e).remaining net weight e →
      Gains weight s s' e action w'

variable {net} {weight : C → Nat} {s s' : PipelineState E P C} {e : E} {action : Action P C}

/-- The item was announced, and perhaps its target is ready now. -/
theorem Gains.announced {f : Flow E C} {c : C} {w' : Worker P C}
    (hf : s.flow.newData net c = some f)
    (hlt : w'.remaining net weight e + weight c < (s.worker e).remaining net weight e) :
    Gains net weight s ((s.withFlow f).goto e w') e action w' := by
  rcases newData_ready hf with hready | ⟨serial, hready⟩
  · exact .moves hready (Nat.lt_of_le_of_lt (Nat.le_add_right ..) hlt)
  · exact .readies hready hlt

theorem process_gains {calls : Calls P C} (hw : s.worker e = .processing calls)
    (h : s.process net e calls action = some s') :
    ∃ w', s'.worker = Function.update s.worker e w' ∧ Gains net weight s s' e action w' := by
  have hbase : 5 ≤ processWork net weight e calls := by
    unfold processWork
    omega
  have hthrown : Gains net weight s (s.goto e .thrown) e action .thrown :=
    .moves rfl (by simp only [hw, Worker.remaining]; omega)
  cases action with
  | get c =>
    simp only [PipelineState.process] at h
    split at h
    case isFalse => cases h
    case isTrue htarget =>
      split at h
      · cases h
        exact ⟨_, rfl, hthrown⟩
      case isFalse hgot =>
        split at h
        · cases h
          exact ⟨_, rfl, hthrown⟩
        case h_2 f d hget =>
          cases h
          refine ⟨_, rfl, .moves (get_ready hget) ?_⟩
          have := processWork_got net weight htarget hgot
          split <;> simp only [hw, Worker.remaining] <;> omega
  | clear c =>
    simp only [PipelineState.process] at h
    split at h
    case isFalse => cases h
    case isTrue htarget =>
      split at h
      · cases h
        exact ⟨_, rfl, hthrown⟩
      case isFalse hgot =>
        split at h
        · cases h
          exact ⟨_, rfl, hthrown⟩
        case h_2 f d hget =>
          cases h
          refine ⟨_, rfl, .moves (get_ready hget) ?_⟩
          have := processWork_got net weight htarget hgot
          simp only [hw, Worker.remaining]
          omega
  | put p =>
    simp only [PipelineState.process] at h
    split at h
    case isFalse => cases h
    case isTrue howner =>
      split at h
      · cases h
        exact ⟨_, rfl, hthrown⟩
      case isFalse hput =>
        cases h
        refine ⟨_, rfl, .moves rfl ?_⟩
        have := processWork_put net weight howner hput
        simp only [hw, Worker.remaining, Bool.false_eq_true, ↓reduceIte]
        omega
  | setError =>
    cases h
    exact ⟨s.worker e, (Function.update_eq_self e s.worker).symm, .reports rfl rfl rfl⟩
  | returns b =>
    cases h
    refine ⟨_, rfl, .moves rfl ?_⟩
    have := posts_le_processWork net weight e calls
    simp only [hw, Worker.remaining, Bool.false_eq_true, ↓reduceIte]
    omega
  | throws =>
    cases h
    exact ⟨_, rfl, hthrown⟩

/-- The run has one pin less to look at, or goes on to flush or to `process()`. -/
theorem peeking_gains (weight : C → Nat) {todo : List C} {nullDetected : Bool}
    (hw : s.worker e = .peeking todo nullDetected) (h : s.work net e action = some s') :
    ∃ w', s'.worker = Function.update s.worker e w' ∧ Gains net weight s s' e action w' := by
  unfold PipelineState.work at h
  have hflush := flush_le_processWork net weight e
  cases todo with
  | nil =>
    simp only [hw] at h
    cases h
    refine ⟨_, rfl, .moves rfl ?_⟩
    split <;> simp only [hw, Worker.remaining, List.length_nil] <;> omega
  | cons c todo =>
    simp only [hw] at h
    split at h
    · split at h
      · cases h
        refine ⟨_, rfl, .moves rfl ?_⟩
        simp only [hw, Worker.remaining, List.length_cons]
        omega
      · cases h
        refine ⟨_, rfl, .moves rfl ?_⟩
        simp only [hw, Worker.remaining, List.length_cons]
        omega
    · cases h
      refine ⟨_, rfl, .moves rfl ?_⟩
      simp only [hw, Worker.remaining, List.length_cons]
      omega

/-- The run has one pin less to flush. -/
theorem flushing_gains (weight : C → Nat) {todo : List C}
    (hw : s.worker e = .flushing todo) (h : s.work net e action = some s') :
    ∃ w', s'.worker = Function.update s.worker e w' ∧ Gains net weight s s' e action w' := by
  unfold PipelineState.work at h
  cases todo with
  | nil =>
    simp only [hw] at h
    cases h
    refine ⟨_, rfl, .moves rfl ?_⟩
    simp only [hw, Worker.remaining, List.length_nil, Bool.false_eq_true, ↓reduceIte]
    omega
  | cons c todo =>
    simp only [hw] at h
    split at h
    · cases h
      refine ⟨_, rfl, .moves rfl ?_⟩
      simp only [hw, Worker.remaining, List.length_cons]
      omega
    case h_2 f d hget =>
      cases h
      refine ⟨_, rfl, .moves (get_ready hget) ?_⟩
      simp only [hw, Worker.remaining, List.length_cons]
      omega

/-- The run has one connection less to put an item on. -/
theorem putting_gains (weight : C → Nat) {calls : Calls P C} {todo : List C} {pushed : Bool}
    (hw : s.worker e = .putting calls todo pushed) (h : s.work net e action = some s') :
    ∃ w', s'.worker = Function.update s.worker e w' ∧ Gains net weight s s' e action w' := by
  unfold PipelineState.work at h
  cases todo with
  | nil =>
    simp only [hw] at h
    cases h
    refine ⟨_, rfl, .moves rfl ?_⟩
    simp only [hw, Worker.remaining, putsOn_nil]
    split <;> omega
  | cons c todo =>
    cases pushed with
    | false =>
      simp only [hw] at h
      cases h
      refine ⟨_, rfl, .moves rfl ?_⟩
      simp only [hw, Worker.remaining, putsOn_cons, Bool.false_eq_true, ↓reduceIte]
      omega
    | true =>
      simp only [hw] at h
      split at h
      · cases h
      case h_2 f hf =>
        cases h
        refine ⟨_, rfl, .announced hf ?_⟩
        simp only [hw, Worker.remaining, putsOn_cons, Bool.false_eq_true, ↓reduceIte]
        omega

/-- The same for a NULL. -/
theorem posting_gains (weight : C → Nat) {todo : List C} {pushed result : Bool}
    (hw : s.worker e = .posting todo pushed result) (h : s.work net e action = some s') :
    ∃ w', s'.worker = Function.update s.worker e w' ∧ Gains net weight s s' e action w' := by
  unfold PipelineState.work at h
  cases todo with
  | nil =>
    simp only [hw] at h
    cases h
    refine ⟨.ending result, by split <;> rfl, .moves (by split <;> rfl) ?_⟩
    simp only [hw, Worker.remaining]
    omega
  | cons c todo =>
    cases pushed with
    | false =>
      simp only [hw] at h
      cases h
      refine ⟨_, rfl, .moves rfl ?_⟩
      simp only [hw, Worker.remaining, putsOn_cons, Bool.false_eq_true, ↓reduceIte]
      omega
    | true =>
      simp only [hw] at h
      split at h
      · cases h
      case h_2 f hf =>
        cases h
        refine ⟨_, rfl, .announced hf ?_⟩
        simp only [hw, Worker.remaining, putsOn_cons, Bool.false_eq_true, ↓reduceIte]
        omega

/-- A step of a run gets on with it, unless it does nothing but report an error. -/
theorem work_gains (weight : C → Nat) (h : s.work net e action = some s') :
    ∃ w', s'.worker = Function.update s.worker e w' ∧ Gains net weight s s' e action w' := by
  unfold PipelineState.work at h
  cases hw : s.worker e with
  | idle => simp [hw] at h
  | dispatched serial =>
    simp only [hw] at h
    split at h
    · cases h
      refine ⟨_, rfl, .moves rfl ?_⟩
      simp only [hw, Worker.remaining]
      omega
    · cases h
  | entered serial =>
    simp only [hw] at h
    split at h
    · split at h
      · cases h
        refine ⟨_, rfl, .moves rfl ?_⟩
        simp only [hw, Worker.remaining]
        omega
      · cases h
    · split at h
      · cases h
        refine ⟨_, rfl, .moves rfl ?_⟩
        simp only [hw, Worker.remaining]
        omega
      · cases h
  | peeking todo nullDetected => exact peeking_gains weight hw h
  | flushing todo => exact flushing_gains weight hw h
  | processing calls =>
    simp only [hw] at h
    exact process_gains hw h
  | putting calls todo pushed => exact putting_gains weight hw h
  | posting todo pushed result => exact posting_gains weight hw h
  | ending result =>
    simp only [hw] at h
    cases h
    refine ⟨_, rfl, .moves rfl ?_⟩
    split <;> simp only [hw, Worker.remaining] <;> omega
  | notError result =>
    simp only [hw] at h
    cases h
    refine ⟨_, rfl, .moves rfl ?_⟩
    simp only [hw, Worker.remaining]
    omega
  | thrown =>
    simp only [hw] at h
    cases h
    refine ⟨_, rfl, .moves rfl ?_⟩
    simp only [hw, Worker.remaining]
    omega
  | leaving =>
    simp only [hw] at h
    cases h
    refine ⟨_, rfl, .moves rfl ?_⟩
    simp only [hw, Worker.remaining]
    omega
  | finished result => simp [hw] at h

section
omit [DecidableEq E]

/-- What a dispatch leads to depends on the connections of the element only. -/
theorem processWork_congr {weight' : C → Nat} {calls : Calls P C}
    (h : ∀ c, net.source c = e → weight c = weight' c) :
    processWork net weight e calls = processWork net weight' e calls := by
  have hpins : (net.outputPins e).map (fun p =>
        if p ∈ calls.put then 0 else 2 + putsOn weight (net.outputs p)) =
      (net.outputPins e).map fun p =>
        if p ∈ calls.put then 0 else 2 + putsOn weight' (net.outputs p) := by
    apply List.map_congr_left
    intro p hp
    have hputs : putsOn weight (net.outputs p) = putsOn weight' (net.outputs p) := by
      unfold putsOn
      congr 1
      apply List.map_congr_left
      intro c hc
      rw [h c]
      rw [Network.source, (net.mem_outputs p c).mp hc, (net.mem_outputPins e p).mp hp]
    rw [hputs]
  unfold processWork
  rw [hpins]

/-- A number for each element that is more than the steps its dispatch leads to, in it and in
the elements that get its items. -/
def Costs (net : Network E P C) (cost : E → Nat) : Prop :=
  ∀ e, (Worker.dispatched 0 : Worker P C).remaining net (fun c => cost (net.target c)) e < cost e

theorem Network.Acyclic.exists_costs (h : net.Acyclic) : ∃ cost, Costs net cost := by
  classical
  have hfinite : Finite E := @Finite.of_fintype E (Fintype.ofList net.children net.mem_children)
  let r := fun b a => Relation.TransGen
    (fun a b => ∃ c, net.source c = a ∧ net.target c = b) a b
  have hirrefl : Std.Irrefl r := ⟨h⟩
  have htrans : IsTrans E r := ⟨fun _ _ _ hab hbc => Relation.TransGen.trans hbc hab⟩
  have hwf : WellFounded r := Finite.wellFounded_of_trans_of_irrefl r
  let next (e : E) (cost : ∀ b, r b e → Nat) : Nat :=
    (Worker.dispatched 0 : Worker P C).remaining net
      (fun c => if hc : net.source c = e then cost (net.target c) (.single ⟨c, hc, rfl⟩) else 0) e + 1
  refine ⟨hwf.fix next, fun e => ?_⟩
  rw [hwf.fix_eq]
  refine Nat.lt_succ_of_le (Nat.le_of_eq ?_)
  simp only [Worker.remaining]
  congr 1
  apply processWork_congr
  intro c hc
  rw [dif_pos hc]

end

/-- All the steps that the runs and the ready queues lead to, at most. -/
def potential (net : Network E P C) (cost : E → Nat) (s : PipelineState E P C) : Nat :=
  (net.children.map fun e => (s.m_readyQueue e).length * cost e).sum +
    (net.children.map fun e =>
      (s.worker e).remaining net (fun c => cost (net.target c)) e).sum

def Event.getsOn : Event E P C → Bool
  | .work _ .setError => false
  | .work .. => true
  | .schedule .. => false

section
variable (net) (cost : E → Nat)

theorem workers_change {w' : Worker P C} (hworker : s'.worker = Function.update s.worker e w') :
    (net.children.map fun e =>
        (s'.worker e).remaining net (fun c => cost (net.target c)) e).sum +
      (s.worker e).remaining net (fun c => cost (net.target c)) e =
    (net.children.map fun e =>
        (s.worker e).remaining net (fun c => cost (net.target c)) e).sum +
      w'.remaining net (fun c => cost (net.target c)) e := by
  have hsum := sum_map_change
    (f := fun e => (s.worker e).remaining net (fun c => cost (net.target c)) e)
    (g := fun e => (s'.worker e).remaining net (fun c => cost (net.target c)) e)
    net.children_nodup (net.mem_children e)
    (fun b hb => by rw [hworker, Function.update_of_ne hb])
  rw [hsum, hworker, Function.update_self]

omit [DecidableEq P] [DecidableEq C] in
theorem ready_change {queue : List Nat}
    (hready : s'.m_readyQueue = Function.update s.m_readyQueue e queue) :
    (net.children.map fun e => (s'.m_readyQueue e).length * cost e).sum +
      (s.m_readyQueue e).length * cost e =
    (net.children.map fun e => (s.m_readyQueue e).length * cost e).sum +
      queue.length * cost e := by
  have hsum := sum_map_change (f := fun e => (s.m_readyQueue e).length * cost e)
    (g := fun e => (s'.m_readyQueue e).length * cost e)
    net.children_nodup (net.mem_children e)
    (fun b hb => by rw [hready, Function.update_of_ne hb])
  rw [hsum, hready, Function.update_self]

end

structure Same (s s' : PipelineState E P C) : Prop where
  worker : s'.worker = s.worker
  ready : s'.m_readyQueue = s.m_readyQueue
  runQueue : s'.m_runQueue = s.m_runQueue

def NotProducing (s : PipelineState E P C) : Prop := ∀ todo, s.phase ≠ .producing todo

variable {cost : E → Nat}

/-- A dispatch was counted with the entry of the ready queue. -/
theorem dispatch_potential {serial : Nat} {queue : List Nat} (hcosts : Costs net cost)
    (hidle : s.worker e = .idle) (hready : s.m_readyQueue e = serial :: queue)
    (hqueue : s'.m_readyQueue = Function.update s.m_readyQueue e queue)
    (hworker : s'.worker = Function.update s.worker e (.dispatched serial)) :
    potential net cost s' < potential net cost s := by
  have hworkers := workers_change net cost hworker
  have hreadies := ready_change net cost hqueue
  have hcost := hcosts e
  rw [hready, List.length_cons, Nat.add_mul, Nat.one_mul] at hreadies
  rw [hidle, remaining_idle, remaining_dispatched] at hworkers
  rw [remaining_dispatched] at hcost
  unfold potential
  omega

/-- A run that is taken from the run queue is no longer counted. -/
theorem reap_potential {result : Bool} (hfinished : s.worker e = .finished result)
    (hready : s'.m_readyQueue = s.m_readyQueue)
    (hworker : s'.worker = Function.update s.worker e .idle) :
    potential net cost s' < potential net cost s := by
  have hworkers := workers_change net cost hworker
  rw [hfinished, remaining_finished, remaining_idle] at hworkers
  unfold potential
  rw [hready]
  omega

/-- As long as no frame is produced, a step of `schedule` leaves less to do or as much. -/
theorem turn_potential (ha : Accounted net s) (hcosts : Costs net cost) (hquiet : NotProducing s)
    (ht : Turn net s s') : potential net cost s' < potential net cost s ∨ Same s s' := by
  cases ht with
  | moves => exact .inr ⟨rfl, rfl, rfl⟩
  | @reaps e todo _ hfinished =>
    left
    exact reap_potential hfinished rfl rfl
  | @dispatches e todo serial queue _ _ hready hd _ hflow =>
    left
    have hidle : s.worker e = .idle := Worker.not_busy fun hbusy => (ha.busy e).mp hbusy hd.state
    exact dispatch_potential hcosts hidle hready (by rw [hflow]; rfl) hd.worker
  | produces hphase => exact (hquiet _ hphase).elim
  | ticks hphase => exact (hquiet _ hphase).elim

/-- A step of a run leaves less to do, unless it does nothing but report an error. -/
theorem work_potential (cost : E → Nat) (hshaped : (s.worker e).Shaped net e)
    (h : s.work net e action = some s') :
    potential net cost s' < potential net cost s ∨ Same s s' ∧ action = .setError := by
  obtain ⟨w', hworker, hgains⟩ := work_gains (fun c => cost (net.target c)) h
  have hworkers := workers_change net cost hworker
  cases hgains with
  | moves hready hlt =>
    left
    unfold potential
    rw [hready]
    omega
  | reports hready haction hw' =>
    right
    obtain ⟨_, hw⟩ := work_cases hshaped h
    rw [hw', Function.update_eq_self] at hworker
    exact ⟨⟨hworker, hready, hw.runQueue⟩, haction⟩
  | @readies c serial hready hlt =>
    left
    have hreadies := ready_change net cost hready
    rw [List.length_append, List.length_singleton, Nat.add_mul, Nat.one_mul] at hreadies
    unfold potential
    omega

theorem step_potential {event : Event E P C} (ha : Accounted net s) (hcosts : Costs net cost)
    (hquiet : NotProducing s) (hs : s.step net event = some s') :
    potential net cost s' < potential net cost s ∨ Same s s' ∧ event.getsOn = false := by
  cases event with
  | schedule order answer =>
    exact (turn_potential ha hcosts hquiet (schedule_cases hs)).imp_right fun h => ⟨h, rfl⟩
  | work e action =>
    refine (work_potential cost (ha.shaped e) hs).imp_right fun h => ⟨h.1, ?_⟩
    rw [h.2]
    rfl

omit [DecidableEq E] in
theorem Same.potential (h : Same s s') : potential net cost s' = potential net cost s := by
  unfold Runtime.potential
  rw [h.worker, h.ready]

/-- What the producers that are still to be dispatched for the frame lead to. -/
def ahead (cost : E → Nat) (s : PipelineState E P C) : Nat :=
  match s.phase with
  | .producing todo => (todo.map cost).sum
  | _ => 0

omit [DecidableEq E] [DecidableEq P] [DecidableEq C] in
theorem ahead_of_notProducing (h : NotProducing s) : ahead cost s = 0 := by
  unfold ahead
  split
  · exact (h _ ‹_›).elim
  · rfl

/-- What there is to do grows with the frames, and else goes down. -/
theorem turn_framed {first : Nat} (ha : Accounted net s) (hf : Framed net first s)
    (hcosts : Costs net cost) (ht : Turn net s s') {n : Nat}
    (hle : n + potential net cost s + ahead cost s ≤
      (net.producers.map cost).sum * (s.next - first)) :
    n + potential net cost s' + ahead cost s' ≤
      (net.producers.map cost).sum * (s'.next - first) := by
  by_cases hquiet : NotProducing s
  · -- a frame may begin here
    have hpotential : potential net cost s' ≤ potential net cost s := by
      rcases turn_potential ha hcosts hquiet ht with hlt | hsame
      · exact Nat.le_of_lt hlt
      · exact Nat.le_of_eq hsame.potential
    rw [ahead_of_notProducing hquiet] at hle
    rw [next_of_not_producing hquiet] at hle
    have hfirst := hf.first_le
    cases ht with
    | @moves phase hfrom hto =>
      by_cases hp : ∃ todo, phase = .producing todo
      · obtain ⟨todo, rfl⟩ := hp
        obtain ⟨-, rfl⟩ := hto _ rfl
        change n + potential net cost _ + (net.producers.map cost).sum ≤
          _ * (s.m_serial + 1 - first)
        rw [show s.m_serial + 1 - first = s.m_serial - first + 1 by omega, Nat.mul_succ]
        omega
      · have hquiet' : NotProducing { s with phase := phase } := fun todo he => hp ⟨todo, he⟩
        rw [ahead_of_notProducing hquiet', next_of_not_producing hquiet']
        change _ ≤ _ * (s.m_serial - first)
        omega
    | reaps hphase =>
      change n + potential net cost _ + 0 ≤ _ * (s.m_serial - first)
      omega
    | dispatches _ _ _ hphase' hflow =>
      rw [ahead, PipelineState.next, hphase', hflow]
      change n + potential net cost s' + 0 ≤ _ * (s.m_serial - first)
      omega
    | produces hphase => exact (hquiet _ hphase).elim
    | ticks hphase => exact (hquiet _ hphase).elim
  · cases ht with
    | moves hfrom => exact (hquiet hfrom).elim
    | reaps hphase => exact (hquiet (by simp [NotProducing, hphase])).elim
    | dispatches hphase => exact (hquiet (by simp [NotProducing, hphase])).elim
    | @produces e todo _ hphase hd hphase' hflow =>
      have hidle : s.worker e = .idle := Worker.not_busy fun hbusy => (ha.busy e).mp hbusy hd.state
      have hworkers := workers_change net cost hd.worker
      have hcost := hcosts e
      rw [hidle, remaining_idle, remaining_dispatched] at hworkers
      rw [remaining_dispatched] at hcost
      have hahead : ahead cost s = cost e + ahead cost s' := by
        rw [ahead, ahead, hphase, hphase']
        exact List.sum_cons
      have hnext : s'.next = s.next := by
        rw [PipelineState.next, PipelineState.next, hphase, hphase', hflow]
        rfl
      have hready : s'.m_readyQueue = s.m_readyQueue := by
        rw [hflow]
        rfl
      rw [hahead] at hle
      rw [hnext]
      unfold potential at hle ⊢
      rw [hready]
      omega
    | ticks hphase =>
      rw [ahead, PipelineState.next, hphase] at hle
      exact hle

/-- Each frame takes a bounded number of steps, however many there are and whatever the threads do
in which order. -/
theorem work_per_frame (hacyclic : net.Acyclic) : ∃ perFrame, ∀ first stale es s,
    Path (PipelineState.step net) (fun _ _ => True) (.started first stale) es s →
      es.countP Event.getsOn ≤ perFrame * (s.next - first) := by
  obtain ⟨cost, hcosts⟩ := hacyclic.exists_costs
  refine ⟨(net.producers.map cost).sum, fun first stale es s hpath => ?_⟩
  have hboth := hpath.induction_on (I := fun s => Accounted net s ∧ Framed net first s)
    (J := fun es s => es.countP Event.getsOn + potential net cost s + ahead cost s ≤
      (net.producers.map cost).sum * (s.next - first))
    ⟨started_accounted first stale, started_framed⟩
    (by simp [potential, ahead, PipelineState.started, Worker.remaining])
    (fun es s event s' hi hle _ hs => by
      obtain ⟨ha, hf⟩ := hi
      refine ⟨⟨ha.step hs, hf.step ha hs⟩, ?_⟩
      rw [List.countP_append, List.countP_singleton]
      cases event with
      | schedule order answer => exact turn_framed ha hf hcosts (schedule_cases hs) hle
      | work e action =>
        obtain ⟨w', hw⟩ := work_cases (ha.shaped e) hs
        have hahead : ahead cost s' = ahead cost s := by rw [ahead, ahead, hw.phase]
        rw [hahead, hw.next]
        rcases work_potential cost (ha.shaped e) hs with hlt | ⟨hsame, haction⟩
        · split <;> omega
        · rw [haction, hsame.potential]
          exact hle)
  omega

/-- The frames of a row of elements. -/
theorem work_per_frame_chain : ∃ perFrame, ∀ first stale es s,
    Path (PipelineState.step (chain true)) (fun _ _ => True) (.started first stale) es s →
      es.countP Event.getsOn ≤ perFrame * (s.next - first) :=
  work_per_frame ((chain true).acyclic_of_rank Fin.val (by decide))

end ParleVision.Runtime
