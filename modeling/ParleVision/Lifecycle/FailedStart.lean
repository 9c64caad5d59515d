import ParleVision.Lifecycle.Start
import ParleVision.Graph.Consistency

namespace ParleVision.Lifecycle
open Lib ParleVision.Graph

namespace Pipeline

theorem deinit_undefined {e e' : ElementState} {call : SafeCall} {b : Bool}
    (hc : call.returns = true) (h : e.deinit call = some (e', b)) :
    e'.m_state = .PLE_UNDEFINED := by
  unfold ElementState.deinit at h
  by_cases ha : e.m_state = .PLE_ERROR ∨ e.m_state = .PLE_INITIALIZED
  · simp only [ha, hc, if_true] at h
    cases h
    rfl
  · simp only [ha, if_false] at h
    cases h

/-- Every element that deinitEach reaches ends undefined, the others are left alone. -/
theorem deinitEach_undefined {hooks : ElemPtr → Hooks} {ps : List ElemPtr} {st st' : States}
    (hc : ∀ p ∈ ps, (hooks p).deinit.returns = true) (h : deinitEach hooks ps st = some st') :
    (∀ p ∈ ps, (st' p).m_state = .PLE_UNDEFINED) ∧ ∀ p, p ∉ ps → st' p = st p := by
  induction ps generalizing st with
  | nil =>
    cases h
    exact ⟨by simp, fun _ _ => rfl⟩
  | cons p ps ih =>
    unfold deinitEach at h
    cases hd : (st p).deinit (hooks p).deinit with
    | none => simp [hd] at h
    | some r =>
      obtain ⟨e, b⟩ := r
      simp only [hd] at h
      obtain ⟨hin, hout⟩ := ih (fun q hq => hc q (by simp [hq])) h
      refine ⟨?_, ?_⟩
      · intro q hq
        by_cases hqs : q ∈ ps
        · exact hin q hqs
        · have hqp : q = p := by simpa [hqs] using hq
          subst q
          rw [hout p hqs, Function.update_self]
          exact deinit_undefined (hc p (by simp)) hd
      · intro q hq
        simp only [List.mem_cons, not_or] at hq
        rw [hout q hq.2, Function.update_of_ne hq.1]

/-- A loop that reaches its end has initialised every element. -/
theorem initLoop_some {hooks : ElemPtr → Hooks} {order : HashOrder ElemPtr}
    {ps initialized result : List ElemPtr} {st st' : States}
    (h : initLoop hooks order ps initialized st = some (st', some result)) :
    result = initialized ++ ps := by
  induction ps generalizing initialized st with
  | nil =>
    cases h
    simp
  | cons p ps ih =>
    unfold initLoop at h
    cases hi : (st p).init (hooks p).init with
    | none => simp [hi] at h
    | some r =>
      obtain ⟨e, ending⟩ := r
      simp only [hi] at h
      split at h
      · split at h <;> cases h
      · simpa using ih h

theorem foldl_insert_empty (f : ElemPtr → Int) (ps : List ElemPtr) {queue : QMap (List RunItem)}
    (hq : ∀ (k : Int) l, queue[k]? = some l → l = []) :
    ∀ (k : Int) l, (ps.foldl (fun q p => q.insert (f p) []) queue)[k]? = some l → l = [] := by
  induction ps generalizing queue with
  | nil => exact hq
  | cons p ps ih =>
    apply ih
    intro k l h
    rcases QMap.of_insert h with ⟨-, rfl⟩ | h
    · rfl
    · exact hq k l h

theorem foldl_insert_mem (f : ElemPtr → Int) (ps : List ElemPtr) {queue : QMap (List RunItem)}
    {k : Int} (hk : k ∈ queue ∨ ∃ p ∈ ps, f p = k) :
    k ∈ ps.foldl (fun q p => q.insert (f p) []) queue := by
  induction ps generalizing queue with
  | nil => simpa using hk
  | cons p ps ih =>
    apply ih
    rcases hk with hk | ⟨q, hq, he⟩
    · exact .inl (Std.ExtTreeMap.mem_insert.mpr (.inr hk))
    · rcases List.mem_cons.mp hq with rfl | hq
      · exact .inl (Std.ExtTreeMap.mem_insert.mpr (.inl (by simp [he])))
      · exact .inr ⟨q, hq, he⟩

/-- The state of a pipeline that is not running: nothing initialised, nothing
waiting to run, no tick that would call `schedule()`. -/
structure Stopped (s : Pipeline) : Prop where
  elements : ∀ (k : Int) p, s.m_children[k]? = some p → (s.states p).m_state = .PLE_UNDEFINED
  running : s.m_running = false
  ready : ∀ (k : Int) queue, s.m_readyQueue[k]? = some queue → queue = []
  unconnected : s.scheduleConnections = 0

/-- What a successful `init` has done besides the elements. -/
structure Initialised (s t : Pipeline) : Prop where
  graph : t.toPipeline = s.toPipeline
  running : t.m_running = s.m_running
  connected : t.scheduleConnections = s.scheduleConnections + 1
  ready : (∀ (k : Int) queue, s.m_readyQueue[k]? = some queue → queue = []) →
    ∀ (k : Int) queue, t.m_readyQueue[k]? = some queue → queue = []
  queues : ∀ (k : Int) p, s.m_children[k]? = some p → (s.elems p).m_id ∈ t.m_readyQueue

theorem init_initialised {hooks : ElemPtr → Hooks} {order : HashOrder ElemPtr} {s t : Pipeline}
    (h : s.init hooks order = some (t, true)) : s.Initialised t := by
  unfold init at h
  cases hl : initLoop hooks order (valuesOf s.m_children) [] s.states with
  | none => simp [hl] at h
  | some r =>
    obtain ⟨st, result⟩ := r
    cases result with
    | none => simp [hl] at h
    | some initialized =>
      have hall : initialized = valuesOf s.m_children := by simpa using initLoop_some hl
      simp only [hl, Option.some.injEq, Prod.mk.injEq, and_true] at h
      subst h
      refine ⟨rfl, rfl, rfl, ?_, ?_⟩
      · intro hq
        exact foldl_insert_empty _ _ hq
      · intro k p hp
        apply foldl_insert_mem
        refine .inr ⟨p, ?_, rfl⟩
        rw [(order.perm _).mem_iff, hall]
        exact mem_valuesOf.mpr ⟨k, hp⟩

def failedAfterInit : StartExit → Bool
  | .requiredPins | .cycle | .startFailed => true
  | .empty | .initFailed | .escaped | .started => false

theorem exists_child {m : QMap ElemPtr} (h : ¬ m.size = 0) :
    ∃ (k : Int) (p : ElemPtr), m[k]? = some p := by
  by_contra hnone
  simp only [not_exists] at hnone
  have he : m = ∅ := by
    apply Std.ExtTreeMap.ext_getElem?
    intro k
    simpa using Option.eq_none_iff_forall_ne_some.mpr (hnone k)
  exact h (by simp [he])

/-- The three ways to fail after `init`, with what each of them has undone. -/
theorem start_failed_cases {hooks : ElemPtr → Hooks} {h : Hashing} {s t : Pipeline}
    {exit : StartExit} (hst : s.start hooks h = some (t, exit))
    (hexit : failedAfterInit exit = true) :
    ∃ u, s.Initialised u ∧ (∃ (k : Int) (p : ElemPtr), s.m_children[k]? = some p) ∧
      ((¬ (valuesOf s.m_children).all s.requiredPinsConnected ∧ u.deinit hooks = some t) ∨
       ((valuesOf s.m_children).all s.requiredPinsConnected ∧
        t.scheduleConnections = u.scheduleConnections ∧ t.m_readyQueue = u.m_readyQueue)) := by
  unfold start at hst
  split at hst
  · cases hst
    cases hexit
  rename_i hsize
  cases hi : s.init hooks h.elements with
  | none => simp [hi] at hst
  | some r =>
    obtain ⟨u, b⟩ := r
    cases b with
    | false =>
      simp only [hi] at hst
      cases hst
      cases hexit
    | true =>
      have hu := init_initialised hi
      refine ⟨u, hu, exists_child hsize, ?_⟩
      simp only [hi, hu.graph] at hst
      split at hst
      · rename_i hpins
        cases hd : u.deinit hooks with
        | none => simp [hd] at hst
        | some u' =>
          simp only [hd, Option.map_some] at hst
          cases hst
          exact .inl ⟨hpins, rfl⟩
      rename_i hpins
      refine .inr ⟨not_not.mp hpins, ?_⟩
      split at hst
      · cases hst
      · cases hst
        exact ⟨rfl, rfl⟩
      · unfold startElements at hst
        split at hst
        · cases hst
        · cases hst
          cases hexit
        · split at hst
          · cases hst
          · cases hst
            exact ⟨rfl, rfl⟩
        · cases hst
          cases hexit

/-- After a failure behind `init` the pipeline is stopped again exactly when the
failure was a required pin; the other two exits leave the heartbeat connected to
`schedule()`, and none of the three empties the ready queue's map. -/
theorem failed_start_stopped_iff {hooks : ElemPtr → Hooks} {h : Hashing} {s t : Pipeline}
    {exit : StartExit} (hs : s.Stopped)
    (htrue : ∀ (k : Int) p, s.m_children[k]? = some p →
      (hooks p).stop.returns = true ∧ (hooks p).deinit.returns = true)
    (hst : s.start hooks h = some (t, exit)) (hexit : failedAfterInit exit = true) :
    (t.Stopped ↔ ∃ (k : Int) (p : ElemPtr), s.m_children[k]? = some p ∧
      s.requiredPinsConnected p = false) ∧ t.m_readyQueue ≠ ∅ := by
  obtain ⟨u, hu, ⟨k, p, hp⟩, ⟨hpins, hd⟩ | ⟨hpins, hconn, hready⟩⟩ :=
    start_failed_cases hst hexit
  · -- `deinit` ran over all elements and disconnected the heartbeat
    have hchildren : u.m_children = s.m_children := congrArg Graph.Pipeline.m_children hu.graph
    unfold deinit at hd
    cases hde : deinitEach hooks (valuesOf u.m_children) u.states with
    | none => simp [hde] at hd
    | some st =>
      simp only [hde, Option.some.injEq] at hd
      subst hd
      have hall : ∀ q ∈ valuesOf u.m_children, (hooks q).deinit.returns = true := by
        intro q hq
        rw [hchildren] at hq
        obtain ⟨k', hk'⟩ := mem_valuesOf.mp hq
        exact (htrue k' q hk').2
      refine ⟨⟨fun _ => ?_, fun _ => ?_⟩, ?_⟩
      · simp only [List.all_eq_true, not_forall] at hpins
        obtain ⟨q, hq, hreq⟩ := hpins
        obtain ⟨k', hk'⟩ := mem_valuesOf.mp hq
        exact ⟨k', q, hk', by simpa using hreq⟩
      · exact {
          elements := fun k' q hq => (deinitEach_undefined hall hde).1 q (mem_valuesOf.mpr ⟨k', hq⟩)
          running := hu.running.trans hs.running
          ready := hu.ready hs.ready
          unconnected := rfl }
      · intro hempty
        have hmem := hu.queues k p hp
        have hq : u.m_readyQueue = ∅ := hempty
        simp [hq] at hmem
  · refine ⟨⟨fun ht => ?_, ?_⟩, ?_⟩
    · have := ht.unconnected
      rw [hconn, hu.connected] at this
      omega
    · rintro ⟨k', q, hq, hreq⟩
      have hq' := List.all_eq_true.mp hpins q (mem_valuesOf.mpr ⟨k', hq⟩)
      rw [hreq] at hq'
      cases hq'
    · intro hempty
      have hmem := hu.queues k p hp
      rw [← hready, hempty] at hmem
      simp at hmem

def succeeding : Hooks where
  init := ⟨none, .returns true⟩
  deinit := ⟨none, true⟩
  start := ⟨none, .returns true⟩
  stop := ⟨none, true⟩

def fresh (elems : ElemPtr → Element) (n : Nat) : Pipeline where
  toPipeline := (List.range n).foldl (fun s p => s.addElement p) (Graph.Pipeline.new elems false)
  states := fun _ => ⟨.PLE_UNDEFINED, .PlvNoError⟩
  m_readyQueue := ∅
  m_ordering := []
  m_running := false
  scheduleConnections := 0
  heartbeat := false

theorem fresh_stopped (elems : ElemPtr → Element) (n : Nat) : (fresh elems n).Stopped where
  elements _ _ _ := rfl
  running := rfl
  ready k queue h := by simp [fresh] at h
  unconnected := rfl

def ascending : Hashing := ⟨.ascending Int, .ascending ElemPtr⟩

def sink (type : Int) : Element where
  className := "Sink"
  kind := .processor
  isTCPServer := false
  m_id := -1
  m_inputPins := (∅ : QMap InputPin).insert 0 ⟨0, type, false, false, true, none⟩
  m_outputPins := ∅

/-- A start that fails on a required pin leaves the pipeline stopped. -/
theorem failed_start_unconnected_sink :
    ∃ t, (fresh (fun _ => sink 5) 1).start (fun _ => succeeding) ascending =
      some (t, .requiredPins) ∧ t.Stopped := by
  have hst : ∃ t, (fresh (fun _ => sink 5) 1).start (fun _ => succeeding) ascending =
      some (t, .requiredPins) := ⟨_, rfl⟩
  obtain ⟨t, ht⟩ := hst
  obtain ⟨hiff, -⟩ := failed_start_stopped_iff (fresh_stopped _ 1) (fun _ _ _ => ⟨rfl, rfl⟩) ht rfl
  exact ⟨t, ht, hiff.mpr ⟨0, 0, by decide, by decide⟩⟩

/-- A single producer whose `start()` returns false stays connected to the heartbeat. -/
theorem failed_start_not_stopped :
    ¬ ∀ (hooks : ElemPtr → Hooks) (h : Hashing) (s t : Pipeline) (exit : StartExit),
      s.Stopped →
      (∀ (k : Int) p, s.m_children[k]? = some p →
        (hooks p).stop.returns = true ∧ (hooks p).deinit.returns = true) →
      s.start hooks h = some (t, exit) → failedAfterInit exit = true → t.Stopped := by
  intro hstopped
  have ht := hstopped (fun _ => { succeeding with start := ⟨none, .returns false⟩ }) ascending
    (fresh (fun _ => Graph.Pipeline.source 5) 1) _ .startFailed (fresh_stopped _ 1)
    (fun _ _ _ => ⟨rfl, rfl⟩) rfl rfl
  exact absurd ht.unconnected (by decide)

end Pipeline

end ParleVision.Lifecycle
