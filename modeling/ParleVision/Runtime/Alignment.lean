import ParleVision.Runtime.Frames

namespace ParleVision.Runtime
open Lib

variable {E P C : Type} {net : Network E P C} {first : Nat} {stale : E → Nat → Nat}

def Worker.TakenSynchronous (net : Network E P C) (e : E) : Worker P C → Prop
  | .processing calls => ∀ c ∈ net.syncInputs e, c ∈ calls.got
  | _ => True

/-- A `process()` takes an item from each synchronous pin before it returns. A second one cannot be
taken, `get` throws. -/
def TakesSynchronous (net : Network E P C) (s : PipelineState E P C) : Event E P C → Prop
  | .work e (.returns _) => (s.worker e).TakenSynchronous net e
  | _ => True

/-- One item was taken from a synchronous pin for each run, as far as the last one has come. -/
structure TakenFor (net : Network E P C) (f : Flow E C) (e : E) (w : Worker P C) : Prop where
  before : ¬ w.failed → ∀ c ∈ net.syncInputs e, (f.runs e).length ≤ (f.taken c).length + 1
  after : ¬ w.failed → ∀ c ∈ net.syncInputs e, ¬ w.untaken c →
    (f.runs e).length ≤ (f.taken c).length

theorem TakenFor.congr {f f' : Flow E C} {e : E} {w : Worker P C} (h : TakenFor net f e w)
    (hsame : SameFor net f f' e) : TakenFor net f' e w := by
  have htaken {c : C} (hc : c ∈ net.syncInputs e) : f'.taken c = f.taken c :=
    hsame.taken c ((net.mem_syncInputs e c).mp hc).1
  constructor
  case before =>
    intro hf c hc
    rw [hsame.runs, htaken hc]
    exact h.before hf c hc
  case after =>
    intro hf c hc
    rw [hsame.runs, htaken hc]
    exact h.after hf c hc

variable [DecidableEq E] [DecidableEq C] {f f' : Flow E C} {e : E} {w w' : Worker P C}
  {action : Action P C}

theorem TakenFor.run (h : TakenFor net f e w) (hr : Run net f e w action f' w')
    (hreturns : ∀ calls b, w = .processing calls → action = .returns b →
      ∀ c ∈ net.syncInputs e, c ∈ calls.got) : TakenFor net f' e w' := by
  cases hr with
  | quiet hq =>
    have hfailed (hw : ¬ w'.failed) : ¬ w.failed := fun hf => hw (hq.failed hf)
    refine ⟨fun hf => h.before (hfailed hf), fun hf c hc hu => h.after (hfailed hf) c hc ?_⟩
    obtain ⟨htarget, hsync⟩ := (net.mem_syncInputs e c).mp hc
    by_cases hret : ∀ calls b, w = .processing calls → action ≠ .returns b
    · exact fun hw => hu (hq.untaken_kept hf hret c htarget (.inl hsync) hw)
    · push Not at hret
      obtain ⟨calls, b, rfl, haction⟩ := hret
      exact fun hw => hw (hreturns calls b rfl haction c hc)
  | @begins serial _ hw hw' =>
    subst hw
    have hruns : (f.setProcessingSerial e serial).runs e = f.runs e ++ [serial] :=
      Function.update_self ..
    constructor
    case before =>
      intro _ c hc
      rw [hruns, List.length_append]
      exact Nat.succ_le_succ (h.after id c hc id)
    case after =>
      intro _ c _ hu
      refine absurd ?_ hu
      obtain ⟨-, -, rfl⟩ | ⟨-, rfl⟩ := hw'
      · exact List.not_mem_nil
      · trivial
  | pushes _ _ hu _ _ _ huntaken =>
    have hfailed : ¬ w.failed := fun hf => Worker.failed_not_underway hf hu
    exact ⟨fun _ => h.before hfailed,
      fun _ c hc hn => h.after hfailed c hc fun hw => hn ((huntaken c).mpr hw)⟩
  | announces _ hnew hu _ _ huntaken =>
    have hfailed : ¬ w.failed := fun hf => Worker.failed_not_underway hf hu
    have hf := newData_announces hnew
    constructor
    case before =>
      rw [hf.runs, hf.taken]
      exact fun _ => h.before hfailed
    case after =>
      rw [hf.runs, hf.taken]
      exact fun _ c hc hn => h.after hfailed c hc fun hw => hn ((huntaken c).mpr hw)
  | @takes c _ d _ _ hget hu _ hnext =>
    have hfailed : ¬ w.failed := fun hf => Worker.failed_not_underway hf hu
    obtain ⟨queue, -, rfl⟩ := get_some hget
    have hself : (Function.update f.taken c (f.taken c ++ [d.serial]) c).length =
        (f.taken c).length + 1 := by
      rw [Function.update_self, List.length_append]
      rfl
    constructor
    case before =>
      intro _ c' hc'
      change _ ≤ (Function.update f.taken c _ c').length + 1
      by_cases hne : c' = c
      · subst c'
        rw [hself]
        exact Nat.le_succ_of_le (h.before hfailed c hc')
      · rw [Function.update_of_ne hne]
        exact h.before hfailed c' hc'
    case after =>
      intro hf c' hc' hn
      change _ ≤ (Function.update f.taken c _ c').length
      by_cases hne : c' = c
      · subst c'
        rw [hself]
        exact h.before hfailed c hc'
      · rw [Function.update_of_ne hne]
        obtain hf' | ⟨-, -, hiff⟩ := hnext
        · exact absurd hf' hf
        · exact h.after hfailed c' hc' fun hw => hn ((hiff c').mpr ⟨hw, hne⟩)

variable [DecidableEq P] {s s' : PipelineState E P C}

theorem step_takenFor {event : Event E P C} (ha : Accounted net s)
    (hs : s.step net event = some s') (htakes : TakesSynchronous net s event)
    (h : ∀ e, TakenFor net s.flow e (s.worker e)) (e : E) :
    TakenFor net s'.flow e (s'.worker e) := by
  refine forall_step ha hs (fun _ _ _ _ hsame ht => ht.congr hsame) ?_ ?_ ?_ h e
  · exact fun f e ht => ⟨fun _ => ht.before id, fun _ c hc _ => ht.after id c hc id⟩
  · exact fun f e serial ht => ⟨fun _ => ht.before id, fun _ c hc _ => ht.after id c hc id⟩
  · intro e action w' hevent hrun ht
    refine ht.run hrun ?_
    intro calls b hw haction
    rw [hevent, haction] at htakes
    change (s.worker e).TakenSynchronous net e at htakes
    rw [hw] at htakes
    exact htakes

omit [DecidableEq E] [DecidableEq P] in
/-- The items on a synchronous connection are those of consecutive frames. -/
theorem Accounted.put_consecutive (ha : Accounted net s) {c : C}
    (hsync : net.isSynchronous c = true)
    (hconsecutive : s.flow.announced (net.source c) =
      List.range' first (s.flow.announced (net.source c)).length) :
    s.put c = List.range' first (s.put c).length ∧
      s.taken c = List.range' first (s.taken c).length := by
  have hfront := (ha.notified_isPrefix hsync).1.trans (ha.runs_isPrefix (net.source c))
  have htaken : s.taken c <+: s.put c := by
    rw [ha.queued c]
    exact List.prefix_append ..
  rw [hconsecutive] at hfront
  exact ⟨eq_range'_of_isPrefix hfront, eq_range'_of_isPrefix (htaken.trans hfront)⟩

omit [DecidableEq E] [DecidableEq P] in
/-- And those that wait are of the frames after those that were taken. -/
theorem Accounted.queue_consecutive (ha : Accounted net s) {c : C}
    (hsync : net.isSynchronous c = true)
    (hconsecutive : s.flow.announced (net.source c) =
      List.range' first (s.flow.announced (net.source c)).length) :
    (s.m_queue c).map Data.serial =
      List.range' (first + (s.taken c).length) ((s.put c).length - (s.taken c).length) := by
  have hsplit := ha.queued c
  rw [(ha.put_consecutive hsync hconsecutive).1] at hsplit
  exact range'_rest hsplit

omit [DecidableEq E] [DecidableEq P] in
/-- An item that is due is at the head of each queue. -/
theorem head_of_entered {e : E} {x : Nat} (ha : Accounted net s)
    (hserials : Serials net first stale s) (htaken : TakenFor net s.flow e (s.worker e))
    (hconsecutive : ∀ e, s.flow.announced e = List.range' first (s.flow.announced e).length)
    (hw : s.worker e = .entered x) {c : C} (hc : c ∈ net.syncInputs e) :
    (s.m_queue c).head?.map Data.serial = some x := by
  obtain ⟨htarget, hsync⟩ := (net.mem_syncInputs e c).mp hc
  -- the serial is that of the frame after those that were run
  obtain ⟨hin, hx⟩ := ha.entered_eq (hconsecutive e) hw
  rw [hw] at htaken
  -- and the pin has given one item for each of those
  have hlength : (s.taken c).length = (s.runs e).length := by
    have hle := (ha.element e).taken c htarget
    have hge := htaken.after id c hc id
    omega
  obtain ⟨hput, -⟩ := ha.put_consecutive hsync (hconsecutive (net.source c))
  have hmem : x ∈ s.put c := by
    have hhas := (net.m_hasSynchronousPin_iff e).mpr ⟨c, htarget, hsync⟩
    rw [(ha.element (net.source c)).notified c rfl]
    exact List.mem_append_left _ ((hserials.complete e hhas x).mp hin c hc)
  have hqueue : (s.m_queue c).map Data.serial =
      List.range' x ((s.put c).length - (s.runs e).length) := by
    have hsplit := ha.queued c
    rw [hput] at hsplit
    obtain ⟨k, -, hk, hrest⟩ := List.range'_eq_append_iff.mp hsplit
    have hlengths := congrArg List.length hk
    rw [List.length_range', hlength] at hlengths
    rw [hrest, hx, hlengths, Nat.mul_one]
  have hpos : (s.put c).length - (s.runs e).length ≠ 0 := by
    rw [hput, List.mem_range'_1] at hmem
    omega
  rw [← List.head?_map, hqueue, List.head?_range', if_neg hpos]

structure InStep (net : Network E P C) (first : Nat) (stale : E → Nat → Nat)
    (s : PipelineState E P C) : Prop where
  unwrapped : Unwrapped net first stale s
  framed : Framed net first s
  taken : ∀ e, TakenFor net s.flow e (s.worker e)

omit [DecidableEq E] [DecidableEq P] in
theorem started_inStep (hfirst : first < 2 ^ 32) :
    InStep net first stale (.started first stale) where
  unwrapped := started_unwrapped hfirst
  framed := started_framed
  taken _ := ⟨fun _ _ _ => Nat.zero_le _, fun _ _ _ _ => Nat.le_refl _⟩

theorem InStep.step {event : Event E P C} (h : InStep net first stale s)
    (hpins : ∀ e, net.isProducer e = false → net.m_hasSynchronousPin e = true)
    (hstale : ∀ e x, first ≤ x → stale e x = 0) (hwrap : NotWrapping s event)
    (htakes : TakesSynchronous net s event) (hs : s.step net event = some s') :
    InStep net first stale s' := by
  have harrives : ArrivesInOrder net s event := by
    cases event with
    | schedule order answer => trivial
    | work e action =>
      intro c _ hhas
      rw [hpins _ (net.target_not_producer c)] at hhas
      cases hhas
  have ha := h.unwrapped.accounted
  exact ⟨h.unwrapped.step hstale hwrap harrives hs, h.framed.step ha hs,
    step_takenFor ha hs htakes h.taken⟩

/-- Each frame is run once, with the items of that frame. -/
structure FrameAligned (net : Network E P C) (s : PipelineState E P C) : Prop where
  /-- an element is run once for each serial it was dispatched with -/
  once : ∀ e, s.runs e ++ (s.worker e).waiting = s.dispatched e
  /-- and these increase -/
  increasing : ∀ e, ((s.dispatched e).map unsigned).Pairwise (· < ·)
  /-- when `__process` is entered, the item of the frame is the first on each synchronous pin -/
  heads : ∀ e serial, s.worker e = .entered serial → ∀ c ∈ net.syncInputs e,
    (s.m_queue c).head?.map Data.serial = some serial
  /-- nothing is lost, duplicated or reordered on a connection -/
  kept : ∀ c, s.put c = s.taken c ++ (s.m_queue c).map Data.serial
  /-- nor is an item taken in the run of another frame -/
  paired : ∀ c, net.isSynchronous c = true → s.taken c <+: s.runs (net.target c)

/-- In a pipeline all processors of which have a synchronous pin, from which they take one item in
each run, the frames stay aligned. -/
theorem frame_alignment (hacyclic : net.Acyclic)
    (hpins : ∀ e, net.isProducer e = false → net.m_hasSynchronousPin e = true)
    (hfirst : first < 2 ^ 32) (hstale : ∀ e x, first ≤ x → stale e x = 0)
    (h : Reaches (PipelineState.step net)
      (fun s event => NotWrapping s event ∧ TakesSynchronous net s event)
      (.started first stale) s) : FrameAligned net s := by
  have hinv : InStep net first stale s := by
    refine h.invariant (started_inStep hfirst) ?_
    intro s event s' hi hallowed hs
    exact hi.step hpins hstale hallowed.1 hallowed.2 hs
  obtain ⟨hunwrapped, hframed, htaken⟩ := hinv
  have ha := hunwrapped.accounted
  have hserials := hunwrapped.serials
  have hconsecutive := hserials.consecutive ha hframed hacyclic
    fun c => hpins _ (net.target_not_producer c)
  constructor
  case once => exact fun e => (ha.element e).dispatched
  case increasing => exact fun e => hunwrapped.increasing (List.sublist_append_left ..)
  case heads =>
    exact fun e x hw c hc => head_of_entered ha hserials (htaken e) hconsecutive hw hc
  case kept => exact ha.queued
  case paired =>
    intro c hsync
    obtain ⟨-, htakens⟩ := ha.put_consecutive hsync (hconsecutive (net.source c))
    have hle := (ha.element (net.target c)).taken c rfl
    have hruns := ha.runs_isPrefix (net.target c)
    rw [hconsecutive] at hruns
    rw [htakens, eq_range'_of_isPrefix hruns]
    exact range'_isPrefix hle

instance (net : Network E P C) (e : E) (w : Worker P C) : Decidable (w.TakenSynchronous net e) :=
  match w with
  | .processing calls => inferInstanceAs (Decidable (∀ c ∈ net.syncInputs e, c ∈ calls.got))
  | .idle | .dispatched .. | .entered .. | .peeking .. | .flushing .. | .putting .. | .posting ..
  | .ending .. | .notError .. | .thrown | .leaving | .finished .. => .isTrue trivial

instance (s : PipelineState E P C) (event : Event E P C) :
    Decidable (TakesSynchronous net s event) :=
  match event with
  | .work e (.returns _) => inferInstanceAs (Decidable ((s.worker e).TakenSynchronous net e))
  | .schedule .. | .work _ (.get _) | .work _ (.clear _) | .work _ (.put _) | .work _ .setError
  | .work _ .throws => .isTrue trivial

/-- A frame that has come to the end of a row. -/
theorem frame_alignment_chain : ∃ s : PipelineState (Fin 3) (Fin 2) (Fin 2), s.runs 2 = [1] ∧
    FrameAligned (chain true) s := by
  have hend : (run (guarded (PipelineState.step (chain true))
      fun s event => NotWrapping s event ∧ TakesSynchronous (chain true) s event)
      (.started 1 fun _ _ => 0) chainFrame).map (·.runs 2) = some [1] := by decide +kernel
  obtain ⟨s, hs, hruns⟩ := Option.map_eq_some_iff.mp hend
  have hacyclic := (chain true).acyclic_of_rank Fin.val (by decide)
  exact ⟨s, hruns, frame_alignment hacyclic (by decide) (by decide) (fun _ _ _ => rfl)
    (.of_guarded_run hs)⟩

end ParleVision.Runtime
