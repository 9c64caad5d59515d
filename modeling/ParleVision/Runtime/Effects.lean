import ParleVision.Runtime.Step

namespace ParleVision.Runtime
open ParleVision.Lifecycle (State)

variable {E P C : Type} (net : Network E P C)

namespace Worker

/-- The element was dispatched, and `schedule` has not seen it finished. -/
def Busy : Worker P C → Prop
  | .idle => False
  | _ => True

/-- The serial of a run that was dispatched and has not begun. -/
def waiting : Worker P C → List Nat
  | .dispatched serial | .entered serial => [serial]
  | _ => []

/-- The run has begun and may still put or take items. -/
def underway : Worker P C → Prop
  | .peeking .. | .flushing .. | .processing .. | .putting .. | .posting .. => True
  | _ => False

def unput (c : C) : Worker P C → Prop
  | .peeking .. | .flushing .. => True
  | .processing calls => net.fromPin c ∉ calls.put
  | .putting calls todo pushed =>
    net.fromPin c ∉ calls.put ∨ c ∈ if pushed then todo.tail else todo
  | .posting todo pushed _ => c ∈ if pushed then todo.tail else todo
  | _ => False

def untaken (c : C) : Worker P C → Prop
  | .peeking .. => True
  | .flushing todo => c ∈ todo
  | .processing calls | .putting calls .. => c ∉ calls.got
  | _ => False

def announcing : Worker P C → Option C
  | .putting _ todo true | .posting todo true _ => todo.head?
  | _ => none

/-- The run has ended early, or it has returned false. -/
def failed : Worker P C → Prop
  | .thrown | .leaving | .finished false => True
  | _ => False

/-- The lists a run works off are of its own connections. -/
def Shaped (e : E) : Worker P C → Prop
  | .peeking todo nullDetected => (∀ c ∈ todo, net.target c = e) ∧
    (nullDetected = true → net.m_hasSynchronousPin e = true)
  | .flushing todo => todo.Nodup ∧ ∀ c ∈ todo, net.target c = e
  | .putting calls todo _ =>
    todo.Nodup ∧ ∀ c ∈ todo, net.source c = e ∧ net.fromPin c ∈ calls.put
  | .posting todo _ _ => todo.Nodup ∧ ∀ c ∈ todo, net.source c = e ∧ net.isSynchronous c
  | _ => True

end Worker

/-- A step that puts and takes nothing. What was to be put still is, up to the connections that are
asynchronous, unless the run ends early. What was to be taken still is, unless the run ends early,
`process()` returns, or the synchronous pins alone are to be flushed of a NULL. -/
structure Quiet (e : E) (w : Worker P C) (action : Action P C) (w' : Worker P C) : Prop where
  waiting : w'.waiting = w.waiting
  underway : w'.underway → w.underway
  unput : ∀ c, w'.unput net c → w.unput net c
  unput_sync : ¬ w'.failed → ∀ c, net.source c = e → net.isSynchronous c → w.unput net c →
    w'.unput net c
  untaken : ∀ c, w'.untaken c → w.untaken c
  untaken_kept : ¬ w'.failed → (∀ calls b, w = .processing calls → action ≠ .returns b) →
    ∀ c, net.target c = e → net.isSynchronous c = true ∨ w ≠ .peeking [] true →
      w.untaken c → w'.untaken c
  failed : w.failed → w'.failed
  not_announcing : w.announcing = none ∧ w'.announcing = none

variable {net}

/-- A step that puts and takes nothing, and none of the lists changes its meaning. -/
theorem Quiet.of_eq {e : E} {w w' : Worker P C} {action : Action P C}
    (hwaiting : w'.waiting = w.waiting) (hunderway : w'.underway → w.underway)
    (hunput : ∀ c, w'.unput net c ↔ w.unput net c) (huntaken : ∀ c, w'.untaken c ↔ w.untaken c)
    (hfailed : w.failed → w'.failed) (ha : w.announcing = none) (ha' : w'.announcing = none) :
    Quiet net e w action w' where
  waiting := hwaiting
  underway := hunderway
  unput c := (hunput c).mp
  unput_sync _ c _ _ := (hunput c).mpr
  untaken c := (huntaken c).mp
  untaken_kept _ _ c _ _ := (huntaken c).mpr
  failed := hfailed
  not_announcing := ⟨ha, ha'⟩

/-- An exception ends a run. -/
theorem Quiet.thrown {e : E} {w : Worker P C} {action : Action P C} (hwaiting : w.waiting = [])
    (ha : w.announcing = none) : Quiet net e w action .thrown where
  waiting := hwaiting.symm
  underway h := h.elim
  unput _ h := h.elim
  unput_sync h := absurd trivial h
  untaken _ h := h.elim
  untaken_kept h := absurd trivial h
  failed _ := trivial
  not_announcing := ⟨ha, rfl⟩

variable (net) [DecidableEq E]

section
variable [DecidableEq C]

/-- The part of a run that a step takes part in: what becomes of the flow and of the run. -/
inductive Run (f : Flow E C) (e : E) (w : Worker P C) (action : Action P C) :
    Flow E C → Worker P C → Prop where
  | quiet {w' : Worker P C} : Quiet net e w action w' → Run f e w action f w'
  | begins {serial : Nat} {w' : Worker P C} : w = .entered serial →
      ((net.isProducer e = true ∧ f.Later e serial ∧ w' = .processing ⟨[], []⟩) ∨
        (net.isProducer e = false ∧ w' = .peeking (net.inputs e) false)) →
      Run f e w action (f.setProcessingSerial e serial) w'
  | pushes {c : C} {isNull : Bool} {w' : Worker P C} : net.source c = e →
      (isNull = true → net.isSynchronous c = true) →
      w.underway → w'.underway → w.unput net c →
      (∀ c', w'.unput net c' ↔ w.unput net c' ∧ c' ≠ c) → (∀ c', w'.untaken c' ↔ w.untaken c') →
      w.announcing = none → w'.announcing = some c → Run f e w action (f.push net c isNull) w'
  | announces {c : C} {f' : Flow E C} {w' : Worker P C} : net.source c = e →
      f.newData net c = some f' → w.underway → w'.underway →
      (∀ c', w'.unput net c' ↔ w.unput net c') → (∀ c', w'.untaken c' ↔ w.untaken c') →
      w.announcing = some c → w'.announcing = none → Run f e w action f' w'
  | takes {c : C} {f' : Flow E C} {d : Data} {w' : Worker P C} : net.target c = e →
      f.get c = some (f', d) → w.underway → w.untaken c →
      (w'.failed ∨ w'.underway ∧ (∀ c', w'.unput net c' ↔ w.unput net c') ∧
        ∀ c', w'.untaken c' ↔ w.untaken c' ∧ c' ≠ c) →
      w.announcing = none → w'.announcing = none → Run f e w action f' w'

variable {net}

/-- What a step of a run leaves of the rest of the pipeline. -/
structure Works (net : Network E P C) (s : PipelineState E P C) (e : E) (action : Action P C)
    (s' : PipelineState E P C) (w' : Worker P C) : Prop where
  worker : s'.worker = Function.update s.worker e w'
  phase : s'.phase = s.phase
  runQueue : s'.m_runQueue = s.m_runQueue
  others : ∀ e', e' ≠ e → s'.m_state e' = s.m_state e'
  state : s'.m_state e = s.m_state e ∨
    s'.m_state e ∈ [State.PLE_RUNNING, .PLE_DONE, .PLE_ERROR]
  busy : (s.worker e).Busy
  busy' : w'.Busy
  shaped : w'.Shaped net e
  run : Run net s.flow e (s.worker e) action s'.flow w'

variable {s s' : PipelineState E P C} {e : E} {action : Action P C} {w' : Worker P C}

theorem goto_works {f : Flow E C} (hbusy : (s.worker e).Busy) (hbusy' : w'.Busy)
    (hshaped : w'.Shaped net e) (hrun : Run net s.flow e (s.worker e) action f w') :
    Works net s e action ((s.withFlow f).goto e w') w' where
  worker := rfl
  phase := rfl
  runQueue := rfl
  others _ _ := rfl
  state := .inl rfl
  busy := hbusy
  busy' := hbusy'
  shaped := hshaped
  run := hrun

theorem setState_works {state : State} (hstate : state ∈ [State.PLE_RUNNING, .PLE_DONE, .PLE_ERROR])
    (hbusy : (s.worker e).Busy) (hbusy' : w'.Busy) (hshaped : w'.Shaped net e)
    (hrun : Run net s.flow e (s.worker e) action s.flow w') :
    Works net s e action ((s.setState e state).goto e w') w' where
  worker := rfl
  phase := rfl
  runQueue := rfl
  others _ hne := Function.update_of_ne hne ..
  state := .inr (by
    change Function.update s.m_state e state e ∈ _
    rw [Function.update_self]
    exact hstate)
  busy := hbusy
  busy' := hbusy'
  shaped := hshaped
  run := hrun

theorem get_takes {f f' : Flow E C} {c : C} {d : Data} {calls : Calls P C} {w : Worker P C}
    (hw : w = .processing calls) (hc : net.target c = e) (hgot : c ∉ calls.got)
    (hget : f.get c = some (f', d)) :
    Run net f e w action f' (.processing { calls with got := c :: calls.got }) := by
  subst w
  refine .takes hc hget trivial hgot (.inr ⟨trivial, fun _ => Iff.rfl, ?_⟩) rfl rfl
  intro c'
  change c' ∉ c :: calls.got ↔ c' ∉ calls.got ∧ c' ≠ c
  rw [List.mem_cons, not_or, and_comm]

/-- What is left of a list once its head is done. -/
theorem mem_tail_iff {α : Type} {a b : α} {l : List α} (h : (a :: l).Nodup) :
    b ∈ l ↔ b ∈ a :: l ∧ b ≠ a := by
  rw [List.mem_cons]
  constructor
  · intro hb
    exact ⟨.inr hb, fun he => (List.nodup_cons.mp h).1 (he ▸ hb)⟩
  · rintro ⟨hb, hne⟩
    exact hb.resolve_left hne

theorem pushes_putting {f : Flow E C} {calls : Calls P C} {c : C} {todo : List C}
    {w : Worker P C} (hw : w = .putting calls (c :: todo) false) (hshaped : w.Shaped net e) :
    Run net f e w action (f.push net c false) (.putting calls (c :: todo) true) := by
  subst w
  obtain ⟨hnodup, htodo⟩ := hshaped
  obtain ⟨hsource, hput⟩ := htodo c (List.mem_cons_self ..)
  refine .pushes hsource Bool.noConfusion trivial trivial (.inr (List.mem_cons_self ..)) ?_
    (fun _ => Iff.rfl) rfl rfl
  intro c'
  change net.fromPin c' ∉ calls.put ∨ c' ∈ todo ↔
    (net.fromPin c' ∉ calls.put ∨ c' ∈ c :: todo) ∧ c' ≠ c
  rw [mem_tail_iff hnodup, or_and_right]
  refine or_congr_left ?_
  exact ⟨fun hc => ⟨hc, fun he => hc (he ▸ hput)⟩, And.left⟩

theorem pushes_posting {f : Flow E C} {c : C} {todo : List C} {result : Bool} {w : Worker P C}
    (hw : w = .posting (c :: todo) false result) (hshaped : w.Shaped net e) :
    Run net f e w action (f.push net c true) (.posting (c :: todo) true result) := by
  subst w
  obtain ⟨hnodup, htodo⟩ := hshaped
  obtain ⟨hsource, hsync⟩ := htodo c (List.mem_cons_self ..)
  refine .pushes hsource (fun _ => hsync) trivial trivial (List.mem_cons_self ..) ?_
    (fun _ => Iff.rfl) rfl rfl
  exact fun c' => mem_tail_iff hnodup

/-- An exception. -/
theorem thrown_works (hwaiting : (s.worker e).waiting = []) (hbusy : (s.worker e).Busy)
    (ha : (s.worker e).announcing = none) : Works net s e action (s.goto e .thrown) .thrown :=
  goto_works hbusy trivial trivial (.quiet (.thrown hwaiting ha))

variable [DecidableEq P]

/-- A step of `process()`. -/
theorem process_works {calls : Calls P C} (hw : s.worker e = .processing calls)
    (h : s.process net e calls action = some s') : ∃ w', Works net s e action s' w' := by
  have hbusy : (s.worker e).Busy := by
    rw [hw]
    trivial
  have hthrown : Works net s e action (s.goto e .thrown) .thrown :=
    thrown_works (by rw [hw]; rfl) hbusy (by rw [hw]; rfl)
  cases action with
  | get c =>
    simp only [PipelineState.process] at h
    split at h
    case isTrue hc =>
      split at h
      · cases h
        exact ⟨_, hthrown⟩
      case isFalse hgot =>
        split at h
        · cases h
          exact ⟨_, hthrown⟩
        case h_2 f d hget =>
          cases h
          cases hnull : d.isNull with
          | true =>
            refine ⟨_, goto_works hbusy trivial trivial ?_⟩
            exact .takes hc hget (by rw [hw]; trivial) (by rw [hw]; exact hgot) (.inl trivial)
              (by rw [hw]; rfl) rfl
          | false =>
            exact ⟨_, goto_works hbusy trivial trivial (get_takes hw hc hgot hget)⟩
    · cases h
  | clear c =>
    simp only [PipelineState.process] at h
    split at h
    case isTrue hc =>
      split at h
      · cases h
        exact ⟨_, hthrown⟩
      case isFalse hgot =>
        split at h
        · cases h
          exact ⟨_, hthrown⟩
        case h_2 f d hget =>
          cases h
          exact ⟨_, goto_works hbusy trivial trivial (get_takes hw hc hgot hget)⟩
    · cases h
  | put p =>
    simp only [PipelineState.process] at h
    split at h
    case isTrue hp =>
      split at h
      · cases h
        exact ⟨_, hthrown⟩
      case isFalse hput =>
        cases h
        refine ⟨_, goto_works hbusy trivial ?_ (.quiet ?_)⟩
        · refine ⟨net.outputs_nodup p, fun c hc => ?_⟩
          have hpin := (net.mem_outputs p c).mp hc
          exact ⟨by rw [Network.source, hpin, hp], by rw [hpin]; exact List.mem_cons_self ..⟩
        · rw [hw]
          refine .of_eq rfl (fun _ => trivial) ?_ (fun _ => Iff.rfl) id rfl rfl
          intro c
          change (net.fromPin c ∉ p :: calls.put ∨ c ∈ net.outputs p) ↔ net.fromPin c ∉ calls.put
          rw [net.mem_outputs, List.mem_cons, not_or]
          constructor
          · rintro (⟨-, hc⟩ | hc)
            · exact hc
            · rw [hc]
              exact hput
          · intro hc
            by_cases hpc : net.fromPin c = p
            · exact .inr hpc
            · exact .inl ⟨hpc, hc⟩
    · cases h
  | setError =>
    cases h
    refine ⟨.processing calls, ?_, rfl, rfl, ?_, ?_, hbusy, trivial, trivial, .quiet ?_⟩
    · rw [← hw]
      exact (Function.update_eq_self e s.worker).symm
    · exact fun e' hne => Function.update_of_ne hne ..
    · right
      change Function.update s.m_state e .PLE_ERROR e ∈ _
      rw [Function.update_self]
      decide
    · rw [hw]
      exact .of_eq rfl id (fun _ => Iff.rfl) (fun _ => Iff.rfl) id rfl rfl
  | returns b =>
    cases h
    refine ⟨_, goto_works hbusy trivial ?_ (.quiet ?_)⟩
    · refine ⟨net.posts_nodup e calls.put, fun c hc => ?_⟩
      obtain ⟨hsource, hsync, -⟩ := (net.mem_posts e calls.put c).mp hc
      exact ⟨hsource, hsync⟩
    · rw [hw]
      refine ⟨rfl, fun _ => trivial, ?_, ?_, fun c h => h.elim, ?_, id, rfl, rfl⟩
      · intro c hc
        exact ((net.mem_posts e calls.put c).mp hc).2.2
      · intro _ c hsource hsync hput
        exact (net.mem_posts e calls.put c).mpr ⟨hsource, hsync, hput⟩
      · intro _ hnot
        exact absurd rfl (hnot calls b rfl)
  | throws =>
    cases h
    exact ⟨_, hthrown⟩

/-- The run peeks at one pin after the other. -/
theorem peeking_works {todo : List C} {nullDetected : Bool}
    (hw : s.worker e = .peeking todo nullDetected) (hshaped : (s.worker e).Shaped net e)
    (h : s.work net e action = some s') : ∃ w', Works net s e action s' w' := by
  unfold PipelineState.work at h
  rw [hw] at hshaped
  obtain ⟨htodo, hnull⟩ := hshaped
  have hnext (w' : Worker P C) (hw' : ∃ todo' null', w' = .peeking todo' null')
      (hshaped' : w'.Shaped net e) : Works net s e action (s.goto e w') w' := by
    obtain ⟨todo', null', rfl⟩ := hw'
    refine goto_works (by rw [hw]; trivial) trivial hshaped' (.quiet ?_)
    rw [hw]
    exact .of_eq rfl id (fun _ => Iff.rfl) (fun _ => Iff.rfl) id rfl rfl
  cases todo with
  | nil =>
    simp only [hw] at h
    cases h
    cases nullDetected with
    | true =>
      refine ⟨_, goto_works (by rw [hw]; trivial) trivial ?_ (.quiet ?_)⟩
      · exact ⟨(net.inputs_nodup e).filter _, fun c hc => ((net.mem_syncInputs e c).mp hc).1⟩
      · rw [hw]
        refine ⟨rfl, fun _ => trivial, fun _ _ => trivial, fun _ _ _ _ _ => trivial,
          fun _ _ => trivial, ?_, id, rfl, rfl⟩
        intro _ _ c htarget hsync _
        have hsync := hsync.resolve_right (absurd rfl)
        exact (net.mem_syncInputs e c).mpr ⟨htarget, hsync⟩
    | false =>
      refine ⟨_, goto_works (by rw [hw]; trivial) trivial trivial (.quiet ?_)⟩
      rw [hw]
      refine .of_eq rfl (fun _ => trivial) ?_ ?_ id rfl rfl
      · exact fun c => ⟨fun _ => trivial, fun _ => List.not_mem_nil⟩
      · exact fun c => ⟨fun _ => trivial, fun _ => List.not_mem_nil⟩
  | cons c todo =>
    have htail : ∀ c ∈ todo, net.target c = e := (List.forall_mem_cons.mp htodo).2
    simp only [hw] at h
    split at h
    case isTrue hpin =>
      have hsync := (Bool.and_eq_true_iff.mp hpin).1
      have hhas : net.m_hasSynchronousPin e = true :=
        (net.m_hasSynchronousPin_iff e).mpr ⟨c, htodo c (List.mem_cons_self ..), hsync⟩
      split at h
      · cases h
        exact ⟨_, thrown_works (by rw [hw]; rfl) (by rw [hw]; trivial) (by rw [hw]; rfl)⟩
      · cases h
        exact ⟨_, hnext _ ⟨_, _, rfl⟩ ⟨htail, fun _ => hhas⟩⟩
    · cases h
      exact ⟨_, hnext _ ⟨_, _, rfl⟩ ⟨htail, hnull⟩⟩

/-- The run takes an item from each pin. -/
theorem flushing_works {todo : List C} (hw : s.worker e = .flushing todo)
    (hshaped : (s.worker e).Shaped net e) (h : s.work net e action = some s') :
    ∃ w', Works net s e action s' w' := by
  unfold PipelineState.work at h
  rw [hw] at hshaped
  obtain ⟨hnodup, htodo⟩ := hshaped
  cases todo with
  | nil =>
    simp only [hw] at h
    cases h
    refine ⟨_, goto_works (by rw [hw]; trivial) trivial ?_ (.quiet ?_)⟩
    · refine ⟨net.posts_nodup e [], fun c hc => ?_⟩
      obtain ⟨hsource, hsync, -⟩ := (net.mem_posts e [] c).mp hc
      exact ⟨hsource, hsync⟩
    · rw [hw]
      refine ⟨rfl, fun _ => trivial, fun _ _ => trivial, ?_, fun _ h => h.elim, ?_, id, rfl, rfl⟩
      · intro _ c hsource hsync _
        exact (net.mem_posts e [] c).mpr ⟨hsource, hsync, List.not_mem_nil⟩
      · intro _ _ c _ _ hc
        exact absurd hc List.not_mem_nil
  | cons c todo =>
    simp only [hw] at h
    split at h
    · cases h
      exact ⟨_, thrown_works (by rw [hw]; rfl) (by rw [hw]; trivial) (by rw [hw]; rfl)⟩
    case h_2 f d hget =>
      cases h
      have htail : todo.Nodup ∧ ∀ c ∈ todo, net.target c = e :=
        ⟨hnodup.of_cons, (List.forall_mem_cons.mp htodo).2⟩
      refine ⟨_, goto_works (by rw [hw]; trivial) trivial htail ?_⟩
      rw [hw]
      refine .takes (htodo c (List.mem_cons_self ..)) hget trivial (List.mem_cons_self ..)
        (.inr ⟨trivial, fun _ => Iff.rfl, ?_⟩) rfl rfl
      exact fun c' => mem_tail_iff hnodup

/-- The run announces the items that a `put()` brings to the connections of a pin. -/
theorem putting_works {calls : Calls P C} {todo : List C} {pushed : Bool}
    (hw : s.worker e = .putting calls todo pushed) (hshaped : (s.worker e).Shaped net e)
    (h : s.work net e action = some s') : ∃ w', Works net s e action s' w' := by
  unfold PipelineState.work at h
  rw [hw] at hshaped
  cases todo with
  | nil =>
    simp only [hw] at h
    cases h
    refine ⟨_, goto_works (by rw [hw]; trivial) trivial trivial (.quiet ?_)⟩
    rw [hw]
    refine .of_eq rfl (fun _ => trivial) ?_ (fun _ => Iff.rfl) id ?_ rfl
    · intro c
      change net.fromPin c ∉ calls.put ↔ net.fromPin c ∉ calls.put ∨ c ∈ if pushed then [] else []
      simp
    · cases pushed <;> rfl
  | cons c todo =>
    cases pushed with
    | false =>
      simp only [hw] at h
      cases h
      exact ⟨_, goto_works (by rw [hw]; trivial) trivial hshaped
        (pushes_putting hw (by rw [hw]; exact hshaped))⟩
    | true =>
      simp only [hw] at h
      split at h
      · cases h
      case h_2 f hf =>
        cases h
        obtain ⟨hnodup, htodo⟩ := hshaped
        have htail : todo.Nodup ∧ ∀ c ∈ todo, net.source c = e ∧ net.fromPin c ∈ calls.put :=
          ⟨hnodup.of_cons, (List.forall_mem_cons.mp htodo).2⟩
        refine ⟨_, goto_works (by rw [hw]; trivial) trivial htail ?_⟩
        rw [hw]
        exact .announces (htodo c (List.mem_cons_self ..)).1 hf trivial trivial
          (fun _ => Iff.rfl) (fun _ => Iff.rfl) rfl rfl

/-- The run puts a NULL on the connections that got no item. -/
theorem posting_works {todo : List C} {pushed result : Bool}
    (hw : s.worker e = .posting todo pushed result) (hshaped : (s.worker e).Shaped net e)
    (h : s.work net e action = some s') : ∃ w', Works net s e action s' w' := by
  unfold PipelineState.work at h
  rw [hw] at hshaped
  cases todo with
  | nil =>
    simp only [hw] at h
    cases h
    have hquiet : Quiet net e (.posting [] pushed result) action (.ending result) := by
      refine .of_eq rfl (fun h => h.elim) ?_ (fun _ => Iff.rfl) id ?_ rfl
      · intro c
        change False ↔ c ∈ if pushed then [] else []
        simp
      · cases pushed <;> rfl
    rw [← hw] at hquiet
    refine ⟨.ending result, ?_⟩
    split
    · exact setState_works (by decide) (by rw [hw]; trivial) trivial trivial (.quiet hquiet)
    · exact goto_works (by rw [hw]; trivial) trivial trivial (.quiet hquiet)
  | cons c todo =>
    cases pushed with
    | false =>
      simp only [hw] at h
      cases h
      exact ⟨_, goto_works (by rw [hw]; trivial) trivial hshaped
        (pushes_posting hw (by rw [hw]; exact hshaped))⟩
    | true =>
      simp only [hw] at h
      split at h
      · cases h
      case h_2 f hf =>
        cases h
        obtain ⟨hnodup, htodo⟩ := hshaped
        have htail : todo.Nodup ∧ ∀ c ∈ todo, net.source c = e ∧ net.isSynchronous c :=
          ⟨hnodup.of_cons, (List.forall_mem_cons.mp htodo).2⟩
        refine ⟨_, goto_works (by rw [hw]; trivial) trivial htail ?_⟩
        rw [hw]
        exact .announces (htodo c (List.mem_cons_self ..)).1 hf trivial trivial
          (fun _ => Iff.rfl) (fun _ => Iff.rfl) rfl rfl

/-- What a step of a run can do. -/
theorem work_cases (hshaped : (s.worker e).Shaped net e) (h : s.work net e action = some s') :
    ∃ w', Works net s e action s' w' := by
  unfold PipelineState.work at h
  cases hw : s.worker e with
  | idle => simp [hw] at h
  | dispatched serial =>
    simp only [hw] at h
    split at h
    · cases h
      refine ⟨_, setState_works (by decide) (by rw [hw]; trivial) trivial trivial
        (.quiet ?_)⟩
      rw [hw]
      exact .of_eq rfl False.elim (fun _ => Iff.rfl) (fun _ => Iff.rfl) False.elim rfl rfl
    · cases h
  | entered serial =>
    simp only [hw] at h
    split at h
    case isTrue hp =>
      split at h
      case isTrue hlater =>
        cases h
        exact ⟨_, goto_works (by rw [hw]; trivial) trivial trivial
          (.begins hw (.inl ⟨hp, hlater, rfl⟩))⟩
      · cases h
    case isFalse hp =>
      split at h
      · cases h
        refine ⟨_, goto_works (by rw [hw]; trivial) trivial ?_
          (.begins hw (.inr ⟨Bool.not_eq_true _ ▸ hp, rfl⟩))⟩
        exact ⟨fun c hc => (net.mem_inputs e c).mp hc, Bool.noConfusion⟩
      · cases h
  | peeking todo nullDetected => exact peeking_works hw hshaped h
  | flushing todo => exact flushing_works hw hshaped h
  | processing calls =>
    simp only [hw] at h
    exact process_works hw h
  | putting calls todo pushed => exact putting_works hw hshaped h
  | posting todo pushed result => exact posting_works hw hshaped h
  | ending result =>
    simp only [hw] at h
    cases h
    have hquiet (w' : Worker P C) (hw' : w' = .finished result ∨ w' = .notError result) :
        Works net s e action (s.goto e w') w' := by
      refine goto_works (by rw [hw]; trivial) ?_ ?_ (.quiet ?_)
      · obtain rfl | rfl := hw' <;> trivial
      · obtain rfl | rfl := hw' <;> trivial
      · rw [hw]
        obtain rfl | rfl := hw'
        · exact .of_eq rfl False.elim (fun _ => Iff.rfl) (fun _ => Iff.rfl) False.elim rfl rfl
        · exact .of_eq rfl False.elim (fun _ => Iff.rfl) (fun _ => Iff.rfl) False.elim rfl rfl
    refine ⟨_, hquiet _ ?_⟩
    split
    · exact .inl rfl
    · exact .inr rfl
  | notError result =>
    simp only [hw] at h
    cases h
    refine ⟨_, setState_works (by decide) (by rw [hw]; trivial) trivial trivial (.quiet ?_)⟩
    rw [hw]
    exact .of_eq rfl False.elim (fun _ => Iff.rfl) (fun _ => Iff.rfl) False.elim rfl rfl
  | thrown =>
    simp only [hw] at h
    cases h
    refine ⟨_, setState_works (by decide) (by rw [hw]; trivial) trivial trivial (.quiet ?_)⟩
    rw [hw]
    exact .of_eq rfl False.elim (fun _ => Iff.rfl) (fun _ => Iff.rfl) id rfl rfl
  | leaving =>
    simp only [hw] at h
    cases h
    refine ⟨_, goto_works (by rw [hw]; trivial) trivial trivial (.quiet ?_)⟩
    rw [hw]
    exact .of_eq rfl False.elim (fun _ => Iff.rfl) (fun _ => Iff.rfl) (fun _ => trivial) rfl rfl
  | finished result => simp [hw] at h

end

structure Dispatches (s : PipelineState E P C) (e : E) (serial : Nat) (s' : PipelineState E P C) :
    Prop where
  state : s.m_state e = .PLE_STARTED
  state' : s'.m_state = Function.update s.m_state e .PLE_DISPATCHED
  runQueue : s'.m_runQueue = e :: s.m_runQueue
  worker : s'.worker = Function.update s.worker e (.dispatched serial)

inductive Turn (net : Network E P C) (s : PipelineState E P C) : PipelineState E P C → Prop where
  | moves {phase : Phase E C} : (∀ todo, s.phase ≠ .producing todo) →
      (∀ todo, phase = .producing todo → s.phase = .asking [] true ∧ todo = net.producers) →
      Turn net s { s with phase := phase }
  | reaps {e : E} {todo : List E} : s.phase = .reaping (e :: todo) → s.worker e = .finished true →
      Turn net s (({ s with phase := .reaping todo, m_runQueue := s.m_runQueue.erase e }.setState e
        .PLE_STARTED).goto e .idle)
  | dispatches {e : E} {todo : List E} {serial : Nat} {queue : List Nat}
      {s' : PipelineState E P C} : s.phase = .dispatching (e :: todo) →
      s.m_readyQueue e = serial :: queue → Dispatches s e serial s' →
      s'.phase = .dispatching todo → s'.flow = Flow.dispatch
        { s.flow with m_readyQueue := Function.update s.m_readyQueue e queue } e serial →
      Turn net s s'
  | produces {e : E} {todo : List E} {s' : PipelineState E P C} :
      s.phase = .producing (e :: todo) → Dispatches s e s.m_serial s' →
      s'.phase = .producing todo → s'.flow = s.flow.dispatch e s.m_serial → Turn net s s'
  | ticks : s.phase = .producing [] →
      Turn net s ({ s with phase := .idle }.withFlow { s.flow with m_serial := s.m_serial + 1 })

theorem schedule_cases {net : Network E P C} {s s' : PipelineState E P C} {order : List E}
    {answer : Bool}
    (h : s.schedule net order answer = some s') : Turn net s s' := by
  unfold PipelineState.schedule at h
  have hmoves {phase : Phase E C} (hfrom : ∀ todo, s.phase ≠ .producing todo)
      (hto : ∀ todo, phase ≠ .producing todo) : Turn net s { s with phase := phase } :=
    .moves hfrom fun todo he => absurd he (hto todo)
  cases hp : s.phase with
  | idle =>
    simp only [hp] at h
    split at h
    · cases h
      exact hmoves (by simp [hp]) (by simp)
    · cases h
  | reaping todo =>
    cases todo with
    | nil =>
      simp only [hp] at h
      split at h
      · cases h
        exact hmoves (by simp [hp]) (by simp)
      · cases h
    | cons e todo =>
      simp only [hp] at h
      split at h
      case h_1 hw =>
        cases h
        exact .reaps hp hw
      all_goals
        cases h
        exact hmoves (by simp [hp]) (by simp)
  | dispatching todo =>
    cases todo with
    | nil =>
      simp only [hp] at h
      cases h
      exact hmoves (by simp [hp]) (by simp)
    | cons e todo =>
      simp only [hp] at h
      split at h
      · cases h
        exact hmoves (by simp [hp]) (by simp)
      case h_2 serial queue hq =>
        split at h
        · cases h
          exact hmoves (by simp [hp]) (by simp)
        · unfold PipelineState.dispatch at h
          split at h
          case isTrue hstate =>
            cases h
            exact .dispatches hp hq ⟨hstate, rfl, rfl, rfl⟩ rfl rfl
          · cases h
  | measuring todo max =>
    cases todo with
    | nil =>
      simp only [hp] at h
      cases h
      exact hmoves (by simp [hp]) (by split <;> simp)
    | cons c todo =>
      simp only [hp] at h
      cases h
      exact hmoves (by simp [hp]) (by simp)
  | asking todo allReady =>
    cases todo with
    | nil =>
      simp only [hp] at h
      cases h
      refine .moves (by simp [hp]) ?_
      intro todo htodo
      cases allReady with
      | true => exact ⟨hp, by simpa using htodo.symm⟩
      | false => simp at htodo
    | cons e todo =>
      simp only [hp] at h
      cases h
      exact hmoves (by simp [hp]) (by simp)
  | producing todo =>
    cases todo with
    | nil =>
      simp only [hp] at h
      cases h
      exact .ticks hp
    | cons e todo =>
      simp only [hp] at h
      unfold PipelineState.dispatch at h
      split at h
      case isTrue hstate =>
        cases h
        exact .produces hp ⟨hstate, rfl, rfl, rfl⟩ rfl rfl
      · cases h
  | stopping => simp [hp] at h

end ParleVision.Runtime
