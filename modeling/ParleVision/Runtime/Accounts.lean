import ParleVision.Runtime.Effects
import ParleVision.Lib.Run

namespace ParleVision.Runtime
open Lib
open ParleVision.Lifecycle (State)

variable {E P C : Type} {net : Network E P C}

theorem Worker.unput_underway {w : Worker P C} {c : C} (h : w.unput net c) : w.underway := by
  cases w
  all_goals trivial

theorem Worker.untaken_underway {w : Worker P C} {c : C} (h : w.untaken c) : w.underway := by
  cases w
  all_goals trivial

theorem Worker.waiting_of_underway {w : Worker P C} (h : w.underway ∨ w.failed) :
    w.waiting = [] := by
  cases w
  all_goals first | rfl | exact h.elim False.elim False.elim

theorem Worker.not_busy {w : Worker P C} (h : ¬ w.Busy) : w = .idle := by
  cases w
  all_goals first | rfl | exact absurd trivial h

theorem Worker.failed_not_underway {w : Worker P C} (h : w.failed) : ¬ w.underway := by
  cases w
  all_goals first | exact id | exact h.elim

variable [DecidableEq C]

/-- The record of one element: what it was dispatched for, what it has put and what it has taken,
as far as its run has come. -/
structure AccountedFor (net : Network E P C) (f : Flow E C) (e : E) (w : Worker P C) : Prop where
  dispatched : f.runs e ++ w.waiting = f.dispatched e
  processing : f.processingSerial e = (f.runs e).getLastD 0
  begun : w.underway → f.runs e ≠ []
  put : ∀ c, net.source c = e → (f.put c).Sublist (f.runs e)
  unput : ∀ c, net.source c = e → w.unput net c →
    (f.put c).Sublist (f.runs e).dropLast
  sync : ∀ c, net.source c = e → net.isSynchronous c →
    f.put c = f.runs e ∨ f.put c = (f.runs e).dropLast
  sync_unput : ∀ c, net.source c = e → net.isSynchronous c → w.unput net c →
    f.put c = (f.runs e).dropLast
  sync_put : ∀ c, net.source c = e → net.isSynchronous c → ¬ w.failed → ¬ w.unput net c →
    f.put c = f.runs e
  notified : ∀ c, net.source c = e →
    f.put c = f.notified c ++ if w.announcing = some c then [f.processingSerial e] else []
  taken : ∀ c, net.target c = e → (f.taken c).length ≤ (f.runs e).length
  untaken : ∀ c, net.target c = e → w.untaken c → (f.taken c).length < (f.runs e).length

def Flow.Queued (f : Flow E C) : Prop := ∀ c, f.put c = f.taken c ++ (f.m_queue c).map Data.serial

/-- The flow as far as it concerns one element. -/
structure SameFor (net : Network E P C) (f f' : Flow E C) (e : E) : Prop where
  dispatched : f'.dispatched e = f.dispatched e
  runs : f'.runs e = f.runs e
  processingSerial : f'.processingSerial e = f.processingSerial e
  put : ∀ c, net.source c = e → f'.put c = f.put c
  notified : ∀ c, net.source c = e → f'.notified c = f.notified c
  taken : ∀ c, net.target c = e → f'.taken c = f.taken c

theorem AccountedFor.congr {f f' : Flow E C} {e : E} {w : Worker P C}
    (h : AccountedFor net f e w) (hsame : SameFor net f f' e) : AccountedFor net f' e w := by
  obtain ⟨hdispatched, hruns, hprocessing, hput, hnotified, htaken⟩ := hsame
  constructor
  case dispatched => rw [hdispatched, hruns, h.dispatched]
  case processing => rw [hprocessing, hruns, h.processing]
  case begun => rw [hruns]; exact h.begun
  case put => intro c hc; rw [hput c hc, hruns]; exact h.put c hc
  case unput => intro c hc; rw [hput c hc, hruns]; exact h.unput c hc
  case sync => intro c hc; rw [hput c hc, hruns]; exact h.sync c hc
  case sync_unput => intro c hc; rw [hput c hc, hruns]; exact h.sync_unput c hc
  case sync_put => intro c hc; rw [hput c hc, hruns]; exact h.sync_put c hc
  case notified => intro c hc; rw [hput c hc, hnotified c hc, hprocessing]; exact h.notified c hc
  case taken => intro c hc; rw [htaken c hc, hruns]; exact h.taken c hc
  case untaken => intro c hc; rw [htaken c hc, hruns]; exact h.untaken c hc

/-- What `get` takes. -/
theorem get_some {f f' : Flow E C} {c : C} {d : Data} (h : f.get c = some (f', d)) :
    ∃ queue, f.m_queue c = d :: queue ∧
      f' = { f with m_queue := Function.update f.m_queue c queue
                    taken := Function.update f.taken c (f.taken c ++ [d.serial]) } := by
  unfold Flow.get at h
  split at h
  · cases h
  case h_2 d' queue hq =>
    cases h
    exact ⟨queue, hq, rfl⟩

variable [DecidableEq E]

/-- What `newData` leaves as it is, and what it does to the ready queue and the scoreboard. -/
structure Announces (net : Network E P C) (f : Flow E C) (c : C) (f' : Flow E C) : Prop where
  m_serial : f'.m_serial = f.m_serial
  processingSerial : f'.processingSerial = f.processingSerial
  m_queue : f'.m_queue = f.m_queue
  dispatched : f'.dispatched = f.dispatched
  runs : f'.runs = f.runs
  put : f'.put = f.put
  taken : f'.taken = f.taken
  notified : f'.notified = Function.update f.notified c
    (f.notified c ++ [f.processingSerial (net.source c)])
  scored :
    (net.m_hasSynchronousPin (net.target c) = false ∧ f'.m_lookup = f.m_lookup ∧
      f'.m_readyQueue = Function.update f.m_readyQueue (net.target c)
        (f.m_readyQueue (net.target c) ++ [f.processingSerial (net.source c)])) ∨
    (net.m_hasSynchronousPin (net.target c) = true ∧ net.isSynchronous c = false ∧
      f'.m_lookup = f.m_lookup ∧ f'.m_readyQueue = f.m_readyQueue) ∨
    (net.isSynchronous c = true ∧
      f.Later (net.target c) (f.processingSerial (net.source c)) ∧
      ((f.m_lookup (net.target c) (unsigned (f.processingSerial (net.source c))) + 1 =
          net.m_pincount (net.target c) ∧
        f'.m_lookup = Function.update f.m_lookup (net.target c) (Function.update
          (f.m_lookup (net.target c)) (unsigned (f.processingSerial (net.source c))) 0) ∧
        f'.m_readyQueue = Function.update f.m_readyQueue (net.target c)
          (f.m_readyQueue (net.target c) ++ [f.processingSerial (net.source c)])) ∨
       (f.m_lookup (net.target c) (unsigned (f.processingSerial (net.source c))) + 1 ≠
          net.m_pincount (net.target c) ∧
        f'.m_lookup = Function.update f.m_lookup (net.target c) (Function.update
          (f.m_lookup (net.target c)) (unsigned (f.processingSerial (net.source c)))
          (f.m_lookup (net.target c) (unsigned (f.processingSerial (net.source c))) + 1)) ∧
        f'.m_readyQueue = f.m_readyQueue)))

theorem newData_announces {f f' : Flow E C} {c : C} (h : f.newData net c = some f') :
    Announces net f c f' := by
  unfold Flow.newData at h
  dsimp only at h
  split at h
  case isTrue hhas =>
    split at h
    case isTrue hsync =>
      split at h
      case isTrue hlater =>
        split at h
        case isTrue hcount =>
          cases h
          exact ⟨rfl, rfl, rfl, rfl, rfl, rfl, rfl, rfl,
            .inr (.inr ⟨hsync, hlater, .inl ⟨hcount, rfl, rfl⟩⟩)⟩
        case isFalse hcount =>
          cases h
          exact ⟨rfl, rfl, rfl, rfl, rfl, rfl, rfl, rfl,
            .inr (.inr ⟨hsync, hlater, .inr ⟨hcount, rfl, rfl⟩⟩)⟩
      · cases h
    case isFalse hsync =>
      cases h
      exact ⟨rfl, rfl, rfl, rfl, rfl, rfl, rfl, rfl,
        .inr (.inl ⟨hhas, Bool.not_eq_true _ ▸ hsync, rfl, rfl⟩)⟩
  case isFalse hhas =>
    cases h
    exact ⟨rfl, rfl, rfl, rfl, rfl, rfl, rfl, rfl,
      .inl ⟨Bool.not_eq_true _ ▸ hhas, rfl, rfl⟩⟩

variable {f f' : Flow E C} {e : E} {w w' : Worker P C} {action : Action P C}

/-- A step of one run is not in the record of another element. -/
theorem Run.others (h : Run net f e w action f' w') {e' : E} (hne : e' ≠ e) :
    SameFor net f f' e' := by
  have hother {g : E → List Nat} {l : List Nat} : Function.update g e l e' = g e' :=
    Function.update_of_ne hne ..
  cases h with
  | quiet => exact ⟨rfl, rfl, rfl, fun _ _ => rfl, fun _ _ => rfl, fun _ _ => rfl⟩
  | begins =>
    exact ⟨rfl, hother, Function.update_of_ne hne .., fun _ _ => rfl, fun _ _ => rfl,
      fun _ _ => rfl⟩
  | pushes hsource =>
    refine ⟨rfl, rfl, rfl, ?_, fun _ _ => rfl, fun _ _ => rfl⟩
    intro c' hc'
    exact Function.update_of_ne (fun he => hne (by rw [← hc', he, hsource])) ..
  | announces hsource hf =>
    have ha := newData_announces hf
    refine ⟨by rw [ha.dispatched], by rw [ha.runs], by rw [ha.processingSerial], ?_, ?_, ?_⟩
    · exact fun _ _ => by rw [ha.put]
    · intro c' hc'
      rw [ha.notified]
      exact Function.update_of_ne (fun he => hne (by rw [← hc', he, hsource])) ..
    · exact fun _ _ => by rw [ha.taken]
  | takes htarget hget =>
    obtain ⟨queue, hq, rfl⟩ := get_some hget
    refine ⟨rfl, rfl, rfl, fun _ _ => rfl, fun _ _ => rfl, ?_⟩
    intro c' hc'
    exact Function.update_of_ne (fun he => hne (by rw [← hc', he, htarget])) ..

theorem Run.queued (h : Run net f e w action f' w') (hq : f.Queued) : f'.Queued := by
  cases h with
  | quiet => exact hq
  | begins => exact hq
  | @pushes c isNull =>
    intro c'
    by_cases hc : c' = c
    · subst c'
      change Function.update f.put c _ c =
        f.taken c ++ (Function.update f.m_queue c _ c).map Data.serial
      rw [Function.update_self, Function.update_self, hq c, List.map_append, List.append_assoc]
      rfl
    · change Function.update f.put c _ c' =
        f.taken c' ++ (Function.update f.m_queue c _ c').map Data.serial
      rw [Function.update_of_ne hc, Function.update_of_ne hc]
      exact hq c'
  | announces _ hf =>
    have ha := newData_announces hf
    intro c'
    rw [ha.put, ha.taken, ha.m_queue]
    exact hq c'
  | @takes c _ d _ _ hget =>
    obtain ⟨queue, hhead, rfl⟩ := get_some hget
    intro c'
    by_cases hc : c' = c
    · subst c'
      change f.put c = Function.update f.taken c _ c ++
        (Function.update f.m_queue c _ c).map Data.serial
      rw [Function.update_self, Function.update_self, hq c, hhead, List.map_cons, List.append_assoc]
      rfl
    · change f.put c' = Function.update f.taken c _ c' ++
        (Function.update f.m_queue c _ c').map Data.serial
      rw [Function.update_of_ne hc, Function.update_of_ne hc]
      exact hq c'

theorem getLastD_append (l : List Nat) (x : Nat) : (l ++ [x]).getLastD 0 = x := by
  rw [List.getLastD_eq_getLast?, List.getLast?_append]
  rfl

theorem dropLast_append_last {l : List Nat} (h : l ≠ []) : l.dropLast ++ [l.getLastD 0] = l := by
  rw [List.getLastD_eq_getLast?, List.getLast?_eq_some_getLast h, Option.getD_some,
    List.dropLast_append_getLast]

omit [DecidableEq E] in
/-- A step that puts and takes nothing. -/
theorem AccountedFor.quiet (h : AccountedFor net f e w) (hq : Quiet net e w action w') :
    AccountedFor net f e w' where
  dispatched := by rw [hq.waiting, h.dispatched]
  processing := h.processing
  begun hu := h.begun (hq.underway hu)
  put := h.put
  unput c hc hu := h.unput c hc (hq.unput c hu)
  sync := h.sync
  sync_unput c hc hs hu := h.sync_unput c hc hs (hq.unput c hu)
  sync_put c hc hs hf hu := by
    have hfailed : ¬ w.failed := fun hw => hf (hq.failed hw)
    exact h.sync_put c hc hs hfailed fun hw => hu (hq.unput_sync hf c hc hs hw)
  notified c hc := by
    rw [h.notified c hc, hq.not_announcing.1, hq.not_announcing.2]
  taken := h.taken
  untaken c hc hu := h.untaken c hc (hq.untaken c hu)

/-- The run begins: nothing is put or taken in it yet. -/
theorem AccountedFor.begins {serial : Nat} (h : AccountedFor net f e (.entered serial))
    (hwaiting : w'.waiting = []) (ha : w'.announcing = none)
    (hunput : ∀ c : C, w'.unput net c) :
    AccountedFor net (f.setProcessingSerial e serial) e w' := by
  have hruns : (f.setProcessingSerial e serial).runs e = f.runs e ++ [serial] :=
    Function.update_self ..
  have hserial : (f.setProcessingSerial e serial).processingSerial e = serial :=
    Function.update_self ..
  have hput (c : C) (hc : net.source c = e) : (f.setProcessingSerial e serial).put c =
      f.put c := rfl
  constructor
  case dispatched =>
    rw [hruns, hwaiting, List.append_nil]
    exact h.dispatched
  case processing => rw [hruns, hserial, getLastD_append]
  case begun =>
    intro _
    rw [hruns]
    simp
  case put =>
    intro c hc
    rw [hruns, hput c hc]
    exact (h.put c hc).trans (List.sublist_append_left ..)
  case unput =>
    intro c hc _
    rw [hruns, hput c hc, List.dropLast_concat]
    exact h.put c hc
  case sync =>
    intro c hc hs
    right
    rw [hruns, hput c hc, List.dropLast_concat]
    exact h.sync_put c hc hs id id
  case sync_unput =>
    intro c hc hs _
    rw [hruns, hput c hc, List.dropLast_concat]
    exact h.sync_put c hc hs id id
  case sync_put => exact fun c _ _ _ hu => absurd (hunput c) hu
  case notified =>
    intro c hc
    rw [ha, hput c hc]
    exact h.notified c hc
  case taken =>
    intro c hc
    rw [hruns, List.length_append]
    exact Nat.le_trans (h.taken c hc) (Nat.le_add_right _ _)
  case untaken =>
    intro c hc _
    rw [hruns, List.length_append]
    exact Nat.lt_succ_of_le (h.taken c hc)

omit [DecidableEq E] in
/-- An item is pushed on a connection that was due in this run. -/
theorem AccountedFor.pushes {c : C} {isNull : Bool} (h : AccountedFor net f e w)
    (hsource : net.source c = e) (hunderway : w'.underway) (hc : w.unput net c)
    (hunput : ∀ c', w'.unput net c' ↔ w.unput net c' ∧ c' ≠ c)
    (huntaken : ∀ c', w'.untaken c' ↔ w.untaken c')
    (ha : w.announcing = none) (ha' : w'.announcing = some c) :
    AccountedFor net (f.push net c isNull) e w' := by
  have hbegun := h.begun (Worker.unput_underway hc)
  have hlast : (f.runs e).dropLast ++ [f.processingSerial e] = f.runs e := by
    rw [h.processing]
    exact dropLast_append_last hbegun
  have hself : (f.push net c isNull).put c = f.put c ++ [f.processingSerial e] := by
    rw [← hsource]
    exact Function.update_self ..
  have hother {c' : C} (hne : c' ≠ c) : (f.push net c isNull).put c' = f.put c' :=
    Function.update_of_ne hne ..
  have hnotfailed : ¬ w.failed := fun hf =>
    Worker.failed_not_underway hf (Worker.unput_underway hc)
  constructor
  case dispatched =>
    rw [Worker.waiting_of_underway (.inl hunderway),
      ← Worker.waiting_of_underway (.inl (Worker.unput_underway hc))]
    exact h.dispatched
  case processing => exact h.processing
  case begun => exact fun _ => hbegun
  case put =>
    intro c' hc'
    by_cases hne : c' = c
    · rw [hne, hself]
      change List.Sublist _ (f.runs e)
      rw [← hlast]
      exact (h.unput c hsource hc).append (List.Sublist.refl _)
    · rw [hother hne]
      exact h.put c' hc'
  case unput =>
    intro c' hc' hu
    obtain ⟨hu, hne⟩ := (hunput c').mp hu
    rw [hother hne]
    exact h.unput c' hc' hu
  case sync =>
    intro c' hc' hs
    by_cases hne : c' = c
    · left
      rw [hne, hself, h.sync_unput c hsource (hne ▸ hs) hc]
      exact hlast
    · rw [hother hne]
      exact h.sync c' hc' hs
  case sync_unput =>
    intro c' hc' hs hu
    obtain ⟨hu, hne⟩ := (hunput c').mp hu
    rw [hother hne]
    exact h.sync_unput c' hc' hs hu
  case sync_put =>
    intro c' hc' hs _ hu
    by_cases hne : c' = c
    · rw [hne, hself, h.sync_unput c hsource (hne ▸ hs) hc]
      exact hlast
    · rw [hother hne]
      exact h.sync_put c' hc' hs hnotfailed fun hu' => hu ((hunput c').mpr ⟨hu', hne⟩)
  case notified =>
    intro c' hc'
    have hold := h.notified c' hc'
    rw [ha, if_neg (Option.some_ne_none _).symm, List.append_nil] at hold
    by_cases hne : c' = c
    · rw [hne, hself, ha', if_pos rfl, ← hne, hold]
      rfl
    · rw [hother hne, ha', if_neg (fun he => hne (Option.some.inj he).symm), List.append_nil]
      exact hold
  case taken => exact h.taken
  case untaken => exact fun c' hc' hu => h.untaken c' hc' ((huntaken c').mp hu)

/-- The item that was pushed is announced. -/
theorem AccountedFor.announces {c : C} (h : AccountedFor net f e w)
    (hsource : net.source c = e) (hf : Announces net f c f') (hu : w.underway) (hu' : w'.underway)
    (hunput : ∀ c', w'.unput net c' ↔ w.unput net c')
    (huntaken : ∀ c', w'.untaken c' ↔ w.untaken c')
    (ha : w.announcing = some c) (ha' : w'.announcing = none) : AccountedFor net f' e w' := by
  constructor
  case dispatched =>
    rw [Worker.waiting_of_underway (.inl hu'), ← Worker.waiting_of_underway (.inl hu), hf.runs,
      hf.dispatched]
    exact h.dispatched
  case processing =>
    rw [hf.processingSerial, hf.runs]
    exact h.processing
  case begun =>
    rw [hf.runs]
    exact fun _ => h.begun hu
  case put =>
    rw [hf.put, hf.runs]
    exact h.put
  case unput =>
    rw [hf.put, hf.runs]
    exact fun c' hc' hu => h.unput c' hc' ((hunput c').mp hu)
  case sync =>
    rw [hf.put, hf.runs]
    exact h.sync
  case sync_unput =>
    rw [hf.put, hf.runs]
    exact fun c' hc' hs hu => h.sync_unput c' hc' hs ((hunput c').mp hu)
  case sync_put =>
    rw [hf.put, hf.runs]
    intro c' hc' hs _ hn
    exact h.sync_put c' hc' hs (fun hw => Worker.failed_not_underway hw hu)
      fun hw => hn ((hunput c').mpr hw)
  case notified =>
    intro c' hc'
    rw [hf.put, hf.notified, ha', if_neg (Option.some_ne_none _).symm, List.append_nil,
      h.notified c' hc', ha]
    by_cases hne : c' = c
    · rw [hne, if_pos rfl, Function.update_self, hsource]
    · rw [if_neg (fun he => hne (Option.some.inj he).symm), Function.update_of_ne hne,
        List.append_nil]
  case taken =>
    rw [hf.taken, hf.runs]
    exact h.taken
  case untaken =>
    rw [hf.taken, hf.runs]
    exact fun c' hc' hu => h.untaken c' hc' ((huntaken c').mp hu)

omit [DecidableEq E] in
/-- An item is taken from a connection that was due in this run. -/
theorem AccountedFor.takes {c : C} {d : Data} (h : AccountedFor net f e w)
    (htarget : net.target c = e) (hget : f.get c = some (f', d)) (hu : w.underway)
    (hc : w.untaken c)
    (hnext : w'.failed ∨ w'.underway ∧ (∀ c', w'.unput net c' ↔ w.unput net c') ∧
      ∀ c', w'.untaken c' ↔ w.untaken c' ∧ c' ≠ c)
    (ha : w.announcing = none) (ha' : w'.announcing = none) : AccountedFor net f' e w' := by
  obtain ⟨queue, -, rfl⟩ := get_some hget
  have hnotfailed : ¬ w.failed := fun hf => Worker.failed_not_underway hf hu
  have hunput {c' : C} (hu' : w'.unput net c') : w.unput net c' := by
    obtain hf | ⟨-, hn, -⟩ := hnext
    · exact absurd (Worker.unput_underway hu') (Worker.failed_not_underway hf)
    · exact (hn c').mp hu'
  have hlength {c' : C} (hc' : net.target c' = e) :
      (Function.update f.taken c (f.taken c ++ [d.serial]) c').length ≤ (f.runs e).length := by
    by_cases hne : c' = c
    · rw [hne, Function.update_self, List.length_append]
      exact h.untaken c htarget hc
    · rw [Function.update_of_ne hne]
      exact h.taken c' hc'
  constructor
  case dispatched =>
    have hw' : w'.underway ∨ w'.failed := hnext.elim .inr fun hn => .inl hn.1
    rw [Worker.waiting_of_underway hw', ← Worker.waiting_of_underway (.inl hu)]
    exact h.dispatched
  case processing => exact h.processing
  case begun => exact fun _ => h.begun hu
  case put => exact h.put
  case unput => exact fun c' hc' hu' => h.unput c' hc' (hunput hu')
  case sync => exact h.sync
  case sync_unput => exact fun c' hc' hs hu' => h.sync_unput c' hc' hs (hunput hu')
  case sync_put =>
    intro c' hc' hs hf hn
    obtain hf' | ⟨-, hiff, -⟩ := hnext
    · exact absurd hf' hf
    · exact h.sync_put c' hc' hs hnotfailed fun hw => hn ((hiff c').mpr hw)
  case notified =>
    intro c' hc'
    have hold := h.notified c' hc'
    rw [ha] at hold
    rw [ha']
    exact hold
  case taken => exact fun c' hc' => hlength hc'
  case untaken =>
    intro c' hc' hu'
    obtain hf | ⟨-, -, hn⟩ := hnext
    · exact absurd (Worker.untaken_underway hu') (Worker.failed_not_underway hf)
    · obtain ⟨hold, hne⟩ := (hn c').mp hu'
      change (Function.update f.taken c _ c').length < _
      rw [Function.update_of_ne hne]
      exact h.untaken c' hc' hold

/-- Each step of its run keeps the record of the element. -/
theorem AccountedFor.run (h : AccountedFor net f e w) (hr : Run net f e w action f' w') :
    AccountedFor net f' e w' := by
  cases hr with
  | quiet hq => exact h.quiet hq
  | begins hw hw' =>
    subst hw
    obtain ⟨-, -, rfl⟩ | ⟨-, rfl⟩ := hw'
    · exact h.begins rfl rfl fun _ => List.not_mem_nil
    · exact h.begins rfl rfl fun _ => trivial
  | pushes hsource _ _ hu' hc hunput huntaken ha ha' =>
    exact h.pushes hsource hu' hc hunput huntaken ha ha'
  | announces hsource hf hu hu' hunput huntaken ha ha' =>
    exact h.announces hsource (newData_announces hf) hu hu' hunput huntaken ha ha'
  | takes htarget hget hu hc hnext ha ha' => exact h.takes htarget hget hu hc hnext ha ha'

structure Accounted (net : Network E P C) (s : PipelineState E P C) : Prop where
  shaped : ∀ e, (s.worker e).Shaped net e
  busy : ∀ e, (s.worker e).Busy ↔ s.m_state e ≠ .PLE_STARTED
  running : ∀ e, s.m_state e ≠ .PLE_UNDEFINED ∧ s.m_state e ≠ .PLE_INITIALIZED
  producing : ∀ todo, s.phase = .producing todo → todo.Nodup ∧ ∀ e ∈ todo, net.isProducer e = true
  queued : s.flow.Queued
  element : ∀ e, AccountedFor net s.flow e (s.worker e)

omit [DecidableEq E] in
theorem started_accounted (serial : Nat) (stale : E → Nat → Nat) :
    Accounted net (.started serial stale : PipelineState E P C) where
  shaped _ := trivial
  busy _ := ⟨False.elim, fun h => h rfl⟩
  running _ := ⟨State.noConfusion, State.noConfusion⟩
  producing _ h := by cases h
  queued _ := rfl
  element e := by
    constructor
    case begun => exact False.elim
    case unput => exact fun _ _ => False.elim
    case untaken => exact fun _ _ => False.elim
    case sync => exact fun _ _ _ => .inl rfl
    case put => exact fun _ _ => .refl []
    case taken => exact fun _ _ => Nat.le_refl 0
    all_goals intros
    all_goals rfl

variable {s s' : PipelineState E P C}

/-- An idle element is dispatched. -/
theorem AccountedFor.dispatch {serial : Nat} (h : AccountedFor net f e .idle) :
    AccountedFor net (f.dispatch e serial) e (.dispatched serial : Worker P C) where
  dispatched := by
    change f.runs e ++ [serial] = Function.update f.dispatched e _ e
    have hold : f.runs e = f.dispatched e := by simpa [Worker.waiting] using h.dispatched
    rw [Function.update_self, hold]
  processing := h.processing
  begun := False.elim
  put := h.put
  unput _ _ := False.elim
  sync := h.sync
  sync_unput _ _ _ := False.elim
  sync_put c hc hs _ _ := h.sync_put c hc hs id id
  notified := h.notified
  taken := h.taken
  untaken _ _ := False.elim

omit [DecidableEq C] in
theorem dispatch_others {serial : Nat} {e' : E} (hne : e' ≠ e) :
    SameFor net f (f.dispatch e serial) e' :=
  ⟨Function.update_of_ne hne .., rfl, rfl, fun _ _ => rfl, fun _ _ => rfl, fun _ _ => rfl⟩

/-- The record after a dispatch, whatever becomes of the ready queue. -/
theorem Accounted.dispatches {serial : Nat} (h : Accounted net s) (hd : Dispatches s e serial s')
    (hf : s'.flow = Flow.dispatch { s.flow with m_readyQueue := s'.m_readyQueue } e serial)
    (hproducing : ∀ todo, s'.phase = .producing todo →
      todo.Nodup ∧ ∀ e ∈ todo, net.isProducer e = true) : Accounted net s' := by
  have hidle : s.worker e = .idle :=
    Worker.not_busy fun hb => (h.busy e).mp hb hd.state
  constructor
  case shaped =>
    intro e'
    rw [hd.worker]
    by_cases he : e' = e
    · rw [he, Function.update_self]
      trivial
    · rw [Function.update_of_ne he]
      exact h.shaped e'
  case busy =>
    intro e'
    rw [hd.worker, hd.state']
    by_cases he : e' = e
    · rw [he, Function.update_self, Function.update_self]
      exact ⟨fun _ => Lifecycle.State.noConfusion, fun _ => trivial⟩
    · rw [Function.update_of_ne he, Function.update_of_ne he]
      exact h.busy e'
  case running =>
    intro e'
    rw [hd.state']
    by_cases he : e' = e
    · rw [he, Function.update_self]
      exact ⟨State.noConfusion, State.noConfusion⟩
    · rw [Function.update_of_ne he]
      exact h.running e'
  case producing => exact hproducing
  case queued =>
    rw [hf]
    exact h.queued
  case element =>
    intro e'
    have hsame : SameFor net s.flow { s.flow with m_readyQueue := s'.m_readyQueue } e' :=
      ⟨rfl, rfl, rfl, fun _ _ => rfl, fun _ _ => rfl, fun _ _ => rfl⟩
    have hold := (h.element e').congr hsame
    rw [hd.worker, hf]
    by_cases he : e' = e
    · subst e'
      rw [hidle] at hold
      rw [Function.update_self]
      exact hold.dispatch
    · rw [Function.update_of_ne he]
      exact hold.congr (dispatch_others he)

theorem Accounted.turn (h : Accounted net s) (ht : Turn net s s') : Accounted net s' := by
  cases ht with
  | moves _ hto =>
    refine ⟨h.shaped, h.busy, h.running, ?_, h.queued, h.element⟩
    intro todo htodo
    rw [(hto todo htodo).2]
    exact ⟨net.children_nodup.filter _, fun e he => (List.mem_filter.mp he).2⟩
  | @reaps e _ _ hw =>
    constructor
    case shaped =>
      intro e'
      change (Function.update s.worker e .idle e').Shaped net e'
      by_cases he : e' = e
      · rw [he, Function.update_self]
        trivial
      · rw [Function.update_of_ne he]
        exact h.shaped e'
    case busy =>
      intro e'
      change (Function.update s.worker e .idle e').Busy ↔ Function.update s.m_state e _ e' ≠ _
      by_cases he : e' = e
      · rw [he, Function.update_self, Function.update_self]
        exact ⟨False.elim, fun hne => hne rfl⟩
      · rw [Function.update_of_ne he, Function.update_of_ne he]
        exact h.busy e'
    case running =>
      intro e'
      change Function.update s.m_state e _ e' ≠ _ ∧ Function.update s.m_state e _ e' ≠ _
      by_cases he : e' = e
      · rw [he, Function.update_self]
        exact ⟨State.noConfusion, State.noConfusion⟩
      · rw [Function.update_of_ne he]
        exact h.running e'
    case producing =>
      intro todo htodo
      cases htodo
    case queued => exact h.queued
    case element =>
      intro e'
      change AccountedFor net s.flow e' (Function.update s.worker e .idle e')
      by_cases he : e' = e
      · subst e'
        have hold := h.element e
        rw [hw] at hold
        rw [Function.update_self]
        have hquiet : Quiet net e (.finished true) (.throws : Action P C) .idle :=
          .of_eq rfl False.elim (fun _ => Iff.rfl) (fun _ => Iff.rfl) False.elim rfl rfl
        exact hold.quiet hquiet
      · rw [Function.update_of_ne he]
        exact h.element e'
  | dispatches _ _ hd hphase hf =>
    refine h.dispatches hd ?_ ?_
    · rw [hf]
      rfl
    · intro todo htodo
      rw [hphase] at htodo
      cases htodo
  | produces hp hd hphase hf =>
    refine h.dispatches hd ?_ ?_
    · rw [hf]
      rfl
    · intro todo htodo
      rw [hphase] at htodo
      cases htodo
      obtain ⟨hnodup, hall⟩ := h.producing _ hp
      exact ⟨(List.nodup_cons.mp hnodup).2, fun e he => hall e (List.mem_cons_of_mem _ he)⟩
  | ticks =>
    refine ⟨h.shaped, h.busy, h.running, ?_, h.queued, ?_⟩
    · intro todo htodo
      cases htodo
    · intro e
      exact (h.element e).congr ⟨rfl, rfl, rfl, fun _ _ => rfl, fun _ _ => rfl, fun _ _ => rfl⟩

theorem Accounted.works (h : Accounted net s) (hw : Works net s e action s' w') :
    Accounted net s' := by
  constructor
  case shaped =>
    intro e'
    rw [hw.worker]
    by_cases he : e' = e
    · rw [he, Function.update_self]
      exact hw.shaped
    · rw [Function.update_of_ne he]
      exact h.shaped e'
  case busy =>
    intro e'
    rw [hw.worker]
    by_cases he : e' = e
    · rw [he, Function.update_self]
      refine ⟨fun _ => ?_, fun _ => hw.busy'⟩
      obtain hstate | hstate := hw.state
      · rw [hstate]
        exact (h.busy e).mp hw.busy
      · exact fun hs => by simp [hs] at hstate
    · rw [Function.update_of_ne he, hw.others e' he]
      exact h.busy e'
  case running =>
    intro e'
    by_cases he : e' = e
    · subst e'
      obtain hstate | hstate := hw.state
      · rw [hstate]
        exact h.running e
      · exact ⟨fun hs => by simp [hs] at hstate, fun hs => by simp [hs] at hstate⟩
    · rw [hw.others e' he]
      exact h.running e'
  case producing =>
    rw [hw.phase]
    exact h.producing
  case queued => exact hw.run.queued h.queued
  case element =>
    intro e'
    rw [hw.worker]
    by_cases he : e' = e
    · subst e'
      rw [Function.update_self]
      exact (h.element e).run hw.run
    · rw [Function.update_of_ne he]
      exact (h.element e').congr (hw.run.others he)

/-- The thread of the pipeline leaves an element where it is, sees its run finished or has it
dispatched. -/
theorem Turn.worker_cases (ha : Accounted net s) (ht : Turn net s s') (e : E) :
    (s'.worker e = s.worker e ∧ s'.m_state e = s.m_state e) ∨
      ((∃ todo, s.phase = .reaping (e :: todo)) ∧ s.worker e = .finished true ∧
        s'.worker e = .idle) ∨
      ∃ serial, s.worker e = .idle ∧ s'.worker e = .dispatched serial := by
  have hdispatches {e' : E} {serial : Nat} (hd : Dispatches s e' serial s') :
      (s'.worker e = s.worker e ∧ s'.m_state e = s.m_state e) ∨
        ∃ serial, s.worker e = .idle ∧ s'.worker e = .dispatched serial := by
    rw [hd.worker, hd.state']
    by_cases he : e = e'
    · subst e'
      rw [Function.update_self]
      exact .inr ⟨serial, Worker.not_busy fun hb => (ha.busy e).mp hb hd.state, rfl⟩
    · rw [Function.update_of_ne he, Function.update_of_ne he]
      exact .inl ⟨rfl, rfl⟩
  cases ht with
  | moves => exact .inl ⟨rfl, rfl⟩
  | @reaps e' todo hphase hw =>
    by_cases he : e = e'
    · subst e'
      exact .inr (.inl ⟨⟨todo, hphase⟩, hw, Function.update_self ..⟩)
    · exact .inl ⟨Function.update_of_ne he .., Function.update_of_ne he ..⟩
  | dispatches _ _ hd => exact (hdispatches hd).imp_right .inr
  | produces _ hd => exact (hdispatches hd).imp_right .inr
  | ticks => exact .inl ⟨rfl, rfl⟩

variable [DecidableEq P]

/-- Each step keeps the record. -/
theorem Accounted.step {event : Event E P C} (h : Accounted net s)
    (hs : s.step net event = some s') : Accounted net s' := by
  cases event with
  | schedule order answer => exact h.turn (schedule_cases hs)
  | work e action =>
    obtain ⟨w', hw⟩ := work_cases (h.shaped e) hs
    exact h.works hw

theorem reaches_accounted {allowed : PipelineState E P C → Event E P C → Prop} {serial : Nat}
    {stale : E → Nat → Nat}
    (h : Reaches (PipelineState.step net) allowed (.started serial stale) s) : Accounted net s :=
  h.invariant (started_accounted serial stale) fun _ _ _ hi _ hs => hi.step hs

end ParleVision.Runtime
