import ParleVision.Runtime.Sessions
import ParleVision.Runtime.Source

namespace ParleVision.Runtime
open ParleVision.Lib

def Worker.Fails {P C : Type} : Worker P C → Prop
  | .posting _ _ result | .ending result | .notError result | .finished result => result = false
  | .thrown | .leaving => True
  | _ => False

/-- It was dispatched and has neither put anything nor returned. -/
def Worker.Pending {P C : Type} (w : Worker P C) : Prop := w.Starting ∨ w.Fails

section
variable {E P C : Type} [DecidableEq E] [DecidableEq P] [DecidableEq C] {net : Network E P C}
  {s s' : PipelineState E P C} {e : E}

theorem work_fails {action : Action P C} (hs : s.work net e action = some s')
    (h : (s.worker e).Fails) : (s'.worker e).Fails := by
  have hgoto {s₁ : PipelineState E P C} {w : Worker P C} (hw : w.Fails) :
      ((s₁.goto e w).worker e).Fails := by
    have he : (s₁.goto e w).worker e = w := Function.update_self ..
    rw [he]
    exact hw
  unfold PipelineState.work at hs
  cases hw : s.worker e with
  | posting todo pushed result =>
    rw [hw] at h hs
    cases todo with
    | nil =>
      cases hs
      exact hgoto h
    | cons c todo =>
      cases pushed with
      | false =>
        cases hs
        exact hgoto h
      | true =>
        dsimp only at hs
        split at hs
        · cases hs
        · cases hs
          exact hgoto h
  | ending result =>
    rw [hw] at h hs
    cases hs
    split
    · exact hgoto h
    · exact hgoto h
  | notError result =>
    rw [hw] at h hs
    cases hs
    exact hgoto h
  | thrown =>
    rw [hw] at hs
    cases hs
    exact hgoto trivial
  | leaving =>
    rw [hw] at hs
    cases hs
    exact hgoto rfl
  | finished =>
    rw [hw] at hs
    cases hs
  | idle | dispatched | entered | peeking | flushing | processing | putting =>
    rw [hw] at h
    exact h.elim

/-- The run of a producer waits for its first `put`, or ends with an error. -/
theorem work_pending {action : Action P C} (he : net.isProducer e = true)
    (hs : s.work net e action = some s') (h : (s.worker e).Pending)
    (hput : (s.worker e).isProducing = true → ∀ p, action ≠ .put p)
    (hreturns : (s.worker e).isProducing = true → action ≠ .returns true) :
    (s'.worker e).Pending := by
  have hgoto {s₁ : PipelineState E P C} {w : Worker P C} (hw : w.Pending) :
      ((s₁.goto e w).worker e).Pending := by
    have he : (s₁.goto e w).worker e = w := Function.update_self ..
    rw [he]
    exact hw
  obtain h | h := h
  swap
  · exact .inr (work_fails hs h)
  cases hw : s.worker e with
  | dispatched serial =>
    simp only [PipelineState.work, hw] at hs
    split at hs
    · cases hs
      exact hgoto (.inl trivial)
    · cases hs
  | entered serial =>
    simp only [PipelineState.work, hw, if_pos he] at hs
    split at hs
    · cases hs
      exact hgoto (.inl trivial)
    · cases hs
  | processing calls =>
    obtain ⟨put, got⟩ := calls
    cases put with
    | cons p put =>
      rw [hw] at h
      exact h.elim
    | nil =>
      have hproducing : (s.worker e).isProducing = true := by rw [hw]; rfl
      simp only [PipelineState.work, hw] at hs
      cases action with
      | get c =>
        simp only [PipelineState.process, if_neg (net.ne_target he c).symm] at hs
        cases hs
      | clear c =>
        simp only [PipelineState.process, if_neg (net.ne_target he c).symm] at hs
        cases hs
      | put p => exact absurd rfl (hput hproducing p)
      | setError =>
        cases hs
        left
        change (s.worker e).Starting
        exact h
      | returns b =>
        cases b with
        | true => exact absurd rfl (hreturns hproducing)
        | false =>
          cases hs
          exact hgoto (.inr rfl)
      | throws =>
        cases hs
        exact hgoto (.inr trivial)
  | idle | peeking | flushing | putting | posting | ending | notError | thrown | leaving
  | finished =>
    rw [hw] at h
    exact h.elim

end

end ParleVision.Runtime

namespace ParleVision.Opencv
open ParleVision.Lib ParleVision.Runtime

/-- What the program calls of `cv::VideoCapture`. The frames of a video are numbered. -/
structure VideoCapture (V : Type) where
  grab : V → Bool × V
  /-- nothing when it returns false -/
  retrieve : V → Option Nat

/-- As it is documented: `grab` grabs the next frame from a video, or returns false, and `retrieve`
decodes the frame that was grabbed. The position is CV_CAP_PROP_POS_FRAMES. -/
structure VideoCapture.Documented {V : Type} (capture : VideoCapture V) (position : V → Nat) :
    Prop where
  grab : ∀ v, (capture.grab v).1 = true → position (capture.grab v).2 = position v + 1
  grab_false : ∀ v, (capture.grab v).1 = false → position (capture.grab v).2 = position v
  retrieve : ∀ v, (capture.grab v).1 = true → capture.retrieve (capture.grab v).2 = some (position v)

/-- A pipeline that runs with a video as one of its producers, and a record of what became of the
frames of the video. -/
structure VideoState (E P C V : Type) extends PipelineState E P C where
  m_capture : V
  /-- the frame that was grabbed in this turn of `schedule` -/
  asked : Option Nat
  /-- the frame that the producers are dispatched for -/
  due : Option Nat
  /-- the frames that were put, and those for which not all producers were ready -/
  produced : List Nat
  refused : List Nat

namespace VideoState
variable {E P C V : Type}

def started (first : Nat) (stale : E → Nat → Nat) (opened : V) : VideoState E P C V where
  toPipelineState := .started first stale
  m_capture := opened
  asked := none
  due := none
  produced := []
  refused := []

def readyToProduce (capture : VideoCapture V) (t : VideoState E P C V) : Bool :=
  (capture.grab t.m_capture).1

/-- What `readyToProduce` leaves behind. -/
def grab (capture : VideoCapture V) (t : VideoState E P C V) : VideoState E P C V :=
  let m_capture := (capture.grab t.m_capture).2
  { t with
    m_capture := m_capture
    asked := if t.readyToProduce capture then capture.retrieve m_capture else t.asked }

section
variable [DecidableEq E] [DecidableEq P] [DecidableEq C] (video : E) (capture : VideoCapture V)
  (net : Network E P C)

/-- All producers are asked, also behind one that is not ready. One that was dispatched before is
not ready, and `readyToProduce` is not called. -/
def schedule (t : VideoState E P C V) (order : List E) (answer : Bool) :
    Option (VideoState E P C V) :=
  (t.toPipelineState.schedule net order answer).bind fun s =>
    match t.phase with
    | .asking (e :: _) _ =>
      if e = video ∧ t.beforeDispatched video = true then
        if answer = t.readyToProduce capture then
          some { t.grab capture with toPipelineState := s }
        else none
      else some { t with toPipelineState := s }
    | .asking [] true => some { t with toPipelineState := s, asked := none, due := t.asked }
    | .asking [] false =>
      some { t with toPipelineState := s, asked := none, refused := t.refused ++ t.asked.toList }
    | _ => some { t with toPipelineState := s }

/-- `produce` retrieves the frame before it puts anything, and returns false when it cannot. -/
def work (t : VideoState E P C V) (e : E) (action : Action P C) : Option (VideoState E P C V) :=
  (t.toPipelineState.work net e action).bind fun s =>
    if e = video ∧ (t.worker video).isProducing = true then
      match action with
      | .put _ => (capture.retrieve t.m_capture).map fun frame =>
        { t with toPipelineState := s, due := none, produced := t.produced ++ [frame] }
      | .returns true => none
      | _ => some { t with toPipelineState := s }
    else some { t with toPipelineState := s }

def step (t : VideoState E P C V) : Event E P C → Option (VideoState E P C V)
  | .schedule order answer => t.schedule video capture net order answer
  | .work e action => t.work video capture net e action

end

/-- A grabbed frame is something that has come for the producer. -/
def grabbed : Source (Option Nat) Nat Nat where
  readyToProduce := Option.isSome
  arrives _ frame := some frame
  produce frame := frame.map fun frame => (frame, none)

theorem grabbed_lawful : grabbed.Lawful fun _ => True where
  stays _ _ _ := rfl
  produces s hs := by
    obtain ⟨frame, rfl⟩ := Option.isSome_iff_exists.mp hs
    exact ⟨frame, none, rfl, trivial⟩

def sourced (t : VideoState E P C V) : SourcedState E P C (Option Nat) Nat Nat :=
  ⟨t.toPipelineState, t.asked.or t.due, [], t.produced⟩

/-- What was grabbed in this turn waits for the other producers, and what is due for its run. -/
structure Awaited (video : E) (t : VideoState E P C V) : Prop where
  asking : ∀ todo allReady, t.phase = .asking todo allReady → todo.Nodup
  asked : t.asked.isSome = true → (∃ todo allReady, t.phase = .asking todo allReady ∧
    video ∉ todo) ∧ t.worker video = .idle
  due : t.due.isSome = true → (∃ todo, t.phase = .producing todo ∧ video ∈ todo) ∨
    (t.worker video).Pending

/-- Each frame was put once or refused once, or it is the last that was grabbed. -/
structure Kept (capture : VideoCapture V) (position : V → Nat) (t : VideoState E P C V) : Prop where
  all : (t.produced ++ t.refused ++ (t.asked.or t.due).toList).Perm
    (List.range (position t.m_capture))
  produced : t.produced.Pairwise (· < ·)
  refused : t.refused.Pairwise (· < ·)
  last : ∀ frame, t.asked.or t.due = some frame →
    frame + 1 = position t.m_capture ∧ capture.retrieve t.m_capture = some frame

section
variable {video : E} {capture : VideoCapture V} {position : V → Nat} {t : VideoState E P C V}

theorem Awaited.due_none (h : Awaited video t) (hphase : ∀ todo, t.phase ≠ .producing todo)
    (hidle : t.worker video = .idle) : t.due = none := by
  rw [← Option.not_isSome_iff_eq_none]
  intro hsome
  rcases h.due hsome with ⟨todo, hproducing, -⟩ | hpending
  · exact hphase todo hproducing
  · rw [hidle] at hpending
    exact hpending.elim False.elim False.elim

theorem Awaited.asked_none (h : Awaited video t) {todo : List E} {allReady : Bool}
    (hphase : t.phase = .asking todo allReady) (hmem : video ∈ todo) : t.asked = none := by
  rw [← Option.not_isSome_iff_eq_none]
  intro hsome
  obtain ⟨⟨todo', allReady', hphase', hnot⟩, -⟩ := h.asked hsome
  cases hphase.symm.trans hphase'
  exact hnot hmem

/-- What was put or refused came before the last frame. -/
theorem Kept.below (h : Kept capture position t) {frame : Nat}
    (hlast : t.asked.or t.due = some frame) {i : Nat}
    (hi : i ∈ t.produced ++ t.refused) : i < frame := by
  have hall := h.all
  rw [hlast] at hall
  have hposition := (h.last frame hlast).1
  have hmem : i ∈ List.range (position t.m_capture) :=
    hall.mem_iff.mp (List.mem_append_left _ hi)
  have hne : i ≠ frame := by
    rintro rfl
    have hnodup := hall.nodup_iff.mpr List.nodup_range
    exact (List.nodup_append.mp hnodup).2.2 i hi i (List.mem_singleton_self i) rfl
  have := List.mem_range.mp hmem
  omega

theorem Kept.grab (h : Kept capture position t) (hcapture : capture.Documented position)
    (hasked : t.asked = none) (hdue : t.due = none) :
    Kept capture position (t.grab capture) := by
  have hall := h.all
  rw [hasked, hdue] at hall
  simp only [Option.or_none, Option.toList_none, List.append_nil] at hall
  cases hready : t.readyToProduce capture with
  | false =>
    have hposition := hcapture.grab_false t.m_capture hready
    have hnone : (t.grab capture).asked.or (t.grab capture).due = none := by
      simp [VideoState.grab, hready, hasked, hdue]
    constructor
    case all =>
      rw [hnone, Option.toList_none, List.append_nil]
      change (t.produced ++ t.refused).Perm (List.range (position (capture.grab t.m_capture).2))
      rw [hposition]
      exact hall
    case produced => exact h.produced
    case refused => exact h.refused
    case last =>
      intro frame hframe
      rw [hnone] at hframe
      cases hframe
  | true =>
    have hposition := hcapture.grab t.m_capture hready
    have hretrieve := hcapture.retrieve t.m_capture hready
    have hsome : (t.grab capture).asked.or (t.grab capture).due = some (position t.m_capture) := by
      simp [VideoState.grab, hready, hretrieve]
    constructor
    case all =>
      rw [hsome]
      change (t.produced ++ t.refused ++ [position t.m_capture]).Perm
        (List.range (position (capture.grab t.m_capture).2))
      rw [hposition, List.range_succ]
      exact hall.append_right _
    case produced => exact h.produced
    case refused => exact h.refused
    case last =>
      intro frame hframe
      obtain rfl := Option.some.inj (hsome.symm.trans hframe)
      exact ⟨hposition.symm, hretrieve⟩

/-- The list goes on in order. -/
theorem pairwise_concat {l : List Nat} {a : Nat} (hl : l.Pairwise (· < ·)) (ha : ∀ i ∈ l, i < a) :
    (l ++ [a]).Pairwise (· < ·) := by
  rw [List.pairwise_append]
  refine ⟨hl, List.pairwise_singleton .., fun i hi b hb => ?_⟩
  rw [List.mem_singleton.mp hb]
  exact ha i hi

theorem Kept.put (h : Kept capture position t) {frame : Nat} (hasked : t.asked = none)
    (hdue : t.due = some frame)
    (s : PipelineState E P C) :
    Kept capture position
      { t with toPipelineState := s, due := none, produced := t.produced ++ [frame] } := by
  have hlast : t.asked.or t.due = some frame := by rw [hasked, hdue]; rfl
  constructor
  case all =>
    have hall := h.all
    rw [hlast] at hall
    simp only [hasked, Option.or_none, Option.toList_none, List.append_nil]
    refine .trans ?_ hall
    rw [List.append_assoc, List.append_assoc]
    exact List.perm_append_comm.append_left _
  case produced =>
    exact pairwise_concat h.produced fun i hi => h.below hlast (List.mem_append_left _ hi)
  case refused => exact h.refused
  case last =>
    intro frame' hframe
    rw [hasked] at hframe
    cases hframe

theorem Kept.refuse (h : Kept capture position t) (hdue : t.asked.isSome = true → t.due = none)
    (s : PipelineState E P C) : Kept capture position { t with
      toPipelineState := s, asked := none, refused := t.refused ++ t.asked.toList } := by
  cases hasked : t.asked with
  | none =>
    have hall := h.all
    have hlast := h.last
    rw [hasked] at hall hlast
    refine ⟨?_, h.produced, ?_, hlast⟩
    · simpa using hall
    · simpa using h.refused
  | some frame =>
    have hnone := hdue (by rw [hasked]; rfl)
    have hlast : t.asked.or t.due = some frame := by rw [hasked]; rfl
    have hall := h.all
    rw [hlast] at hall
    constructor
    case all => simpa [hnone] using hall
    case produced => exact h.produced
    case refused =>
      exact pairwise_concat h.refused fun i hi => h.below hlast (List.mem_append_right _ hi)
    case last =>
      intro frame' hframe
      rw [hnone] at hframe
      cases hframe

end

section
variable [DecidableEq E] [DecidableEq C] {video : E} {capture : VideoCapture V}
  {position : V → Nat} {first : Nat} {net : Network E P C} {t t' : VideoState E P C V}
  {s : PipelineState E P C}

structure Inv (capture : VideoCapture V) (position : V → Nat) (video : E) (net : Network E P C)
    (first : Nat) (t : VideoState E P C V) : Prop where
  primed : SourcedState.Primed video grabbed t.sourced
  accounted : Accounted net t.toPipelineState
  framed : Framed net first t.toPipelineState
  awaited : Awaited video t
  kept : Kept capture position t

omit [DecidableEq C] in
theorem asking_nodup {order : List E} {answer : Bool}
    (h : ∀ todo allReady, t.phase = .asking todo allReady → todo.Nodup)
    (hs : t.toPipelineState.schedule net order answer = some s) {todo : List E} {allReady : Bool}
    (hphase : s.phase = .asking todo allReady) : todo.Nodup := by
  rcases SourcedState.schedule_asking hs hphase with ⟨rfl, -⟩ | ⟨e, before, hold, -⟩
  · exact net.children_nodup.filter _
  · exact (List.nodup_cons.mp (h _ _ hold)).2

/-- What is due stays due until the run has begun and has put it. -/
theorem due_turn (ha : Accounted net t.toPipelineState) (hturn : Turn net t.toPipelineState s)
    (h : (∃ todo, t.phase = .producing todo ∧ video ∈ todo) ∨ (t.worker video).Pending) :
    (∃ todo, s.phase = .producing todo ∧ video ∈ todo) ∨ (s.worker video).Pending := by
  rcases h with ⟨todo, hold, hmem⟩ | hpending
  · cases hturn with
    | moves hfrom => exact absurd hold (hfrom todo)
    | reaps hphase => cases hold.symm.trans hphase
    | dispatches hphase => cases hold.symm.trans hphase
    | @produces e todo' _ hphase hdispatch hphase' =>
      cases hold.symm.trans hphase
      rcases List.mem_cons.mp hmem with rfl | hmem
      · right
        rw [hdispatch.worker, Function.update_self]
        exact .inl trivial
      · exact .inl ⟨todo', hphase', hmem⟩
    | ticks hphase =>
      cases hold.symm.trans hphase
      exact absurd hmem List.not_mem_nil
  · right
    rcases hturn.worker_cases ha video with ⟨hw, -⟩ | ⟨-, hw, -⟩ | ⟨serial, hw, -⟩
    · rw [hw]
      exact hpending
    · rw [hw] at hpending
      exact hpending.elim False.elim Bool.noConfusion
    · rw [hw] at hpending
      exact hpending.elim False.elim False.elim

omit [DecidableEq C] in
/-- Only at its turn the video has to be ready. -/
theorem sourced_answers {order : List E} {answer : Bool}
    (h : ∀ todo allReady, t.phase = .asking (video :: todo) allReady → answer = true →
      (t.asked.or t.due).isSome = true) :
    t.sourced.answers video grabbed (.schedule order answer : Event E P C) = true := by
  simp only [SourcedState.answers]
  split
  case h_1 e todo allReady hphase =>
    rw [decide_eq_true_eq]
    rintro rfl
    exact h todo allReady hphase
  case h_2 => rfl

/-- A step of `schedule` in which nothing is grabbed, and the turn is not at its end. -/
theorem Inv.keeps {order : List E} {answer : Bool} (h : Inv capture position video net first t)
    (hvideo : net.isProducer video = true)
    (hs : t.toPipelineState.schedule net order answer = some s)
    (hanswers : t.sourced.answers video grabbed (.schedule order answer : Event E P C) = true)
    (hasked : t.asked.isSome = true → (∃ todo allReady, s.phase = .asking todo allReady ∧
      video ∉ todo) ∧ s.worker video = .idle) {m_capture : V}
    (hkept : Kept capture position { t with m_capture := m_capture }) :
    Inv capture position video net first
      { t with toPipelineState := s, m_capture := m_capture } where
  primed := h.primed.schedule h.accounted h.framed hvideo hanswers hs
  accounted := h.accounted.turn (schedule_cases hs)
  framed := h.framed.turn h.accounted.producing (schedule_cases hs)
  awaited :=
    { asking := fun _ _ hphase => asking_nodup h.awaited.asking hs hphase
      asked := hasked
      due := fun hsome => due_turn h.accounted (schedule_cases hs) (h.awaited.due hsome) }
  kept := { hkept with }

/-- A frame is grabbed, which is then the only one that waits. -/
theorem Inv.grabs {order : List E} {todo : List E} {before : Bool}
    (h : Inv capture position video net first t) (hcapture : capture.Documented position)
    (hvideo : net.isProducer video = true) (hphase : t.phase = .asking (video :: todo) before)
    (hbefore : t.beforeDispatched video = true)
    (hs : t.toPipelineState.schedule net order (t.readyToProduce capture) = some s)
    (hphase' : ∃ allReady, s.phase = .asking todo allReady) (hworker : s.worker = t.worker) :
    Inv capture position video net first { t.grab capture with toPipelineState := s } := by
  have hidle := SourcedState.idle_of_beforeDispatched h.accounted hbefore
  have hdue : t.due = none := by
    refine h.awaited.due_none (fun todo hproducing => ?_) hidle
    cases hphase.symm.trans hproducing
  have hasked : t.asked = none := h.awaited.asked_none hphase List.mem_cons_self
  have hkept := h.kept.grab hcapture hasked hdue
  cases hready : t.readyToProduce capture with
  | false =>
    have hgrab : t.grab capture = { t with m_capture := (capture.grab t.m_capture).2 } := by
      simp [VideoState.grab, hready]
    rw [hgrab] at hkept ⊢
    rw [hready] at hs
    refine h.keeps hvideo hs (sourced_answers fun _ _ _ => Bool.noConfusion) (fun hsome => ?_) hkept
    rw [hasked] at hsome
    cases hsome
  | true =>
    have hgrab : t.grab capture = { t with
        m_capture := (capture.grab t.m_capture).2, asked := some (position t.m_capture) } := by
      simp [VideoState.grab, hready, hcapture.retrieve t.m_capture hready]
    rw [hgrab] at hkept ⊢
    rw [hready] at hs
    have hanswers : (sourced { t with asked := some (position t.m_capture) }).answers video grabbed
        (.schedule order true : Event E P C) = true := sourced_answers fun _ _ _ _ => rfl
    have hprimed := (h.primed.arrives grabbed_lawful (position t.m_capture)).schedule h.accounted
      h.framed hvideo hanswers hs
    obtain ⟨allReady, hphase'⟩ := hphase'
    constructor
    case primed => exact ⟨hprimed.asked, hprimed.producing, hprimed.starting, hprimed.ofProducer⟩
    case accounted => exact h.accounted.turn (schedule_cases hs)
    case framed => exact h.framed.turn h.accounted.producing (schedule_cases hs)
    case kept => exact { hkept with }
    case awaited =>
      constructor
      case asking => exact fun _ _ hphase => asking_nodup h.awaited.asking hs hphase
      case asked =>
        intro _
        have hnodup := h.awaited.asking _ _ hphase
        exact ⟨⟨todo, allReady, hphase', (List.nodup_cons.mp hnodup).1⟩,
          (congrFun hworker video).trans hidle⟩
      case due =>
        intro hsome
        change t.due.isSome = true at hsome
        rw [hdue] at hsome
        cases hsome

/-- All producers are ready, and the frame that was grabbed is due. -/
theorem Inv.dues {order : List E} {answer : Bool} (h : Inv capture position video net first t)
    (hvideo : net.isProducer video = true) (hphase : t.phase = .asking [] true)
    (hs : t.toPipelineState.schedule net order answer = some s) :
    Inv capture position video net first
      { t with toPipelineState := s, asked := none, due := t.asked } := by
  have hprimed := h.primed.schedule h.accounted h.framed hvideo
    (sourced_answers fun _ _ hphase₀ => by cases hphase.symm.trans hphase₀) hs
  obtain ⟨hidle, -⟩ := h.primed.asked [] hphase List.not_mem_nil
  have hdue : t.due = none :=
    h.awaited.due_none (fun _ hproducing => by cases hphase.symm.trans hproducing) hidle
  have hphase' : s.phase = .producing net.producers := by
    simp only [PipelineState.schedule, hphase] at hs
    cases hs
    rfl
  have hor : t.asked.or t.due = t.asked := by rw [hdue, Option.or_none]
  constructor
  case primed =>
    change SourcedState.Primed video grabbed ⟨s, t.asked.or t.due, [], t.produced⟩ at hprimed
    rw [hor] at hprimed
    exact hprimed
  case accounted => exact h.accounted.turn (schedule_cases hs)
  case framed => exact h.framed.turn h.accounted.producing (schedule_cases hs)
  case awaited =>
    constructor
    case asking => exact fun _ _ hphase₀ => by cases hphase'.symm.trans hphase₀
    case asked => exact fun hsome => by cases hsome
    case due =>
      intro _
      exact .inl ⟨_, hphase', List.mem_filter.mpr ⟨net.mem_children video, hvideo⟩⟩
  case kept =>
    have hall := h.kept.all
    have hlast := h.kept.last
    rw [hor] at hall hlast
    exact ⟨hall, h.kept.produced, h.kept.refused, hlast⟩

/-- Not all are ready, and the frame is dropped. -/
theorem Inv.refuses {order : List E} {answer : Bool} (h : Inv capture position video net first t)
    (hvideo : net.isProducer video = true) (hphase : t.phase = .asking [] false)
    (hs : t.toPipelineState.schedule net order answer = some s) :
    Inv capture position video net first
      { t with toPipelineState := s, asked := none, refused := t.refused ++ t.asked.toList } := by
  have hprimed := h.primed.schedule h.accounted h.framed hvideo
    (sourced_answers fun _ _ hphase₀ => by cases hphase.symm.trans hphase₀) hs
  have hto : s.phase = .idle ∧ s.worker = t.worker := by
    simp only [PipelineState.schedule, hphase] at hs
    cases hs
    exact ⟨rfl, rfl⟩
  obtain ⟨hphase', hworker⟩ := hto
  constructor
  case primed =>
    constructor
    case asked => exact fun _ hphase₀ => by cases hphase'.symm.trans hphase₀
    case producing => exact fun _ hphase₀ => by cases hphase'.symm.trans hphase₀
    case starting =>
      intro hstarting
      have hsome : (t.asked.or t.due).isSome = true := hprimed.starting hstarting
      cases hasked : t.asked with
      | none =>
        rw [hasked] at hsome
        exact hsome
      | some frame =>
        obtain ⟨-, hidle⟩ := h.awaited.asked (Option.isSome_of_eq_some hasked)
        change (s.worker video).Starting at hstarting
        rw [hworker, hidle] at hstarting
        exact hstarting.elim
    case ofProducer => exact hprimed.ofProducer
  case accounted => exact h.accounted.turn (schedule_cases hs)
  case framed => exact h.framed.turn h.accounted.producing (schedule_cases hs)
  case awaited =>
    constructor
    case asking => exact fun _ _ hphase₀ => by cases hphase'.symm.trans hphase₀
    case asked => exact fun hsome => by cases hsome
    case due =>
      exact fun hsome => due_turn h.accounted (schedule_cases hs) (h.awaited.due hsome)
  case kept =>
    refine h.kept.refuse (fun hsome => ?_) s
    obtain ⟨-, hidle⟩ := h.awaited.asked hsome
    exact h.awaited.due_none (fun _ hproducing => by cases hphase.symm.trans hproducing) hidle

theorem Inv.schedule {order : List E} {answer : Bool} (h : Inv capture position video net first t)
    (hcapture : capture.Documented position) (hvideo : net.isProducer video = true)
    (hs : t.schedule video capture net order answer = some t') :
    Inv capture position video net first t' := by
  unfold VideoState.schedule at hs
  obtain ⟨s, hs', hnext⟩ := Option.bind_eq_some_iff.mp hs
  clear hs
  split at hnext
  case h_1 e todo before hphase =>
    have hto : s.phase = .asking todo (before && (t.beforeDispatched e && answer)) ∧
        s.worker = t.worker := by
      simp only [PipelineState.schedule, hphase] at hs'
      cases hs'
      exact ⟨rfl, rfl⟩
    obtain ⟨hphase', hworker⟩ := hto
    split at hnext
    case isTrue hasks =>
      obtain ⟨rfl, hbefore⟩ := hasks
      split at hnext
      case isTrue hanswer =>
        cases hnext
        subst answer
        exact h.grabs hcapture hvideo hphase hbefore hs' ⟨_, hphase'⟩ hworker
      case isFalse => cases hnext
    case isFalse hnot =>
      cases hnext
      have hasked (hsome : t.asked.isSome = true) : (∃ todo allReady,
          s.phase = .asking todo allReady ∧ video ∉ todo) ∧ s.worker video = .idle := by
        obtain ⟨⟨todo', allReady, hphase₀, hmem⟩, hidle⟩ := h.awaited.asked hsome
        cases hphase.symm.trans hphase₀
        exact ⟨⟨todo, _, hphase', fun hin => hmem (List.mem_cons_of_mem e hin)⟩,
          (congrFun hworker video).trans hidle⟩
      by_cases he : e = video
      · subst e
        -- it is not asked, and what it would answer does not matter
        have hbefore : t.beforeDispatched video = false := by simpa using hnot
        have hs'' : t.toPipelineState.schedule net order false = some s := by
          rw [← hs']
          simp only [PipelineState.schedule, hphase, hbefore, Bool.false_and]
        exact h.keeps hvideo hs'' (sourced_answers fun _ _ _ => Bool.noConfusion) hasked h.kept
      · refine h.keeps hvideo hs' (sourced_answers fun todo' allReady hphase₀ => ?_) hasked h.kept
        cases hphase.symm.trans hphase₀
        exact absurd rfl he
  case h_2 hphase =>
    cases hnext
    exact h.dues hvideo hphase hs'
  case h_3 hphase =>
    cases hnext
    exact h.refuses hvideo hphase hs'
  case h_4 hcons htrue hfalse =>
    cases hnext
    refine h.keeps hvideo hs' (sourced_answers fun _ _ hphase₀ => (hcons _ _ _ hphase₀).elim)
      (fun hsome => ?_) h.kept
    obtain ⟨⟨todo, allReady, hphase₀, -⟩, -⟩ := h.awaited.asked hsome
    cases todo with
    | cons e todo => exact (hcons _ _ _ hphase₀).elim
    | nil =>
      cases allReady with
      | true => exact (htrue hphase₀).elim
      | false => exact (hfalse hphase₀).elim

variable [DecidableEq P]

/-- A step of a run in which nothing is put for the first time. -/
theorem Inv.works {e : E} {action : Action P C} (h : Inv capture position video net first t)
    (hvideo : net.isProducer video = true)
    (hs : t.toPipelineState.work net e action = some s)
    (hput : e = video → (t.worker video).isProducing = true → ∀ p, action ≠ .put p)
    (hreturns : e = video → (t.worker video).isProducing = true → action ≠ .returns true) :
    Inv capture position video net first { t with toPipelineState := s } := by
  obtain ⟨w', hw⟩ := work_cases (h.accounted.shaped e) hs
  have hother (he : e ≠ video) : s.worker video = t.worker video := by
    rw [hw.worker, Function.update_of_ne (Ne.symm he)]
  constructor
  case primed => exact h.primed.work h.accounted hvideo hs fun _ => rfl
  case accounted => exact h.accounted.works hw
  case framed => exact h.framed.works hw
  case kept => exact { h.kept with }
  case awaited =>
    constructor
    case asking => exact fun todo allReady hphase => h.awaited.asking _ _ (hw.phase ▸ hphase)
    case asked =>
      intro hsome
      obtain ⟨⟨todo, allReady, hphase, hnot⟩, hidle⟩ := h.awaited.asked hsome
      refine ⟨⟨todo, allReady, hw.phase.trans hphase, hnot⟩, (hother ?_).trans hidle⟩
      rintro rfl
      have hbusy := hw.busy
      rw [hidle] at hbusy
      exact hbusy
    case due =>
      intro hsome
      rcases h.awaited.due hsome with ⟨todo, hphase, hmem⟩ | hpending
      · exact .inl ⟨todo, hw.phase.trans hphase, hmem⟩
      · right
        by_cases he : e = video
        · subst e
          exact work_pending hvideo hs hpending (hput rfl) (hreturns rfl)
        · change (s.worker video).Pending
          rw [hother he]
          exact hpending

omit [DecidableEq E] [DecidableEq P] in
/-- What is retrieved is the frame that the run is for. -/
theorem Inv.due {got : List C} (h : Inv capture position video net first t)
    (hw : t.worker video = .processing ⟨[], got⟩) :
    t.asked = none ∧ ∃ frame, t.due = some frame ∧ capture.retrieve t.m_capture = some frame := by
  have hasked : t.asked = none := by
    rw [← Option.not_isSome_iff_eq_none]
    intro hsome
    obtain ⟨-, hidle⟩ := h.awaited.asked hsome
    cases hw.symm.trans hidle
  have hsome : (t.asked.or t.due).isSome = true := h.primed.starting (by
    change (t.worker video).Starting
    rw [hw]
    trivial)
  rw [hasked, Option.none_or] at hsome
  obtain ⟨frame, hdue⟩ := Option.isSome_iff_exists.mp hsome
  exact ⟨hasked, frame, hdue, (h.kept.last frame (by rw [hasked, hdue]; rfl)).2⟩

theorem Inv.work {e : E} {action : Action P C} (h : Inv capture position video net first t)
    (hvideo : net.isProducer video = true)
    (hs : t.work video capture net e action = some t') : Inv capture position video net first t' := by
  unfold VideoState.work at hs
  obtain ⟨s, hs', hnext⟩ := Option.bind_eq_some_iff.mp hs
  clear hs
  split at hnext
  case isFalse hnot =>
    cases hnext
    exact h.works hvideo hs' (fun he hp => absurd ⟨he, hp⟩ hnot)
      fun he hp => absurd ⟨he, hp⟩ hnot
  case isTrue hproducing =>
    obtain ⟨rfl, hproducing⟩ := hproducing
    split at hnext
    case h_1 p =>
      obtain ⟨got, hw⟩ := Worker.isProducing_iff.mp hproducing
      obtain ⟨hasked, frame, hdue, hretrieve⟩ := h.due hw
      rw [hretrieve] at hnext
      cases hnext
      obtain ⟨w', hworks⟩ := work_cases (h.accounted.shaped e) hs'
      have hproduces : t.sourced.produces e (.work e (.put p) : Event E P C) = true :=
        SourcedState.produces_iff.mpr ⟨_, got, rfl, hw, .inl ⟨p, rfl⟩⟩
      constructor
      case primed =>
        exact h.primed.work h.accounted hvideo hs' fun hnot => by
          cases hnot.symm.trans hproduces
      case accounted => exact h.accounted.works hworks
      case framed => exact h.framed.works hworks
      case kept => exact h.kept.put hasked hdue s
      case awaited =>
        constructor
        case asking =>
          exact fun todo allReady hphase => h.awaited.asking _ _ (hworks.phase ▸ hphase)
        case asked =>
          intro hsome
          change t.asked.isSome = true at hsome
          rw [hasked] at hsome
          cases hsome
        case due => exact fun hsome => by cases hsome
    case h_2 => cases hnext
    case h_3 action hput hreturns =>
      cases hnext
      exact h.works hvideo hs' (fun _ _ p hp => hput p hp) fun _ _ hr => hreturns hr

omit [DecidableEq E] [DecidableEq P] in
theorem inv_started (stale : E → Nat → Nat) {opened : V} (hopened : position opened = 0) :
    Inv capture position video net first (.started first stale opened : VideoState E P C V) where
  primed := by
    refine ⟨fun _ hphase => ?_, fun _ hphase => ?_, False.elim, trivial⟩
    · cases hphase
    · cases hphase
  accounted := started_accounted first stale
  framed := started_framed
  awaited := by
    refine ⟨fun _ _ hphase => ?_, fun hsome => ?_, fun hsome => ?_⟩
    · cases hphase
    · cases hsome
    · cases hsome
  kept := by
    refine ⟨?_, .nil, .nil, fun _ hlast => by cases hlast⟩
    change List.Perm [] (List.range (position opened))
    rw [hopened]
    exact .nil

theorem Inv.step {event : Event E P C} (h : Inv capture position video net first t)
    (hcapture : capture.Documented position) (hvideo : net.isProducer video = true)
    (hs : t.step video capture net event = some t') : Inv capture position video net first t' := by
  cases event with
  | schedule order answer => exact h.schedule hcapture hvideo hs
  | work e action => exact h.work hvideo hs

/-- When there is no other producer, all are ready when the video is. -/
structure Alone (video : E) (t : VideoState E P C V) : Prop where
  refused : t.refused = []
  asking : ∀ todo allReady, t.phase = .asking todo allReady →
    todo = [video] ∧ allReady = true ∨ todo = [] ∧ (allReady = false → t.asked = none)

omit [DecidableEq P] [DecidableEq C] in
theorem Alone.schedule {order : List E} {answer : Bool} (h : Alone video t)
    (hawaited : Awaited video t) (hproducers : net.producers = [video])
    (hs : t.schedule video capture net order answer = some t') : Alone video t' := by
  unfold VideoState.schedule at hs
  obtain ⟨s, hs', hnext⟩ := Option.bind_eq_some_iff.mp hs
  clear hs
  -- the last producer asked is the video
  have hasking {todo : List E} {allReady : Bool} (hphase : s.phase = .asking todo allReady)
      {asked : Option Nat} (hasked : t.phase = .asking [video] true →
        allReady = (t.beforeDispatched video && answer) → allReady = false → asked = none) :
      todo = [video] ∧ allReady = true ∨ todo = [] ∧ (allReady = false → asked = none) := by
    rcases SourcedState.schedule_asking hs' hphase with ⟨rfl, rfl⟩ | ⟨e, before, hold, hall, -⟩
    · exact .inl ⟨hproducers, rfl⟩
    · rcases h.asking _ _ hold with ⟨htodo, rfl⟩ | ⟨hnil, -⟩
      · obtain ⟨rfl, rfl⟩ := List.cons.inj htodo
        exact .inr ⟨rfl, hasked hold hall⟩
      · cases hnil
  have hfree (hold : t.phase = .asking [video] true) : t.asked = none :=
    hawaited.asked_none hold (List.mem_singleton_self video)
  split at hnext
  case h_1 e todo before hphase =>
    split at hnext
    case isTrue hasks =>
      obtain ⟨rfl, hbefore⟩ := hasks
      split at hnext
      case isTrue hanswer =>
        cases hnext
        constructor
        case refused =>
          exact h.refused
        case asking =>
          refine fun todo' allReady hphase' => hasking hphase' fun hold hall hfalse => ?_
          change (if t.readyToProduce capture = true then _ else t.asked) = none
          rw [hall, hbefore, Bool.true_and, hanswer] at hfalse
          rw [hfalse, if_neg Bool.false_ne_true]
          exact hfree hold
      case isFalse => cases hnext
    case isFalse =>
      cases hnext
      exact ⟨h.refused, fun _ _ hphase' => hasking hphase' fun hold _ _ => hfree hold⟩
  case h_2 =>
    cases hnext
    exact ⟨h.refused, fun _ _ hphase' => hasking hphase' fun _ _ _ => rfl⟩
  case h_3 hphase =>
    cases hnext
    constructor
    case refused =>
      rcases h.asking _ _ hphase with ⟨hnil, -⟩ | ⟨-, hnone⟩
      · cases hnil
      · change t.refused ++ t.asked.toList = []
        rw [h.refused, hnone rfl]
        rfl
    case asking => exact fun _ _ hphase' => hasking hphase' fun _ _ _ => rfl
  case h_4 =>
    cases hnext
    exact ⟨h.refused, fun _ _ hphase' => hasking hphase' fun hold _ _ => hfree hold⟩

theorem Alone.work {e : E} {action : Action P C} (h : Alone video t)
    (ha : Accounted net t.toPipelineState) (hs : t.work video capture net e action = some t') :
    Alone video t' := by
  unfold VideoState.work at hs
  obtain ⟨s, hs', hnext⟩ := Option.bind_eq_some_iff.mp hs
  clear hs
  obtain ⟨w', hw⟩ := work_cases (ha.shaped e) hs'
  have hkept {due : Option Nat} {produced : List Nat} : Alone video
      { t with toPipelineState := s, due := due, produced := produced } :=
    ⟨h.refused, fun _ _ hphase => h.asking _ _ (hw.phase ▸ hphase)⟩
  split at hnext
  case isFalse =>
    cases hnext
    exact hkept
  case isTrue =>
    split at hnext
    case h_1 =>
      obtain ⟨frame, -, rfl⟩ := Option.map_eq_some_iff.mp hnext
      exact hkept
    case h_2 => cases hnext
    case h_3 =>
      cases hnext
      exact hkept

structure Played (capture : VideoCapture V) (position : V → Nat) (video : E) (net : Network E P C)
    (t : VideoState E P C V) : Prop where
  /-- each was put once, or dropped because another producer was not ready, or is on its way -/
  once : (t.produced ++ t.refused ++ (t.asked.or t.due).toList).Perm
    (List.range (position t.m_capture))
  inOrder : t.produced.Pairwise (· < ·)
  /-- there is a frame to retrieve, and it was neither put nor dropped -/
  retrieves : ∀ got, t.worker video = .processing ⟨[], got⟩ →
    ∃ frame, capture.retrieve t.m_capture = some frame ∧ frame ∉ t.produced ++ t.refused
  /-- without other producers no frame is dropped -/
  alone : net.producers = [video] →
    t.produced ++ (t.asked.or t.due).toList = List.range (position t.m_capture)

/-- Asking a video whether it is ready takes its next frame, whether it will be produced or not.
Still, in every interleaving each frame is put at most once and in order, and the only frames left
out are those that were grabbed while another producer was not ready. -/
theorem video_frames {stale : E → Nat → Nat} {opened : V} (hcapture : capture.Documented position)
    (hopened : position opened = 0) (hvideo : net.isProducer video = true)
    (h : Reaches (step video capture net) (fun _ _ => True) (.started first stale opened) t) :
    Played capture position video net t := by
  have hinv : Inv capture position video net first t ∧ (net.producers = [video] → Alone video t) := by
    refine h.invariant (I := fun t => Inv capture position video net first t ∧
      (net.producers = [video] → Alone video t)) ⟨inv_started stale hopened, fun _ => ⟨rfl, ?_⟩⟩ ?_
    · exact fun _ _ hphase => by cases hphase
    · intro t event t' ⟨hinv, halone⟩ _ hs
      refine ⟨hinv.step hcapture hvideo hs, fun hproducers => ?_⟩
      cases event with
      | schedule order answer => exact (halone hproducers).schedule hinv.awaited hproducers hs
      | work e action => exact (halone hproducers).work hinv.accounted hs
  obtain ⟨hinv, halone⟩ := hinv
  constructor
  case once => exact hinv.kept.all
  case inOrder => exact hinv.kept.produced
  case retrieves =>
    intro got hw
    obtain ⟨hasked, frame, hdue, hretrieve⟩ := hinv.due hw
    have hlast : t.asked.or t.due = some frame := by rw [hasked, hdue]; rfl
    exact ⟨frame, hretrieve, fun hmem => Nat.lt_irrefl _ (hinv.kept.below hlast hmem)⟩
  case alone =>
    intro hproducers
    have hall := hinv.kept.all
    rw [(halone hproducers).refused, List.append_nil] at hall
    refine List.Perm.eq_of_pairwise (fun a b _ _ hlt hgt => absurd hgt (Nat.lt_asymm hlt)) ?_
      List.pairwise_lt_range hall
    cases hlast : t.asked.or t.due with
    | none => simpa using hinv.kept.produced
    | some frame =>
      exact pairwise_concat hinv.kept.produced fun i hi =>
        hinv.kept.below hlast (List.mem_append_left _ hi)

end

/-- Two producers, of which the second is not ready in the first turn. -/
def twoTurns : List (Event (Fin 3) (Fin 2) (Fin 2)) :=
  let turn (ready : Bool) : List (Event (Fin 3) (Fin 2) (Fin 2)) :=
    List.flatten [[.schedule [] true], List.replicate 9 (.schedule [0, 1, 2] true),
      [.schedule [] ready]]
  List.flatten [turn false, [.schedule [] true], turn true, List.replicate 2 (.schedule [] true),
    List.replicate 2 (.work 0 (.returns true)), [.work 0 (.put 0)]]

def threeFrames : VideoCapture Nat where
  grab n := if n < 3 then (true, n + 1) else (false, n)
  retrieve n := if n = 0 then none else some (n - 1)

theorem threeFrames_documented : threeFrames.Documented id := by
  have hready (n : Nat) : (threeFrames.grab n).1 = true ↔ n < 3 := by
    by_cases hn : n < 3 <;> simp [threeFrames, hn]
  constructor
  case grab =>
    intro n hn
    simp [threeFrames, (hready n).mp hn]
  case grab_false =>
    intro n hn
    have hnot : ¬ n < 3 := fun hlt => by
      rw [(hready n).mpr hlt] at hn
      cases hn
    simp [threeFrames, hnot]
  case retrieve =>
    intro n hn
    simp [threeFrames, (hready n).mp hn]

/-- The first frame is dropped and the second put. -/
theorem video_frames_joined : ∃ t : VideoState (Fin 3) (Fin 2) (Fin 2) Nat,
    t.refused = [0] ∧ t.produced = [1] ∧ Played threeFrames id 0 joined t := by
  have hend : (run (step 0 threeFrames joined) (.started 1 (fun _ _ => 0) 0) twoTurns).map
      (fun t => (t.refused, t.produced)) = some ([0], [1]) := by decide +kernel
  obtain ⟨t, ht, hview⟩ := Option.map_eq_some_iff.mp hend
  obtain ⟨hrefused, hproduced⟩ := Prod.mk.inj hview
  exact ⟨t, hrefused, hproduced,
    video_frames threeFrames_documented rfl rfl (.of_run (fun _ _ _ => trivial) ht)⟩

end VideoState

end ParleVision.Opencv
