import ParleVision.Lib.Run

namespace ParleVision.Opencv
open Lib

inductive CameraState where
  | uninitialized
  | initialized
  | running
  | paused
  deriving DecidableEq, Repr

inductive CaptureThread where
  | notRunning
  | assertState
  | assertDevice
  | whileRunning
  | whilePaused
  | getFrame
  | ifPaused
  /-- In front of `m_mutex.lock()`. -/
  | lock
  /-- In `m_condition.wait()`, where nobody has woken it. -/
  | waiting
  /-- Still in there, woken, and in need of the mutex. -/
  | woken
  /-- An assertion has failed, which ends the program. -/
  | aborted
  deriving DecidableEq, Repr

/-- Where the other thread is. All its calls are one section, but `release`. -/
inductive CallingThread where
  | idle
  /-- Between `m_mutex.unlock()` and `m_mutex.lock()`. -/
  | relock
  /-- In `QThread::wait()`, with the mutex. -/
  | wait
  deriving DecidableEq, Repr

structure OpenCVCamera where
  m_state : CameraState
  /-- There is one. -/
  m_captureDevice : Bool
  thread : CaptureThread
  caller : CallingThread
  deriving DecidableEq, Repr

namespace OpenCVCamera

def constructed : OpenCVCamera := ⟨.uninitialized, false, .notRunning, .idle⟩

/-- A device that fails to open leaves the state as it was. -/
def init (opened : Bool) (s : OpenCVCamera) : OpenCVCamera :=
  let s := { s with m_captureDevice := opened }
  if opened then { s with m_state := .initialized } else s

def wakeOne (s : OpenCVCamera) : OpenCVCamera :=
  if s.thread = .waiting then { s with thread := .woken } else s

/-- `QThread::start()`, which does nothing while the thread is running. -/
def startThread (s : OpenCVCamera) : OpenCVCamera :=
  if s.thread = .notRunning then { s with thread := .assertState } else s

def start (s : OpenCVCamera) : OpenCVCamera :=
  match s.m_state with
  | .uninitialized => s
  | .initialized => { s with m_state := .running }.startThread
  | .running => s
  | .paused => { s with m_state := .running }.wakeOne

def pause (s : OpenCVCamera) : OpenCVCamera :=
  if s.m_state = .running then { s with m_state := .paused } else s

def releaseCapture (s : OpenCVCamera) : OpenCVCamera := { s with m_captureDevice := false }

/-- Up to where it waits, if it does. -/
def release (s : OpenCVCamera) : OpenCVCamera :=
  let released := { s with m_state := .uninitialized }
  match s.m_state with
  | .paused => { released.wakeOne with caller := .relock }
  | .running => { released with caller := .wait }
  | .initialized => released.releaseCapture
  | .uninitialized => released

/-- From one read of the state, or one section, to the next; `getFrame` depends on the device. The
mutex is taken while `release` waits for the thread. -/
def runStep (s : OpenCVCamera) : Option OpenCVCamera :=
  match s.thread with
  | .assertState =>
    some { s with thread := if s.m_state = .uninitialized then .aborted else .assertDevice }
  | .assertDevice => some { s with thread := if s.m_captureDevice then .whileRunning else .aborted }
  | .whileRunning =>
    some { s with thread := if s.m_state = .running then .getFrame else .whilePaused }
  | .whilePaused =>
    some { s with thread := if s.m_state = .paused then .getFrame else .notRunning }
  | .ifPaused => some { s with thread := if s.m_state = .paused then .lock else .whileRunning }
  | .lock => if s.caller = .wait then none else some { s with thread := .waiting }
  | .woken => if s.caller = .wait then none else some { s with thread := .whileRunning }
  | .notRunning | .getFrame | .waiting | .aborted => none

/-- Without a device nothing is grabbed. A frame is sent before the state is read again. -/
def getFrame (grabbed : Bool) (s : OpenCVCamera) : OpenCVCamera :=
  if s.m_state = .uninitialized ∨ s.m_captureDevice = false ∨ grabbed = false then
    { s with thread := .notRunning }
  else { s with thread := .ifPaused }

inductive Event where
  | init (opened : Bool)
  | start
  | pause
  | release
  /-- `release` goes on, once the mutex is locked again. -/
  | relock
  /-- `release` goes on, once the thread has finished. -/
  | finished
  | run
  | getFrame (grabbed : Bool)
  deriving DecidableEq, Repr

def call (f : OpenCVCamera → OpenCVCamera) (s : OpenCVCamera) : Option OpenCVCamera :=
  if s.caller = .idle ∧ s.thread ≠ .aborted then some (f s) else none

def step (s : OpenCVCamera) : Event → Option OpenCVCamera
  | .init opened => s.call (init opened)
  | .start => s.call start
  | .pause => s.call pause
  | .release => s.call release
  | .relock =>
    if s.caller = .relock ∧ s.thread ≠ .aborted then some { s with caller := .wait } else none
  | .finished =>
    if s.caller = .wait ∧ s.thread = .notRunning then
      some { s.releaseCapture with caller := .idle }
    else none
  | .run => s.runStep
  | .getFrame grabbed => if s.thread = .getFrame then some (s.getFrame grabbed) else none

/-- The capture thread waits to be woken only while the camera is paused, and `release` does not
wait for it there. -/
structure NoLostWakeUp (s : OpenCVCamera) : Prop where
  paused : s.thread = .waiting → s.m_state = .paused
  released : s.caller = .wait → s.thread ≠ .waiting

/-- It begins to wait after the state has changed, or the device is opened again under it. -/
def LosesWakeUp (s : OpenCVCamera) : Event → Prop
  | .run => s.thread = .lock ∧ s.m_state ≠ .paused
  | .init opened => opened = true ∧ s.thread = .waiting
  | _ => False

/-- `release` sets the state before everything else. -/
def Released (s : OpenCVCamera) : Prop := s.caller ≠ .idle → s.m_state = .uninitialized

variable {s s' : OpenCVCamera}

theorem wakeOne_m_state (s : OpenCVCamera) : s.wakeOne.m_state = s.m_state := by
  unfold wakeOne
  split <;> rfl

theorem wakeOne_caller (s : OpenCVCamera) : s.wakeOne.caller = s.caller := by
  unfold wakeOne
  split <;> rfl

theorem wakeOne_lock (s : OpenCVCamera) : s.wakeOne.thread = .lock ↔ s.thread = .lock := by
  unfold wakeOne
  split
  · rename_i hthread
    exact iff_of_false nofun (by rw [hthread]; nofun)
  · rfl

theorem wakeOne_not_waiting (s : OpenCVCamera) : s.wakeOne.thread ≠ .waiting := by
  unfold wakeOne
  split
  · nofun
  · assumption

theorem startThread_caller (s : OpenCVCamera) : s.startThread.caller = s.caller := by
  unfold startThread
  split <;> rfl

/-- It puts the thread in one place only, from one. -/
theorem startThread_thread (s : OpenCVCamera) (place : CaptureThread)
    (hassert : place ≠ .assertState) (hnot : place ≠ .notRunning) :
    s.startThread.thread = place ↔ s.thread = place := by
  unfold startThread
  split
  · rename_i hthread
    exact iff_of_false (Ne.symm hassert) (by rw [hthread]; exact Ne.symm hnot)
  · rfl

theorem Released.noLostWakeUp_iff (h : s.Released) :
    s.NoLostWakeUp ↔ (s.thread = .waiting → s.m_state = .paused) := by
  refine ⟨NoLostWakeUp.paused, fun hpaused => ⟨hpaused, fun hwait hthread => ?_⟩⟩
  have huninitialized := h (by rw [hwait]; nofun)
  rw [hpaused hthread] at huninitialized
  cases huninitialized

/-- While no call is in progress, there is nothing to keep. -/
theorem released_of_idle (h : s.caller = .idle) : s.Released := fun hnot => absurd h hnot

theorem init_caller (opened : Bool) (s : OpenCVCamera) : (s.init opened).caller = s.caller := by
  cases opened <;> rfl

theorem start_caller (s : OpenCVCamera) : s.start.caller = s.caller := by
  unfold start
  split
  · rfl
  · exact startThread_caller _
  · rfl
  · exact wakeOne_caller _

theorem pause_caller (s : OpenCVCamera) : s.pause.caller = s.caller := by
  unfold pause
  split <;> rfl

theorem release_m_state (s : OpenCVCamera) : s.release.m_state = .uninitialized := by
  unfold release
  split
  · exact wakeOne_m_state _
  · rfl
  · rfl
  · rfl

/-- Opening a device is the one call that leaves the thread waiting in another state. -/
theorem init_waits_iff (opened : Bool) (h : s.thread = .waiting → s.m_state = .paused) :
    ((s.init opened).thread = .waiting → (s.init opened).m_state = .paused) ↔
      ¬ (opened = true ∧ s.thread = .waiting) := by
  cases opened with
  | false => exact iff_of_true h nofun
  | true =>
    change (s.thread = .waiting → CameraState.initialized = .paused) ↔ _
    constructor
    · rintro himp ⟨-, hthread⟩
      cases himp hthread
    · exact fun hnot hthread => absurd ⟨rfl, hthread⟩ hnot

theorem start_waits (h : s.thread = .waiting → s.m_state = .paused) :
    s.start.thread = .waiting → s.start.m_state = .paused := by
  unfold start
  split
  · exact h
  · rename_i hstate
    intro hthread
    have hwaiting := (startThread_thread _ .waiting nofun nofun).mp hthread
    have hpaused := h hwaiting
    rw [hstate] at hpaused
    cases hpaused
  · exact h
  · exact fun hthread => absurd hthread (wakeOne_not_waiting _)

theorem pause_waits (h : s.thread = .waiting → s.m_state = .paused) :
    s.pause.thread = .waiting → s.pause.m_state = .paused := by
  unfold pause
  split
  · exact fun _ => rfl
  · exact h

/-- It wakes the thread, which waits in no other state. -/
theorem release_waits (h : s.thread = .waiting → s.m_state = .paused) :
    s.release.thread ≠ .waiting := by
  unfold release
  split
  case h_1 => exact wakeOne_not_waiting _
  all_goals
    rename_i hstate
    intro hthread
    have hpaused := h hthread
    rw [hstate] at hpaused
    cases hpaused

theorem call_eq_some {f : OpenCVCamera → OpenCVCamera} (h : s.call f = some s') :
    s.caller = .idle ∧ s.thread ≠ .aborted ∧ s' = f s := by
  unfold call at h
  split at h
  case isTrue hidle =>
    cases h
    exact ⟨hidle.1, hidle.2, rfl⟩
  case isFalse => cases h

/-- The capture thread changes nothing but its place, and begins to wait in one place only. -/
theorem runStep_eq_some (h : s.runStep = some s') :
    s'.m_state = s.m_state ∧ s'.m_captureDevice = s.m_captureDevice ∧ s'.caller = s.caller ∧
      (s'.thread = .waiting ↔ s.thread = .lock) ∧ (s'.thread = .lock → s.m_state = .paused) := by
  unfold runStep at h
  split at h <;> rename_i hthread
  case h_5 =>
    cases h
    refine ⟨rfl, rfl, rfl, iff_of_false ?_ (by rw [hthread]; nofun), ?_⟩
    · dsimp only
      split <;> nofun
    · dsimp only
      split
      · exact fun _ => ‹_›
      · nofun
  case h_6 =>
    split at h
    · cases h
    · cases h
      exact ⟨rfl, rfl, rfl, iff_of_true rfl hthread, nofun⟩
  case h_7 =>
    split at h
    · cases h
    · cases h
      exact ⟨rfl, rfl, rfl, iff_of_false nofun (by rw [hthread]; nofun), nofun⟩
  case h_8 | h_9 | h_10 | h_11 => cases h
  all_goals
    cases h
    refine ⟨rfl, rfl, rfl, iff_of_false ?_ (by rw [hthread]; nofun), ?_⟩ <;>
    · dsimp only
      split <;> nofun

theorem getFrame_eq (grabbed : Bool) (s : OpenCVCamera) :
    (s.getFrame grabbed).m_state = s.m_state ∧ (s.getFrame grabbed).caller = s.caller ∧
      (s.getFrame grabbed).thread ≠ .waiting ∧ (s.getFrame grabbed).thread ≠ .lock := by
  unfold getFrame
  split <;> exact ⟨rfl, rfl, nofun, nofun⟩

theorem step_released {e : Event} (hs : s.step e = some s') (h : s.Released) : s'.Released := by
  cases e with
  | init opened =>
    obtain ⟨hidle, -, rfl⟩ := call_eq_some hs
    exact released_of_idle ((init_caller opened s).trans hidle)
  | start =>
    obtain ⟨hidle, -, rfl⟩ := call_eq_some hs
    exact released_of_idle ((start_caller s).trans hidle)
  | pause =>
    obtain ⟨hidle, -, rfl⟩ := call_eq_some hs
    exact released_of_idle ((pause_caller s).trans hidle)
  | release =>
    obtain ⟨-, -, rfl⟩ := call_eq_some hs
    exact fun _ => release_m_state s
  | relock =>
    obtain ⟨⟨hrelock, -⟩, hs'⟩ := Option.ite_none_right_eq_some.mp hs
    cases hs'
    exact fun _ => h (by rw [hrelock]; nofun)
  | finished =>
    obtain ⟨-, hs'⟩ := Option.ite_none_right_eq_some.mp hs
    cases hs'
    exact released_of_idle rfl
  | run =>
    obtain ⟨hstate, -, hcaller, -⟩ := runStep_eq_some hs
    intro hnot
    rw [hstate]
    exact h (by rwa [← hcaller])
  | getFrame grabbed =>
    obtain ⟨-, hs'⟩ := Option.ite_none_right_eq_some.mp hs
    cases hs'
    obtain ⟨hstate, hcaller, -⟩ := getFrame_eq grabbed s
    intro hnot
    rw [hstate]
    exact h (by rwa [← hcaller])

/-- Where no wake-up was lost, one step loses one exactly if it is one of the two that do. -/
theorem step_waits_iff {e : Event} (hs : s.step e = some s')
    (h : s.thread = .waiting → s.m_state = .paused) :
    (s'.thread = .waiting → s'.m_state = .paused) ↔ ¬ s.LosesWakeUp e := by
  cases e with
  | init opened =>
    obtain ⟨-, -, rfl⟩ := call_eq_some hs
    exact init_waits_iff opened h
  | start =>
    obtain ⟨-, -, rfl⟩ := call_eq_some hs
    exact iff_of_true (start_waits h) nofun
  | pause =>
    obtain ⟨-, -, rfl⟩ := call_eq_some hs
    exact iff_of_true (pause_waits h) nofun
  | release =>
    obtain ⟨-, -, rfl⟩ := call_eq_some hs
    exact iff_of_true (fun hthread => absurd hthread (release_waits h)) nofun
  | relock =>
    obtain ⟨-, hs'⟩ := Option.ite_none_right_eq_some.mp hs
    cases hs'
    exact iff_of_true h nofun
  | finished =>
    obtain ⟨-, hs'⟩ := Option.ite_none_right_eq_some.mp hs
    cases hs'
    exact iff_of_true h nofun
  | run =>
    obtain ⟨hstate, -, -, hlock, -⟩ := runStep_eq_some hs
    rw [hstate, hlock]
    exact not_and_not_right.symm
  | getFrame grabbed =>
    obtain ⟨-, hs'⟩ := Option.ite_none_right_eq_some.mp hs
    cases hs'
    obtain ⟨-, -, hnot, -⟩ := getFrame_eq grabbed s
    exact iff_of_true (fun hthread => absurd hthread hnot) nofun

theorem constructed_noLostWakeUp : constructed.NoLostWakeUp := ⟨nofun, nofun⟩

/-- The capture thread is never left waiting, and `release` never waits for it then, in the runs
in which the wait begins while the camera is still paused, and in no others. -/
theorem wakes_right {es : List Event} {s : OpenCVCamera} (h : run step constructed es = some s) :
    Always step NoLostWakeUp constructed es ↔ ¬ Occurs step LosesWakeUp constructed es := by
  have hidle : constructed.Released := released_of_idle rfl
  refine (always_iff hidle constructed_noLostWakeUp
    (fun t e t' hJ (_ : True) hs => ?_) (fun _ _ => trivial) h).2
  have hJ' := step_released hs hJ
  refine ⟨hJ', fun hI => ?_⟩
  rw [hJ'.noLostWakeUp_iff]
  exact step_waits_iff hs hI.paused

/-- The camera is started again after the thread has read that it is paused, and before it waits. -/
theorem wakes_right_lost : ¬ Always step NoLostWakeUp constructed [.init true, .start, .run, .run,
    .run, .getFrame true, .pause, .run, .start, .run] :=
  fun h => (wakes_right rfl).mp h ⟨[.init true, .start, .run, .run, .run, .getFrame true, .pause,
    .run, .start], .run, [], _, rfl, rfl, rfl, nofun⟩

/-- The same with `release`, which then waits for the thread. -/
theorem release_unheard : ¬ ∀ (es : List Event) (s : OpenCVCamera),
    run step constructed es = some s → s.NoLostWakeUp := by
  intro hall
  have hkept := hall [.init true, .start, .run, .run, .run, .getFrame true, .pause, .run, .release,
    .run, .relock] _ rfl
  exact hkept.released rfl rfl

/-- A call that changes the state while the thread is about to wait, where nothing wakes it yet, or
opens a device while it waits. -/
def Interrupts (s : OpenCVCamera) : Event → Prop
  | .init opened => opened = true ∧ (s.thread = .lock ∨ s.thread = .waiting)
  | .start | .release => s.thread = .lock
  | _ => False

def Quiet (s : OpenCVCamera) : Prop := s.thread = .lock ∨ s.thread = .waiting → s.m_state = .paused

theorem start_lock (s : OpenCVCamera) : s.start.thread = .lock ↔ s.thread = .lock := by
  unfold start
  split
  · rfl
  · exact startThread_thread _ .lock nofun nofun
  · rfl
  · exact wakeOne_lock _

theorem release_lock (s : OpenCVCamera) : s.release.thread = .lock ↔ s.thread = .lock := by
  unfold release
  split
  · exact wakeOne_lock _
  · rfl
  · rfl
  · rfl

theorem pause_quiet (h : s.Quiet) : s.pause.Quiet := by
  unfold pause
  split
  · exact fun _ => rfl
  · exact h

theorem init_quiet {opened : Bool} (h : s.Quiet) (hnot : ¬ s.Interrupts (.init opened)) :
    (s.init opened).Quiet := by
  cases opened with
  | false => exact h
  | true => exact fun hthread => absurd ⟨rfl, hthread⟩ hnot

/-- What is left to show of a call that does not come while the thread is about to wait. -/
theorem quiet_of_waits (hlock : s.thread ≠ .lock) (h : s.thread = .waiting → s.m_state = .paused) :
    s.Quiet :=
  fun hthread => h (hthread.resolve_left hlock)

theorem step_quiet {e : Event} (hs : s.step e = some s') (h : s.Quiet)
    (hnot : ¬ s.Interrupts e) : s'.Quiet := by
  have hwaits : s.thread = .waiting → s.m_state = .paused := fun hthread => h (.inr hthread)
  cases e with
  | init opened =>
    obtain ⟨-, -, rfl⟩ := call_eq_some hs
    exact init_quiet h hnot
  | start =>
    obtain ⟨-, -, rfl⟩ := call_eq_some hs
    exact quiet_of_waits (fun hlock => hnot ((start_lock s).mp hlock)) (start_waits hwaits)
  | pause =>
    obtain ⟨-, -, rfl⟩ := call_eq_some hs
    exact pause_quiet h
  | release =>
    obtain ⟨-, -, rfl⟩ := call_eq_some hs
    refine quiet_of_waits (fun hlock => hnot ((release_lock s).mp hlock)) fun hthread => ?_
    exact absurd hthread (release_waits hwaits)
  | relock =>
    obtain ⟨-, hs'⟩ := Option.ite_none_right_eq_some.mp hs
    cases hs'
    exact h
  | finished =>
    obtain ⟨-, hs'⟩ := Option.ite_none_right_eq_some.mp hs
    cases hs'
    exact h
  | run =>
    obtain ⟨hstate, -, -, hwaiting, hlock⟩ := runStep_eq_some hs
    rintro (hthread | hthread)
    · rw [hstate]
      exact hlock hthread
    · rw [hstate]
      exact h (.inl (hwaiting.mp hthread))
  | getFrame grabbed =>
    obtain ⟨-, hs'⟩ := Option.ite_none_right_eq_some.mp hs
    cases hs'
    obtain ⟨-, -, hwaiting, hlock⟩ := getFrame_eq grabbed s
    rintro (hthread | hthread)
    · exact absurd hthread hlock
    · exact absurd hthread hwaiting

/-- It takes a call between the read of the state and the wait to lose a wake-up. -/
theorem noLostWakeUp_of_quiet (h : Reaches step (fun s e => ¬ s.Interrupts e) constructed s) :
    s.NoLostWakeUp := by
  have hkept : s.Released ∧ s.Quiet := by
    refine h.invariant (I := fun s => s.Released ∧ s.Quiet)
      ⟨released_of_idle rfl, by rintro (hthread | hthread) <;> cases hthread⟩ ?_
    exact fun t e t' hI hnot hs => ⟨step_released hs hI.1, step_quiet hs hI.2 hnot⟩
  exact hkept.1.noLostWakeUp_iff.mpr fun hthread => hkept.2 (.inr hthread)

/-- The capture thread still finds out that the camera is released. -/
def Ends (s : OpenCVCamera) : Prop :=
  match s.thread with
  | .notRunning | .whileRunning | .whilePaused | .getFrame | .ifPaused => True
  | .assertDevice => s.m_captureDevice = true
  | .assertState | .lock | .waiting | .woken | .aborted => False

def toEnd : CaptureThread → List Event
  | .whilePaused => [.run]
  | .whileRunning => [.run, .run]
  | .assertDevice | .ifPaused => [.run, .run, .run]
  | .getFrame => [.getFrame true]
  | _ => []

theorem ends_run (hstate : s.m_state = .uninitialized) (hwait : s.caller = .wait) (h : s.Ends) :
    run step s (toEnd s.thread ++ [.finished]) =
      some ⟨.uninitialized, false, .notRunning, .idle⟩ := by
  obtain ⟨m_state, m_captureDevice, thread, caller⟩ := s
  cases hstate
  cases hwait
  cases thread with
  | assertDevice =>
    cases h
    rfl
  | assertState | lock | waiting | woken | aborted => cases h
  | notRunning | whileRunning | whilePaused | getFrame | ifPaused => rfl

/-- A thread that does not end does not come to where it does. -/
theorem step_not_ends {e : Event} (hs : s.step e = some s') (hstate : s.m_state = .uninitialized)
    (hwait : s.caller = .wait) (h : ¬ s.Ends) :
    s'.m_state = .uninitialized ∧ s'.caller = .wait ∧ ¬ s'.Ends := by
  have hbusy : s.caller ≠ .idle := by rw [hwait]; nofun
  cases e with
  | init | start | pause | release => exact absurd (call_eq_some hs).1 hbusy
  | relock =>
    obtain ⟨⟨hrelock, -⟩, -⟩ := Option.ite_none_right_eq_some.mp hs
    rw [hwait] at hrelock
    cases hrelock
  | finished =>
    obtain ⟨⟨-, hthread⟩, -⟩ := Option.ite_none_right_eq_some.mp hs
    unfold Ends at h
    rw [hthread] at h
    exact absurd trivial h
  | run =>
    change s.runStep = some s' at hs
    obtain ⟨m_state, m_captureDevice, thread, caller⟩ := s
    cases hstate
    cases hwait
    cases thread with
    | assertState =>
      cases hs
      exact ⟨rfl, rfl, id⟩
    | assertDevice =>
      cases m_captureDevice with
      | true => exact absurd rfl h
      | false =>
        cases hs
        exact ⟨rfl, rfl, id⟩
    | whileRunning | whilePaused | ifPaused => exact absurd trivial h
    | notRunning | getFrame | lock | waiting | woken | aborted => cases hs
  | getFrame grabbed =>
    obtain ⟨hthread, -⟩ := Option.ite_none_right_eq_some.mp hs
    unfold Ends at h
    rw [hthread] at h
    exact absurd trivial h

/-- `release` can still return if and only if the thread ends. Neither one that has been woken nor
one that is about to wait does: both need the mutex. -/
theorem release_returns_iff (h : s.Released) (hwait : s.caller = .wait) :
    (∃ t, Reaches step (fun _ _ => True) s t ∧ t.caller = .idle) ↔ s.Ends := by
  have hstate : s.m_state = .uninitialized := h (by rw [hwait]; nofun)
  constructor
  · rintro ⟨t, ht, hidle⟩
    by_contra hnot
    have hkept := ht.invariant
      (I := fun t => t.m_state = .uninitialized ∧ t.caller = .wait ∧ ¬ t.Ends)
      ⟨hstate, hwait, hnot⟩ fun t e t' hI _ hs => step_not_ends hs hI.1 hI.2.1 hI.2.2
    rw [hidle] at hkept
    cases hkept.2.1
  · intro hends
    exact ⟨_, .of_run (fun _ _ _ => trivial) (ends_run hstate hwait hends), rfl⟩

end OpenCVCamera
end ParleVision.Opencv
