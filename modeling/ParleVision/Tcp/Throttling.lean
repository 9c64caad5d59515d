import ParleVision.Tcp.Delivery
import Mathlib.Data.Fintype.Basic

namespace ParleVision.Tcp
open Lib

/-- Whether the processor is in `m_runQueue`, and with what. -/
inductive RunItem where
  | absent
  | processing (serial : UInt32)
  /-- `process()` has returned, which the next `schedule()` notices. -/
  | finished
  deriving DecidableEq, Repr

/-- A TCPServerProcessor with its connections, each in a thread of its own. -/
structure TCPServerProcessor (ι : Type) where
  m_waiting : Bool
  connection : ι → Connection
  /-- the calls of `queueFrame` that `broadcastFrame` has posted to each thread -/
  posted : ι → List Block
  /-- the signals `waitingOnClient` that are posted to the server -/
  signals : List Bool
  /-- the serials in `m_readyQueue` -/
  readyQueue : List UInt32
  runQueue : RunItem
  /-- the serials that were dispatched -/
  dispatched : List UInt32

namespace TCPServerProcessor
variable {ι : Type}

def isReadyForProcessing (s : TCPServerProcessor ι) : Bool := !s.m_waiting

/-- The part of `Pipeline::schedule` that concerns a processor: the finished run is removed,
and the next item is dispatched unless a run is in progress. -/
def schedule (s : TCPServerProcessor ι) : TCPServerProcessor ι :=
  let runQueue := if s.runQueue = .finished then .absent else s.runQueue
  match runQueue, s.readyQueue with
  | .absent, serial :: rest =>
    { s with readyQueue := rest, runQueue := .processing serial
             dispatched := s.dispatched ++ [serial] }
  | runQueue, _ => { s with runQueue := runQueue }

/-- `stalled` and `unstalled`, which do not ask for the connection. -/
def waitingOnClient (s : TCPServerProcessor ι) (waiting : Bool) : TCPServerProcessor ι :=
  { s with m_waiting := waiting }

inductive Event (ι : Type) where
  | newData (serial : UInt32)
  | schedule
  | process (frameData : Bytes)
  | queueFrame (i : ι)
  | connection (i : ι) (e : Connection.Event)
  | waitingOnClient

/-- A step of one connection, which may post signals. -/
def connectionStep [DecidableEq ι] (s : TCPServerProcessor ι) (i : ι) (e : Connection.Event) :
    Option (TCPServerProcessor ι) :=
  ((s.connection i).step e).map fun c =>
    { s with connection := Function.update s.connection i c
             signals := s.signals ++
               c.waitingOnClient.drop (s.connection i).waitingOnClient.length }

def step [DecidableEq ι] (s : TCPServerProcessor ι) : Event ι → Option (TCPServerProcessor ι)
  | .newData serial => some { s with readyQueue := s.readyQueue ++ [serial] }
  | .schedule => some s.schedule
  | .process frameData =>
    match s.runQueue with
    | .processing serial =>
      some { s with posted := fun i => s.posted i ++ [(serial, frameData)], runQueue := .finished }
    | .absent | .finished => none
  | .queueFrame i =>
    match s.posted i with
    | [] => none
    | b :: rest => (s.connectionStep i (.queueFrame b.1 b.2)).map fun s =>
        { s with posted := Function.update s.posted i rest }
  | .connection i e => s.connectionStep i e
  | .waitingOnClient =>
    match s.signals with
    | [] => none
    | waiting :: rest => some { s.waitingOnClient waiting with signals := rest }

def start (maxFrameQueue maxFramesInFlight : Nat) : TCPServerProcessor ι where
  m_waiting := false
  connection := fun _ => .started true maxFrameQueue maxFramesInFlight
  posted := fun _ => []
  signals := []
  readyQueue := []
  runQueue := .absent
  dispatched := []

/-- The clients stay connected and the settings are left alone; frames are queued where they
were posted. -/
def Valid (s : TCPServerProcessor ι) : Event ι → Prop
  | .connection i e => (s.connection i).Undisturbed e ∧ ∀ n d, e ≠ .queueFrame n d
  | .newData _ | .schedule | .process _ | .queueFrame _ | .waitingOnClient => True

/-- The frames a connection has yet to queue: those in `m_readyQueue`, the one in progress, and
those posted to it. -/
def pending (s : TCPServerProcessor ι) (i : ι) : Nat :=
  s.readyQueue.length + (s.posted i).length + match s.runQueue with
    | .processing _ => 1
    | .absent | .finished => 0

/-- The client has left no more frames without an ack than the queue and the window hold, and the
connection does not rest with its queue over the limit. -/
def HasRoom (s : TCPServerProcessor ι) (i : ι) : Prop :=
  s.pending i + (s.connection i).m_frameQueue.length +
      (s.connection i).m_frameNumbersInFlight.length ≤
    (s.connection i).m_maxFramesInQueue + (s.connection i).m_maxFramesInFlight ∧
  ((s.connection i).place = .eventLoop →
    (s.connection i).m_frameQueue.length ≤ (s.connection i).m_maxFramesInQueue)

/-- A frame comes only while all connections have room for it. -/
def Throttled (s : TCPServerProcessor ι) (e : Event ι) : Prop :=
  s.Valid e ∧ ∀ serial, e = .newData serial → ∀ i, s.HasRoom i

end TCPServerProcessor

namespace Connection

/-- How a lossless connection with some frames to come stays within its limit. It waits only when
its queue is over the limit, and then there are none. -/
structure Bounded (c : Connection) (pending : Nat) : Prop where
  total : pending + c.m_frameQueue.length + c.m_frameNumbersInFlight.length ≤
    c.m_maxFramesInQueue + c.m_maxFramesInFlight + 1
  queue : c.m_frameQueue.length ≤ c.m_maxFramesInQueue + 1
  place : match c.place with
    | .eventLoop => (0 < pending → c.m_frameQueue.length ≤ c.m_maxFramesInQueue) ∧
      (c.m_waiting = true → c.m_maxFramesInQueue < c.m_frameQueue.length)
    | .sendLoop _ => c.m_waiting = false
    | .dropTest => c.m_waiting = false ∧
      (c.m_frameNumbersInFlight.length ≥ c.m_maxFramesInFlight ∨ c.m_frameQueue = [])

section Bounds
variable {pending : Nat} {c c' : Connection}

theorem Bounded.atEventLoop (h : c.Bounded pending) (hp : c.place = .eventLoop) :
    (0 < pending → c.m_frameQueue.length ≤ c.m_maxFramesInQueue) ∧
      (c.m_waiting = true → c.m_maxFramesInQueue < c.m_frameQueue.length) := by
  have hplace := h.place
  rw [hp] at hplace
  exact hplace

/-- A connection that waits has queued all frames. -/
theorem Bounded.waiting (h : c.Bounded pending) (hw : c.m_waiting = true) : pending = 0 := by
  have hplace := h.place
  cases hp : c.place with
  | eventLoop =>
    rw [hp] at hplace
    have hover := hplace.2 hw
    by_contra hpos
    have hroom := hplace.1 (Nat.pos_of_ne_zero hpos)
    omega
  | sendLoop caller =>
    rw [hp, hw] at hplace
    cases hplace
  | dropTest =>
    rw [hp, hw] at hplace
    cases hplace.1

/-- Where `sendData` ends. -/
theorem Bounded.leave (h : c.Bounded pending) (hw : c.m_waiting = false)
    (hleave : c.m_frameNumbersInFlight.length ≥ c.m_maxFramesInFlight ∨ c.m_frameQueue = [])
    {caller : Caller}
    (hroom : caller = .eventLoop → 0 < pending → c.m_frameQueue.length ≤ c.m_maxFramesInQueue) :
    (c.sendReturns caller).Bounded pending := by
  cases caller with
  | eventLoop =>
    refine ⟨h.total, h.queue, hroom rfl, fun hwaiting => ?_⟩
    change c.m_waiting = true at hwaiting
    rw [hw] at hwaiting
    cases hwaiting
  | queueFrame => exact ⟨h.total, h.queue, hw, hleave⟩

theorem Bounded.loopTest (h : c.Bounded pending) (hw : c.m_waiting = false) {caller : Caller}
    (hroom : caller = .eventLoop → 0 < pending → c.m_frameQueue.length ≤ c.m_maxFramesInQueue) :
    (c.loopTest caller).Bounded pending := by
  unfold Connection.loopTest
  split
  case isTrue hleave => exact h.leave hw hleave hroom
  case isFalse => exact ⟨h.total, h.queue, hw⟩

theorem Bounded.write {caller : Caller} {bytesSent : Int} (h : c.Bounded pending)
    (hp : c.place = .sendLoop caller) (hat : c.AtPlace) (hpos : 1 ≤ bytesSent)
    (hs : c.write caller bytesSent = some c') : c'.Bounded pending := by
  unfold AtPlace at hat
  rw [hp] at hat
  obtain ⟨hroom, -, -⟩ := hat
  have hw := h.place
  rw [hp] at hw
  obtain ⟨htotal, hqueue, -⟩ := h
  obtain ⟨f, rest, hq, ⟨-, -, rfl⟩ | ⟨hfailed, -⟩ | ⟨-, rfl⟩⟩ := write_cases hs
  · -- there is room in the window still, so that the loop goes on
    rw [hq] at htotal hqueue
    unfold Connection.loopTest
    rw [if_neg]
    · exact ⟨htotal, hqueue, hw⟩
    · rintro (hfull | hnil)
      · exact absurd hroom (not_lt.mpr hfull)
      · cases hnil
  · omega
  · rw [hq, List.length_cons] at htotal hqueue
    have hafter : (c.frameWritten f rest).Bounded pending := by
      refine ⟨?_, Nat.le_of_lt hqueue, ?_⟩
      · change pending + rest.length + (c.m_frameNumbersInFlight ++ [f.serial]).length ≤
          c.m_maxFramesInQueue + c.m_maxFramesInFlight + 1
        rw [List.length_append, List.length_singleton]
        omega
      · change match c.place with
          | .eventLoop => _
          | .sendLoop _ => _
          | .dropTest => _
        rw [hp]
        exact hw
    exact hafter.loopTest hw fun _ _ => Nat.le_of_succ_le_succ hqueue

theorem Bounded.sendData (h : c.Bounded pending) (hp : c.place = .eventLoop) :
    (c.sendData .eventLoop).Bounded pending := by
  have hself : c.sendReturns .eventLoop = c := by
    unfold sendReturns
    rw [← hp]
  unfold Connection.sendData
  split
  · rw [hself]
    exact h
  · split
    · rw [hself]
      exact h
    case isFalse hw =>
      exact h.loopTest (Bool.eq_false_iff.mpr hw) fun _ => (h.atEventLoop hp).1

theorem Bounded.queueFrame (h : c.Bounded (pending + 1)) (hc : c.socket = .connected)
    (hp : c.place = .eventLoop) (frameNumber : UInt32) (frameData : Bytes) :
    (c.queueFrame frameNumber frameData).Bounded pending := by
  have hroom := (h.atEventLoop hp).1 (Nat.succ_pos pending)
  have hw : c.m_waiting = false := by
    by_contra hwaiting
    cases h.waiting (Bool.eq_true_of_not_eq_false hwaiting)
  have hlength : (c.m_frameQueue ++ [Frame.mk frameNumber frameData 0]).length =
      c.m_frameQueue.length + 1 := List.length_append
  have htotal : pending + (c.m_frameQueue ++ [Frame.mk frameNumber frameData 0]).length +
      c.m_frameNumbersInFlight.length ≤ c.m_maxFramesInQueue + c.m_maxFramesInFlight + 1 := by
    have := h.total
    omega
  have hqueue : (c.m_frameQueue ++ [Frame.mk frameNumber frameData 0]).length ≤
      c.m_maxFramesInQueue + 1 := by omega
  rcases c.queueFrame_cases frameNumber frameData with ⟨hgone, -⟩ | ⟨hwindow, he⟩ | ⟨hfull, he⟩
  · exact absurd hc hgone
  · have hsends : (c.append frameNumber frameData).sendData .queueFrame =
        { c.append frameNumber frameData with place := .sendLoop .queueFrame } := by
      unfold Connection.sendData Connection.loopTest
      rw [if_neg (by simp [append, hc]), if_neg (by simp [append, hw]), if_neg]
      rintro (hfull | hnil)
      · exact absurd hwindow (not_lt.mpr hfull)
      · simp [append] at hnil
    rw [he, hsends]
    exact ⟨htotal, hqueue, hw⟩
  · rw [he]
    exact ⟨htotal, hqueue, hw, .inl hfull⟩

/-- With the window full, only the last frame that is to come takes the queue over its limit. -/
theorem Bounded.finishQueueFrame (h : c.Bounded pending) (hl : c.m_lossless = true)
    (hp : c.place = .dropTest) : c.finishQueueFrame.Bounded pending := by
  have hplace := h.place
  rw [hp] at hplace
  obtain ⟨hw, hleft⟩ := hplace
  obtain ⟨htotal, hqueue, -⟩ := h
  rcases c.finishQueueFrame_cases with ⟨hfits, he⟩ | ⟨hover, -, -, he⟩ | ⟨-, hlossy, -⟩
  · rw [he]
    have hroom : c.m_frameQueue.length ≤ c.m_maxFramesInQueue := by
      by_contra hover
      have hwaiting := (hfits (Nat.lt_of_not_le hover)).2
      rw [hw] at hwaiting
      cases hwaiting
    refine ⟨htotal, hqueue, fun _ => hroom, fun hwaiting => ?_⟩
    change c.m_waiting = true at hwaiting
    rw [hw] at hwaiting
    cases hwaiting
  · rw [he]
    have hfull : c.m_frameNumbersInFlight.length ≥ c.m_maxFramesInFlight := by
      refine hleft.resolve_right fun hnil => ?_
      rw [hnil] at hover
      exact absurd hover (Nat.not_lt_zero _)
    refine ⟨htotal, hqueue, fun hpos => ?_, fun _ => hover⟩
    omega
  · rw [hl] at hlossy
    cases hlossy

theorem Bounded.ackFrame (h : c.Bounded pending) (hp : c.place = .eventLoop) (serial : UInt32) :
    (c.ackFrame serial).Bounded pending := by
  obtain ⟨-, hwaiting, hrest⟩ := ackFrame_spec c.toServerConnection serial
  obtain ⟨hroom, hover⟩ := h.atEventLoop hp
  obtain ⟨htotal, hqueue, -⟩ := h
  have hlength : (c.ackFrame serial).m_frameNumbersInFlight.length ≤
      c.m_frameNumbersInFlight.length := by
    change (c.toServerConnection.ackFrame serial).m_frameNumbersInFlight.length ≤ _
    rw [hrest]
    split
    · rw [List.length_tail]
      omega
    · exact Nat.le_refl _
  refine ⟨?_, hqueue, ?_⟩
  · change pending + c.m_frameQueue.length + _ ≤ c.m_maxFramesInQueue + c.m_maxFramesInFlight + 1
    omega
  · change match c.place with
      | .eventLoop => _
      | .sendLoop _ => _
      | .dropTest => _
    rw [hp]
    exact ⟨hroom, fun hw => hover (hwaiting hw)⟩

/-- One more frame is to come. -/
theorem Bounded.newData (h : c.Bounded pending)
    (htotal : pending + c.m_frameQueue.length + c.m_frameNumbersInFlight.length ≤
      c.m_maxFramesInQueue + c.m_maxFramesInFlight)
    (hroom : c.place = .eventLoop → c.m_frameQueue.length ≤ c.m_maxFramesInQueue) :
    c.Bounded (pending + 1) := by
  obtain ⟨-, hqueue, hplace⟩ := h
  refine ⟨by omega, hqueue, ?_⟩
  cases hp : c.place with
  | eventLoop =>
    rw [hp] at hplace
    exact ⟨fun _ => hroom hp, hplace.2⟩
  | sendLoop caller =>
    rw [hp] at hplace
    exact hplace
  | dropTest =>
    rw [hp] at hplace
    exact hplace

end Bounds

end Connection

namespace TCPServerProcessor
variable {ι : Type} {maxFrameQueue maxFramesInFlight : Nat} {s s' : TCPServerProcessor ι}

def Bounded (maxFrameQueue maxFramesInFlight : Nat) (s : TCPServerProcessor ι) : Prop :=
  ∀ i, Reaches Connection.step Connection.Undisturbed
      (.started true maxFrameQueue maxFramesInFlight) (s.connection i) ∧
    (s.connection i).Bounded (s.pending i)

theorem start_bounded :
    (start maxFrameQueue maxFramesInFlight : TCPServerProcessor ι).Bounded maxFrameQueue
      maxFramesInFlight := fun _ =>
  ⟨.start, Nat.zero_le _, Nat.zero_le _, fun hpos => absurd hpos (Nat.lt_irrefl 0), nofun⟩

/-- `schedule` moves a frame on, and dispatches none when there is none. -/
theorem schedule_spec (s : TCPServerProcessor ι) :
    s.schedule.connection = s.connection ∧ (∀ i, s.schedule.pending i = s.pending i) ∧
      (s.readyQueue = [] → s.schedule.dispatched = s.dispatched) := by
  unfold schedule pending
  cases hr : s.runQueue with
  | processing serial => simp
  | absent =>
    cases hq : s.readyQueue with
    | nil => simp
    | cons serial rest =>
      simp only [reduceCtorEq, if_false, List.length_cons, false_implies, and_true, true_and]
      intro i
      omega
  | finished =>
    cases hq : s.readyQueue with
    | nil => simp
    | cons serial rest =>
      simp only [if_true, List.length_cons, false_implies, and_true, true_and, reduceCtorEq]
      intro i
      omega

variable [DecidableEq ι]

theorem connectionStep_spec {i : ι} {e : Connection.Event} (h : s.connectionStep i e = some s') :
    ∃ c, (s.connection i).step e = some c ∧ s'.connection = Function.update s.connection i c ∧
      s'.posted = s.posted ∧ s'.runQueue = s.runQueue ∧ s'.readyQueue = s.readyQueue ∧
      s'.dispatched = s.dispatched := by
  obtain ⟨c, hc, rfl⟩ := Option.map_eq_some_iff.mp h
  exact ⟨c, hc, rfl, rfl, rfl, rfl, rfl⟩

/-- A step of one connection keeps the bounds when it keeps that connection's. -/
theorem Bounded.update (h : s.Bounded maxFrameQueue maxFramesInFlight) {i : ι} {c : Connection}
    {e : Connection.Event} (hu : (s.connection i).Undisturbed e)
    (hc : (s.connection i).step e = some c)
    (hconn : s'.connection = Function.update s.connection i c)
    (hother : ∀ j, j ≠ i → s'.pending j = s.pending j) (hb : c.Bounded (s'.pending i)) :
    s'.Bounded maxFrameQueue maxFramesInFlight := by
  intro j
  rw [hconn]
  by_cases hj : j = i
  · subst hj
    rw [Function.update_self]
    exact ⟨.step e (h j).1 hu hc, hb⟩
  · rw [Function.update_of_ne hj, hother j hj]
    exact h j

theorem Bounded.connection (h : s.Bounded maxFrameQueue maxFramesInFlight) {i : ι}
    {e : Connection.Event} (hu : (s.connection i).Undisturbed e) (hne : ∀ n d, e ≠ .queueFrame n d)
    (hs : s.connectionStep i e = some s') : s'.Bounded maxFrameQueue maxFramesInFlight := by
  obtain ⟨c, hc, hconn, hposted, hrun, hready, -⟩ := connectionStep_spec hs
  have hpending : ∀ j, s'.pending j = s.pending j := by
    intro j
    unfold pending
    rw [hposted, hrun, hready]
  obtain ⟨hreach, hb⟩ := h i
  obtain ⟨hd, hat⟩ := Connection.delivers hreach
  refine h.update hu hc hconn (fun j _ => hpending j) ?_
  rw [hpending i]
  cases e with
  | sendData =>
    simp only [Connection.step, Option.ite_none_right_eq_some, Option.some.injEq] at hc
    obtain ⟨hp, rfl⟩ := hc
    exact hb.sendData hp
  | write bytesSent =>
    cases hp : (s.connection i).place with
    | sendLoop caller =>
      simp only [Connection.step, hp] at hc
      exact hb.write hp hat hu hc
    | eventLoop => simp [Connection.step, hp] at hc
    | dropTest => simp [Connection.step, hp] at hc
  | finishQueueFrame =>
    simp only [Connection.step, Option.ite_none_right_eq_some, Option.some.injEq] at hc
    obtain ⟨hp, rfl⟩ := hc
    exact hb.finishQueueFrame hd.settings.1 hp
  | ackFrame serial =>
    simp only [Connection.step, Option.ite_none_right_eq_some, Option.some.injEq] at hc
    obtain ⟨hp, rfl⟩ := hc
    exact hb.ackFrame hp serial
  | queueFrame n d => exact absurd rfl (hne n d)
  | start | closing | disconnected | setMaxFrameQueue | setMaxFramesInFlight | setLossless =>
    exact hu.elim

theorem Bounded.queueFrame (h : s.Bounded maxFrameQueue maxFramesInFlight) {i : ι}
    (hs : s.step (.queueFrame i) = some s') : s'.Bounded maxFrameQueue maxFramesInFlight := by
  simp only [step] at hs
  cases hq : s.posted i with
  | nil => simp [hq] at hs
  | cons b rest =>
    simp only [hq] at hs
    obtain ⟨t, ht, rfl⟩ := Option.map_eq_some_iff.mp hs
    obtain ⟨c, hc, hconn, hposted, hrun, hready, -⟩ := connectionStep_spec ht
    obtain ⟨hreach, hb⟩ := h i
    obtain ⟨hd, -⟩ := Connection.delivers hreach
    have hu : (s.connection i).Undisturbed (.queueFrame b.1 b.2) := trivial
    have hpending : s.pending i =
        pending { t with posted := Function.update t.posted i rest } i + 1 := by
      unfold pending
      dsimp only
      rw [Function.update_self, hq, hrun, hready, List.length_cons]
      omega
    refine h.update hu hc hconn (fun j hj => ?_) ?_
    · unfold pending
      dsimp only
      rw [Function.update_of_ne hj, hposted, hrun, hready]
    · simp only [Connection.step, Option.ite_none_right_eq_some, Option.some.injEq] at hc
      obtain ⟨hp, rfl⟩ := hc
      rw [hpending] at hb
      exact hb.queueFrame hd.connected hp b.1 b.2

theorem Bounded.step (h : s.Bounded maxFrameQueue maxFramesInFlight) {e : Event ι}
    (ht : s.Throttled e) (hs : s.step e = some s') :
    s'.Bounded maxFrameQueue maxFramesInFlight := by
  obtain ⟨hvalid, hroom⟩ := ht
  cases e with
  | newData serial =>
    cases hs
    intro i
    obtain ⟨htotal, hrests⟩ := hroom serial rfl i
    have hpending : pending { s with readyQueue := s.readyQueue ++ [serial] } i =
        s.pending i + 1 := by
      unfold pending
      dsimp only
      rw [List.length_append, List.length_singleton]
      omega
    rw [hpending]
    exact ⟨(h i).1, (h i).2.newData htotal hrests⟩
  | schedule =>
    cases hs
    obtain ⟨hconn, hpending, -⟩ := s.schedule_spec
    intro i
    rw [hconn, hpending i]
    exact h i
  | process frameData =>
    simp only [TCPServerProcessor.step] at hs
    cases hr : s.runQueue with
    | processing serial =>
      simp only [hr, Option.some.injEq] at hs
      subst hs
      intro i
      have hpending : pending { s with
          posted := fun i => s.posted i ++ [(serial, frameData)], runQueue := .finished } i =
            s.pending i := by
        unfold pending
        rw [hr]
        simp [Nat.add_assoc]
      rw [hpending]
      exact h i
    | absent => simp [hr] at hs
    | finished => simp [hr] at hs
  | queueFrame i => exact h.queueFrame hs
  | connection i e => exact h.connection hvalid.1 hvalid.2 hs
  | waitingOnClient =>
    simp only [TCPServerProcessor.step] at hs
    cases hq : s.signals with
    | nil => simp [hq] at hs
    | cons waiting rest =>
      simp only [hq, Option.some.injEq] at hs
      subst hs
      exact h

/-- Only `schedule` dispatches a frame. -/
theorem dispatched_of_step {e : Event ι} (hs : s.step e = some s') :
    s'.dispatched = s.dispatched ∨ s.readyQueue ≠ [] := by
  cases e with
  | schedule =>
    cases hs
    by_cases hready : s.readyQueue = []
    · exact .inl (s.schedule_spec.2.2 hready)
    · exact .inr hready
  | newData serial =>
    cases hs
    exact .inl rfl
  | process frameData =>
    simp only [step] at hs
    split at hs
    · cases hs
      exact .inl rfl
    · cases hs
    · cases hs
  | queueFrame i =>
    simp only [step] at hs
    split at hs
    · cases hs
    · obtain ⟨t, ht, rfl⟩ := Option.map_eq_some_iff.mp hs
      obtain ⟨-, -, -, -, -, -, hdispatched⟩ := connectionStep_spec ht
      exact .inl hdispatched
  | connection i e =>
    obtain ⟨-, -, -, -, -, -, hdispatched⟩ := connectionStep_spec hs
    exact .inl hdispatched
  | waitingOnClient =>
    simp only [step] at hs
    split at hs
    · cases hs
    · cases hs
      exact .inl rfl

/-- When frames come only while the clients have room for them, no queue is ever over its limit by
more than one frame, and nothing is dispatched while a connection is stalled. -/
theorem throttling (maxFrameQueue maxFramesInFlight : Nat) (s : TCPServerProcessor ι)
    (h : Reaches step Throttled (start maxFrameQueue maxFramesInFlight) s) :
    (∀ i, (s.connection i).m_frameQueue.length ≤ maxFrameQueue + 1) ∧
    ∀ e s', s.step e = some s' → (∃ i, (s.connection i).m_waiting = true) →
      s'.dispatched = s.dispatched := by
  have hi : s.Bounded maxFrameQueue maxFramesInFlight :=
    h.invariant start_bounded fun _ _ _ hi ht hs => hi.step ht hs
  constructor
  · intro i
    obtain ⟨hreach, hb⟩ := hi i
    obtain ⟨-, hmax, -⟩ := (Connection.delivers hreach).1.settings
    rw [← hmax]
    exact hb.queue
  · rintro e s' hs ⟨i, hw⟩
    refine (dispatched_of_step hs).resolve_right fun hready => ?_
    have hnone := (hi i).2.waiting hw
    have hpos := List.length_pos_of_ne_nil hready
    unfold pending at hnone
    omega

open Connection (intFrame)

omit [DecidableEq ι] in
theorem throttled_newData_iff (s : TCPServerProcessor ι) (serial : UInt32) :
    s.Throttled (.newData serial) ↔ ∀ i, s.HasRoom i :=
  ⟨fun h => h.2 serial rfl, fun h => ⟨trivial, fun _ _ => h⟩⟩

instance (s : TCPServerProcessor ι) (i : ι) : Decidable (s.HasRoom i) :=
  inferInstanceAs (Decidable (_ ∧ _))

instance [Fintype ι] (s : TCPServerProcessor ι) (e : Event ι) : Decidable (s.Throttled e) :=
  match e with
  | .newData serial => decidable_of_iff _ (s.throttled_newData_iff serial).symm
  | .schedule | .process _ | .queueFrame _ | .waitingOnClient => .isTrue ⟨trivial, nofun⟩
  | .connection _ e =>
    match e with
    | .sendData | .finishQueueFrame | .ackFrame _ => .isTrue ⟨⟨trivial, nofun⟩, nofun⟩
    | .write bytesSent =>
      if hpos : 1 ≤ bytesSent then .isTrue ⟨⟨hpos, nofun⟩, nofun⟩ else .isFalse fun h => hpos h.1.1
    | .queueFrame n d => .isFalse fun h => h.1.2 n d rfl
    | .start | .closing | .disconnected | .setMaxFrameQueue _ | .setMaxFramesInFlight _
    | .setLossless _ => .isFalse fun h => h.1.1

def handled (serial : UInt32) (sends : List Connection.Event) : List (Event Unit) :=
  List.flatten [[.newData serial, .schedule, .process (intFrame serial), .queueFrame ()],
    sends.map (.connection ()), [.connection () .finishQueueFrame]]

/-- With the first frame in flight and the second in the queue the third one stalls the client. It
acknowledges the first, and when the second was sent there is room for a fourth. -/
theorem throttling_recovers : ∃ s t : TCPServerProcessor Unit,
    s.dispatched = [1, 2, 3] ∧ (s.connection ()).m_frameQueue.length ≤ 1 + 1 ∧
    (∀ e s', s.step e = some s' → s'.dispatched = [1, 2, 3]) ∧
    t.dispatched = [1, 2, 3, 4] ∧ (t.connection ()).m_frameQueue.length ≤ 1 + 1 := by
  have hend : (run (guarded step Throttled) (start 1 1)
      (handled 1 [.write 24] ++ handled 2 [] ++ handled 3 [])).bind (fun s =>
        (run (guarded step Throttled) s ([.connection () (.ackFrame 1), .connection () .sendData,
          .connection () (.write 24)] ++ handled 4 [])).map fun t =>
            (s.dispatched, (s.connection ()).m_waiting, t.dispatched)) =
      some ([1, 2, 3], true, [1, 2, 3, 4]) := by decide +kernel
  obtain ⟨s, hs, hend⟩ := Option.bind_eq_some_iff.mp hend
  obtain ⟨t, ht, hview⟩ := Option.map_eq_some_iff.mp hend
  obtain ⟨hdispatched, hwaiting, hall⟩ := by simpa only [Prod.mk.injEq] using hview
  have hstalled : Reaches step Throttled (start 1 1) s := .of_guarded_run hs
  obtain ⟨hqueue, hnone⟩ := throttling 1 1 s hstalled
  refine ⟨s, t, hdispatched, hqueue (), fun e s' hs' => ?_, hall, ?_⟩
  · rw [hnone e s' hs' ⟨(), hwaiting⟩, hdispatched]
  · exact (throttling 1 1 t (hstalled.trans (.of_guarded_run ht))).1 ()

/-- The third frame stalls the only client; the fourth one is dispatched all the same. -/
theorem throttling_ignored :
    (∃ s : TCPServerProcessor Unit, Reaches step Valid (start 1 1) s ∧
      (s.connection ()).m_waiting = true ∧ s.isReadyForProcessing = false ∧
      s.schedule.dispatched = s.dispatched ++ [4]) ∧
    ∃ s : TCPServerProcessor Unit, Reaches step Valid (start 1 1) s ∧
      (s.connection ()).place = .eventLoop ∧ (s.connection ()).m_frameQueue.length = 1 + 2 := by
  have hstalled : ∀ s : TCPServerProcessor Unit, ∀ e ∈ ([.newData 1, .schedule,
      .process (intFrame 1), .queueFrame (), .connection () (.write 24),
      .connection () .finishQueueFrame, .newData 2, .schedule, .process (intFrame 2),
      .queueFrame (), .connection () .finishQueueFrame, .newData 3, .schedule,
      .process (intFrame 3), .queueFrame (), .connection () .finishQueueFrame, .waitingOnClient,
      .newData 4] : List (Event Unit)), s.Valid e := by
    intro s
    simp [Valid, Connection.Undisturbed]
  have hafter : ∀ s : TCPServerProcessor Unit, ∀ e ∈ ([.schedule, .process (intFrame 4),
      .queueFrame (), .connection () .finishQueueFrame] : List (Event Unit)), s.Valid e := by
    intro s
    simp [Valid, Connection.Undisturbed]
  have hreach : Reaches step Valid (start 1 1 : TCPServerProcessor Unit) _ :=
    Reaches.of_run (hstalled · · ·) rfl
  refine ⟨⟨_, hreach, ?_, ?_, ?_⟩, ⟨_, hreach.trans (Reaches.of_run (hafter · · ·) rfl), ?_, ?_⟩⟩
  all_goals decide

end TCPServerProcessor

end ParleVision.Tcp
