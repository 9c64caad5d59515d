import ParleVision.Tcp.Recovery

namespace ParleVision.Tcp
open Lib

/-- The slots of a ServerConnection that are called by posted events. -/
inductive Slot where
  | queueFrame (frameNumber : UInt32) (frameData : Bytes)
  | sendData
  | setMaxFrameQueue (max : Nat)
  | setMaxFramesInFlight (max : Nat)
  | setLossless (lossless : Bool)
  deriving DecidableEq, Repr

def Slot.event : Slot → Connection.Event
  | .queueFrame frameNumber frameData => .queueFrame frameNumber frameData
  | .sendData => .sendData
  | .setMaxFrameQueue max => .setMaxFrameQueue max
  | .setMaxFramesInFlight max => .setMaxFramesInFlight max
  | .setLossless lossless => .setLossless lossless

/-- The call gets to `sendData`, at once or behind the frame it queues. -/
def Slot.Sends : Slot → Prop
  | .queueFrame _ _ | .sendData => True
  | .setMaxFrameQueue _ | .setMaxFramesInFlight _ | .setLossless _ => False

/-- A ServerConnection with the calls posted to its thread. -/
structure ConnectionThread where
  connection : Connection
  posted : List Slot

namespace ConnectionThread

def started (lossless : Bool) (maxFrameQueue maxFramesInFlight : Nat) : ConnectionThread where
  connection := .started lossless maxFrameQueue maxFramesInFlight
  posted := []

inductive Event where
  /-- a signal of the server or of the processor -/
  | post (slot : Slot)
  /-- the event loop takes the next call -/
  | slot
  | write (bytesSent : Int)
  | finishQueueFrame
  /-- `readyRead` is called by the socket, and calls `ackFrame` itself -/
  | ackFrame (serial : UInt32)
  | start
  | closing
  | disconnected
  deriving DecidableEq, Repr

/-- `queueFrame` ends with `emit scheduleSend()`, the only signal `sendData` is connected to. -/
def step (s : ConnectionThread) : Event → Option ConnectionThread
  | .post slot => if slot = .sendData then none else some { s with posted := s.posted ++ [slot] }
  | .slot =>
    match s.posted with
    | [] => none
    | slot :: rest => (s.connection.step slot.event).map fun c => ⟨c, rest⟩
  | .write bytesSent => (s.connection.step (.write bytesSent)).map fun c => ⟨c, s.posted⟩
  | .finishQueueFrame =>
    (s.connection.step .finishQueueFrame).map fun c => ⟨c, s.posted ++ [.sendData]⟩
  | .ackFrame serial => (s.connection.step (.ackFrame serial)).map fun c => ⟨c, s.posted⟩
  | .start => (s.connection.step .start).map fun c => ⟨c, s.posted⟩
  | .closing => (s.connection.step .closing).map fun c => ⟨c, s.posted⟩
  | .disconnected => (s.connection.step .disconnected).map fun c => ⟨c, s.posted⟩

/-- Nobody is at work and nothing is posted. -/
def Idle (s : ConnectionThread) : Prop := s.connection.place = .eventLoop ∧ s.posted = []

/-- The client is connected and the socket accepts what is written. -/
def Successful : Event → Prop
  | .post _ | .slot | .finishQueueFrame | .ackFrame _ => True
  | .write bytesSent => bytesSent ≠ -1
  | .start | .closing | .disconnected => False

end ConnectionThread

namespace Connection

/-- Nobody waits, and there are frames to send and room for them in the window. -/
def Open (c : Connection) : Prop :=
  c.m_waiting = false ∧ c.m_frameQueue ≠ [] ∧
    c.m_frameNumbersInFlight.length < c.m_maxFramesInFlight

def inFlightBehind (c : Connection) (serial : UInt32) : Nat :=
  c.m_frameNumbersInFlight.length - if c.m_frameNumbersInFlight.head? = some serial then 1 else 0

/-- The step gets to a connection that can send. -/
def Opens (c : Connection) : Event → Prop
  | .ackFrame serial => (c.m_waiting = true → c.m_lossless = true ∧ c.m_frameNumbersInFlight ≠ []) ∧
      c.m_frameQueue ≠ [] ∧ c.inFlightBehind serial < c.m_maxFramesInFlight
  | .setMaxFramesInFlight max => c.m_waiting = false ∧ c.m_frameQueue ≠ [] ∧
      c.m_frameNumbersInFlight.length < max
  | .start | .closing | .disconnected | .queueFrame _ _ | .sendData | .write _ | .finishQueueFrame
  | .setMaxFrameQueue _ | .setLossless _ => False

theorem ackFrame_open (c : Connection) (serial : UInt32) :
    (c.ackFrame serial).Open ↔ c.Opens (.ackFrame serial) := by
  have hwaiting : (c.ackFrame serial).m_waiting = false ↔
      (c.m_waiting = true → c.m_lossless = true ∧ c.m_frameNumbersInFlight ≠ []) := by
    rw [ackFrame_waiting]
    cases c.m_waiting <;> cases c.m_lossless <;> cases c.m_frameNumbersInFlight <;> simp
  have hlength : (c.ackFrame serial).m_frameNumbersInFlight.length = c.inFlightBehind serial := by
    change (c.toServerConnection.ackFrame serial).m_frameNumbersInFlight.length = _
    rw [(ackFrame_spec _ serial).2.2, inFlightBehind]
    split
    · rw [List.length_tail]
    · rfl
  unfold Open
  rw [hwaiting, hlength]
  rfl

section
variable {c c' : Connection} {e : Event}

/-- The loop of `sendData` is left when there is nothing to do. -/
theorem loopTest_done {caller : Caller} (hp : (c.loopTest caller).place = .eventLoop) :
    ¬ c.Open := by
  rintro ⟨-, hne, hroom⟩
  unfold loopTest at hp
  rw [if_neg (not_or.mpr ⟨not_le.mpr hroom, hne⟩)] at hp
  cases hp

theorem sendData_done (hconnected : c.socket = .connected) {caller : Caller}
    (hp : (c.sendData caller).place = .eventLoop) : ¬ (c.sendData caller).Open := by
  unfold sendData at hp ⊢
  rw [if_neg (by simp [hconnected])] at hp ⊢
  split
  · rename_i hw
    rintro ⟨hgoing, -⟩
    have hgoing : c.m_waiting = false := by
      cases caller with
      | eventLoop => exact hgoing
      | queueFrame => exact hgoing
    rw [hw] at hgoing
    cases hgoing
  · rename_i hw
    rw [if_neg hw] at hp
    rw [loopTest_reads (f := Open) (fun _ _ => rfl)]
    exact loopTest_done hp

theorem write_done {caller : Caller} {bytesSent : Int} (hsome : bytesSent ≠ -1)
    (hw : c.write caller bytesSent = some c') (hp : c'.place = .eventLoop) : ¬ c'.Open := by
  obtain ⟨f, rest, -, ⟨-, -, rfl⟩ | ⟨hfail, -⟩ | ⟨-, rfl⟩⟩ := write_cases hw
  · rw [loopTest_reads (f := Open) (fun _ _ => rfl)]
    exact loopTest_done hp
  · exact absurd hfail hsome
  · rw [loopTest_reads (f := Open) (fun _ _ => rfl)]
    exact loopTest_done hp

def Roomy (c : Connection) : Prop :=
  ∀ caller, c.place = .sendLoop caller → c.m_frameNumbersInFlight.length < c.m_maxFramesInFlight

def InWindow (c : Connection) : Prop := c.m_frameNumbersInFlight.length ≤ c.m_maxFramesInFlight

theorem sendReturns_roomy (caller : Caller) : (c.sendReturns caller).Roomy := by
  cases caller with
  | eventLoop => exact nofun
  | queueFrame => exact nofun

theorem loopTest_roomy (caller : Caller) : (c.loopTest caller).Roomy := by
  unfold loopTest
  split
  · exact sendReturns_roomy caller
  · rename_i hstay
    exact fun _ _ => not_le.mp (not_or.mp hstay).1

theorem sendData_roomy (caller : Caller) : (c.sendData caller).Roomy := by
  unfold sendData
  split
  · exact sendReturns_roomy caller
  · split
    · exact sendReturns_roomy caller
    · exact loopTest_roomy caller

theorem write_window {caller : Caller} (hp : c.place = .sendLoop caller) (hroomy : c.Roomy)
    {bytesSent : Int} (hw : c.write caller bytesSent = some c') : c'.Roomy ∧ c'.InWindow := by
  have hroom := hroomy caller hp
  have hin : c.InWindow := hroom.le
  obtain ⟨f, rest, -, ⟨-, -, rfl⟩ | ⟨-, rfl⟩ | ⟨-, rfl⟩⟩ := write_cases hw
  · refine ⟨loopTest_roomy caller, ?_⟩
    rw [loopTest_reads (f := InWindow) (fun _ _ => rfl)]
    exact hin
  · refine ⟨sendReturns_roomy caller, ?_⟩
    rw [sendReturns_reads (f := InWindow) (fun _ _ => rfl)]
    exact hin
  · refine ⟨loopTest_roomy caller, ?_⟩
    rw [loopTest_reads (f := InWindow) (fun _ _ => rfl)]
    change (c.m_frameNumbersInFlight ++ [f.serial]).length ≤ c.m_maxFramesInFlight
    rw [List.length_append]
    exact hroom

theorem queueFrame_window (hp : c.place = .eventLoop) (frameNumber : UInt32) (frameData : Bytes) :
    (c.queueFrame frameNumber frameData).Roomy ∧
      ((c.queueFrame frameNumber frameData).InWindow ↔ c.InWindow) := by
  rcases c.queueFrame_cases frameNumber frameData with ⟨-, he⟩ | ⟨-, he⟩ | ⟨-, he⟩
  · rw [he]
    exact ⟨fun _ hplace => absurd (hp.symm.trans hplace) nofun, Iff.rfl⟩
  · rw [he]
    refine ⟨sendData_roomy _, ?_⟩
    rw [sendData_reads (f := InWindow) (fun _ _ => rfl)]
    exact Iff.rfl
  · rw [he]
    exact ⟨nofun, Iff.rfl⟩

theorem finishQueueFrame_inWindow : c.finishQueueFrame.InWindow ↔ c.InWindow := by
  rcases c.finishQueueFrame_cases with ⟨-, he⟩ | ⟨-, -, -, he⟩ | ⟨-, -, he⟩
  · rw [he]
    exact Iff.rfl
  · rw [he]
    exact Iff.rfl
  · rw [he]
    exact Iff.rfl

theorem ackFrame_inWindow (hin : c.InWindow) (serial : UInt32) : (c.ackFrame serial).InWindow := by
  change (c.toServerConnection.ackFrame serial).m_frameNumbersInFlight.length ≤ _
  rw [(ackFrame_spec _ serial).2.2]
  split
  · rw [List.length_tail]
    exact (Nat.sub_le _ _).trans hin
  · exact hin

theorem roomy_eventLoop (hp : c.place = .eventLoop) : c.Roomy :=
  fun _ hplace => absurd (hp.symm.trans hplace) nofun

/-- Only a lower limit gets more in flight than is allowed. -/
theorem step_window (hroomy : c.Roomy) (hs : c.step e = some c') :
    c'.Roomy ∧ (c.InWindow → (c'.InWindow ↔
      ∀ max, e = .setMaxFramesInFlight max → c.m_frameNumbersInFlight.length ≤ max)) := by
  cases e with
  | start | closing | disconnected =>
    simp only [Connection.step, Option.ite_none_right_eq_some, Option.some.injEq] at hs
    obtain ⟨hp, rfl⟩ := hs
    exact ⟨roomy_eventLoop hp.1, fun hin => iff_of_true hin (by simp)⟩
  | setMaxFrameQueue | setLossless =>
    simp only [Connection.step, Option.ite_none_right_eq_some, Option.some.injEq] at hs
    obtain ⟨hp, rfl⟩ := hs
    exact ⟨roomy_eventLoop hp, fun hin => iff_of_true hin (by simp)⟩
  | setMaxFramesInFlight max =>
    simp only [Connection.step, Option.ite_none_right_eq_some, Option.some.injEq] at hs
    obtain ⟨hp, rfl⟩ := hs
    refine ⟨roomy_eventLoop hp, fun _ => ⟨fun hin max' hmax => ?_, fun h => h max rfl⟩⟩
    cases hmax
    exact hin
  | queueFrame frameNumber frameData =>
    simp only [Connection.step, Option.ite_none_right_eq_some, Option.some.injEq] at hs
    obtain ⟨hp, rfl⟩ := hs
    obtain ⟨hroom, hin⟩ := queueFrame_window hp frameNumber frameData
    exact ⟨hroom, fun h => iff_of_true (hin.mpr h) (by simp)⟩
  | sendData =>
    simp only [Connection.step, Option.ite_none_right_eq_some, Option.some.injEq] at hs
    obtain ⟨-, rfl⟩ := hs
    rw [sendData_reads (f := InWindow) (fun _ _ => rfl)]
    exact ⟨sendData_roomy _, fun h => iff_of_true h (by simp)⟩
  | write bytesSent =>
    cases hp : c.place with
    | sendLoop caller =>
      simp only [Connection.step, hp] at hs
      obtain ⟨hroom, hin⟩ := write_window hp hroomy hs
      exact ⟨hroom, fun _ => iff_of_true hin (by simp)⟩
    | eventLoop => simp [Connection.step, hp] at hs
    | dropTest => simp [Connection.step, hp] at hs
  | finishQueueFrame =>
    simp only [Connection.step, Option.ite_none_right_eq_some, Option.some.injEq] at hs
    obtain ⟨-, rfl⟩ := hs
    exact ⟨roomy_eventLoop c.finishQueueFrame_spec.2,
      fun h => iff_of_true (finishQueueFrame_inWindow.mpr h) (by simp)⟩
  | ackFrame serial =>
    simp only [Connection.step, Option.ite_none_right_eq_some, Option.some.injEq] at hs
    obtain ⟨hp, rfl⟩ := hs
    exact ⟨roomy_eventLoop hp, fun h => iff_of_true (ackFrame_inWindow h serial) (by simp)⟩

/-- `queueFrame` goes on to its end. -/
theorem queueFrame_busy (hconnected : c.socket = .connected) (frameNumber : UInt32)
    (frameData : Bytes) : (c.queueFrame frameNumber frameData).place ≠ .eventLoop := by
  rcases c.queueFrame_cases frameNumber frameData with ⟨hgone, -⟩ | ⟨-, he⟩ | ⟨-, he⟩
  · exact absurd hconnected hgone
  · rw [he]
    unfold sendData loopTest
    split
    · exact nofun
    · split
      · exact nofun
      · split
        · exact nofun
        · exact nofun
  · rw [he]
    exact nofun

end

end Connection

namespace ConnectionThread
open Connection

/-- Where the connection could send, a posted call will. -/
def Served (s : ConnectionThread) : Prop :=
  s.connection.place = .eventLoop → s.connection.Open → ∃ slot ∈ s.posted, slot.Sends

/-- An ack, or a new limit, opens the window when no call is posted that would send. -/
def Strands (s : ConnectionThread) : Event → Prop
  | .ackFrame serial =>
    s.connection.Opens (.ackFrame serial) ∧ ∀ slot ∈ s.posted, ¬ slot.Sends
  | .slot => ∃ slot rest, s.posted = slot :: rest ∧ s.connection.Opens slot.event ∧
      ∀ slot ∈ rest, ¬ slot.Sends
  | .post _ | .write _ | .finishQueueFrame | .start | .closing | .disconnected => False

instance (slot : Slot) : Decidable slot.Sends :=
  match slot with
  | .queueFrame _ _ | .sendData => .isTrue trivial
  | .setMaxFrameQueue _ | .setMaxFramesInFlight _ | .setLossless _ => .isFalse id

instance (c : Connection) (e : Connection.Event) : Decidable (c.Opens e) :=
  match e with
  | .ackFrame serial => inferInstanceAs (Decidable ((c.m_waiting = true →
      c.m_lossless = true ∧ c.m_frameNumbersInFlight ≠ []) ∧ c.m_frameQueue ≠ [] ∧
      c.inFlightBehind serial < c.m_maxFramesInFlight))
  | .setMaxFramesInFlight max => inferInstanceAs (Decidable (c.m_waiting = false ∧
      c.m_frameQueue ≠ [] ∧ c.m_frameNumbersInFlight.length < max))
  | .start | .closing | .disconnected | .queueFrame _ _ | .sendData | .write _ | .finishQueueFrame
  | .setMaxFrameQueue _ | .setLossless _ => .isFalse id

instance (s : ConnectionThread) (e : Event) : Decidable (s.Strands e) :=
  match e with
  | .ackFrame serial => inferInstanceAs (Decidable (s.connection.Opens (.ackFrame serial) ∧
      ∀ slot ∈ s.posted, ¬ slot.Sends))
  | .slot =>
    match h : s.posted with
    | [] => .isFalse fun hs => by
        obtain ⟨slot, rest, hposted, -⟩ := hs
        cases h.symm.trans hposted
    | slot :: rest => decidable_of_iff
        (s.connection.Opens slot.event ∧ ∀ slot ∈ rest, ¬ slot.Sends) (by
          rw [Strands, h]
          simp)
  | .post _ | .write _ | .finishQueueFrame | .start | .closing | .disconnected => .isFalse id

def Lowers (s : ConnectionThread) (e : Event) : Prop :=
  e = .slot ∧ ∃ max rest, s.posted = .setMaxFramesInFlight max :: rest ∧
    max < s.connection.m_frameNumbersInFlight.length

section
variable {s s' : ConnectionThread}

theorem served_of_not_open (h : s.connection.place = .eventLoop → ¬ s.connection.Open) : s.Served :=
  fun hp hopen => absurd hopen (h hp)

theorem served_of_posted {slot : Slot} (hmem : slot ∈ s.posted) (hsends : slot.Sends) : s.Served :=
  fun _ _ => ⟨slot, hmem, hsends⟩

theorem Served.rest {c : Connection} {slot : Slot} {rest : List Slot}
    (h : Served ⟨c, slot :: rest⟩) (hslot : ¬ slot.Sends) : Served ⟨c, rest⟩ := by
  intro hp hopen
  obtain ⟨other, hmem, hsends⟩ := h hp hopen
  rcases List.mem_cons.mp hmem with rfl | hmem
  · exact absurd hsends hslot
  · exact ⟨other, hmem, hsends⟩

theorem served_iff (hp : s.connection.place = .eventLoop) :
    s.Served ↔ ¬ (s.connection.Open ∧ ∀ slot ∈ s.posted, ¬ slot.Sends) := by
  constructor
  · rintro hserved ⟨hopen, hnone⟩
    obtain ⟨slot, hmem, hsends⟩ := hserved hp hopen
    exact hnone slot hmem hsends
  · intro hbad _ hopen
    by_contra hnone
    exact hbad ⟨hopen, fun slot hmem hsends => hnone ⟨slot, hmem, hsends⟩⟩

/-- The event loop takes a call. -/
theorem slot_served {c c' : Connection} {slot : Slot} {rest : List Slot}
    (hconnected : c.socket = .connected) (h : Served ⟨c, slot :: rest⟩)
    (hs : c.step slot.event = some c') :
    Served ⟨c', rest⟩ ↔ ¬ (c.Opens slot.event ∧ ∀ slot ∈ rest, ¬ slot.Sends) := by
  cases slot with
  | queueFrame frameNumber frameData =>
    simp only [Slot.event, Connection.step, Option.ite_none_right_eq_some, Option.some.injEq] at hs
    obtain ⟨-, rfl⟩ := hs
    refine iff_of_true (served_of_not_open fun hp => ?_) fun hbad => hbad.1
    exact absurd hp (queueFrame_busy hconnected frameNumber frameData)
  | sendData =>
    simp only [Slot.event, Connection.step, Option.ite_none_right_eq_some, Option.some.injEq] at hs
    obtain ⟨-, rfl⟩ := hs
    exact iff_of_true (served_of_not_open (sendData_done hconnected)) fun hbad => hbad.1
  | setMaxFrameQueue max =>
    simp only [Slot.event, Connection.step, Option.ite_none_right_eq_some, Option.some.injEq] at hs
    obtain ⟨-, rfl⟩ := hs
    exact iff_of_true (h.rest id) fun hbad => hbad.1
  | setLossless lossless =>
    simp only [Slot.event, Connection.step, Option.ite_none_right_eq_some, Option.some.injEq] at hs
    obtain ⟨-, rfl⟩ := hs
    exact iff_of_true (h.rest id) fun hbad => hbad.1
  | setMaxFramesInFlight max =>
    simp only [Slot.event, Connection.step, Option.ite_none_right_eq_some, Option.some.injEq] at hs
    obtain ⟨hp, rfl⟩ := hs
    exact served_iff hp

theorem ackFrame_served {c : Connection} {posted : List Slot} (hp : c.place = .eventLoop)
    (serial : UInt32) : Served ⟨c.ackFrame serial, posted⟩ ↔
      ¬ (c.Opens (.ackFrame serial) ∧ ∀ slot ∈ posted, ¬ slot.Sends) := by
  rw [← ackFrame_open]
  exact served_iff hp

/-- One case per event. -/
theorem step_served {e : Event} (hconnected : s.connection.socket = .connected)
    (hsuccessful : Successful e) (h : s.Served) (hs : s.step e = some s') :
    s'.Served ↔ ¬ s.Strands e := by
  cases e with
  | start | closing | disconnected => exact hsuccessful.elim
  | post slot =>
    simp only [step, Option.ite_none_left_eq_some, Option.some.injEq] at hs
    obtain ⟨-, rfl⟩ := hs
    refine iff_of_true (fun hp hopen => ?_) id
    obtain ⟨other, hmem, hsends⟩ := h hp hopen
    exact ⟨other, List.mem_append_left _ hmem, hsends⟩
  | slot =>
    cases hposted : s.posted with
    | nil => simp [step, hposted] at hs
    | cons slot rest =>
      simp only [step, hposted] at hs
      obtain ⟨c', hc, rfl⟩ := Option.map_eq_some_iff.mp hs
      have hbefore : Served ⟨s.connection, slot :: rest⟩ := by
        rw [← hposted]
        exact h
      rw [slot_served hconnected hbefore hc]
      simp [Strands, hposted]
  | write bytesSent =>
    obtain ⟨c', hc, rfl⟩ := Option.map_eq_some_iff.mp hs
    refine iff_of_true (served_of_not_open fun hp => ?_) id
    cases hplace : s.connection.place with
    | sendLoop caller =>
      simp only [Connection.step, hplace] at hc
      exact write_done hsuccessful hc hp
    | eventLoop => simp [Connection.step, hplace] at hc
    | dropTest => simp [Connection.step, hplace] at hc
  | finishQueueFrame =>
    obtain ⟨c', -, rfl⟩ := Option.map_eq_some_iff.mp hs
    have hposted : Slot.sendData ∈ s.posted ++ [Slot.sendData] := by simp
    exact iff_of_true (served_of_posted hposted trivial) id
  | ackFrame serial =>
    obtain ⟨c', hc, rfl⟩ := Option.map_eq_some_iff.mp hs
    simp only [Connection.step, Option.ite_none_right_eq_some, Option.some.injEq] at hc
    obtain ⟨hp, rfl⟩ := hc
    exact ackFrame_served hp serial

/-- Most events are one of the connection. -/
theorem step_connection {e : Event} (hs : s.step e = some s') :
    (s'.connection = s.connection ∧ ∃ slot, e = .post slot) ∨
    ∃ e', s.connection.step e' = some s'.connection ∧ (Successful e → OnConnected e') ∧
      ∀ max, e' = .setMaxFramesInFlight max ↔
        e = .slot ∧ ∃ rest, s.posted = .setMaxFramesInFlight max :: rest := by
  cases e with
  | post slot =>
    simp only [step, Option.ite_none_left_eq_some, Option.some.injEq] at hs
    obtain ⟨-, rfl⟩ := hs
    exact .inl ⟨rfl, slot, rfl⟩
  | slot =>
    cases hposted : s.posted with
    | nil => simp [step, hposted] at hs
    | cons slot rest =>
      simp only [step, hposted] at hs
      obtain ⟨c', hc, rfl⟩ := Option.map_eq_some_iff.mp hs
      refine .inr ⟨slot.event, hc, ?_, ?_⟩
      · cases slot <;> exact fun _ => trivial
      · cases slot <;> simp [Slot.event]
  | write | finishQueueFrame | ackFrame =>
    obtain ⟨c', hc, rfl⟩ := Option.map_eq_some_iff.mp hs
    exact .inr ⟨_, hc, fun _ => trivial, by simp⟩
  | start | closing | disconnected =>
    obtain ⟨c', hc, rfl⟩ := Option.map_eq_some_iff.mp hs
    exact .inr ⟨_, hc, False.elim, by simp⟩

theorem step_inWindow {e : Event} (hroomy : s.connection.Roomy) (hs : s.step e = some s') :
    s'.connection.Roomy ∧
      (s.connection.InWindow → (s'.connection.InWindow ↔ ¬ s.Lowers e)) := by
  rcases step_connection hs with ⟨hsame, slot, rfl⟩ | ⟨e', hc, -, hmax⟩
  · rw [hsame]
    exact ⟨hroomy, fun hin => iff_of_true hin fun hlowers => nomatch hlowers.1⟩
  · obtain ⟨hroom, hin⟩ := step_window hroomy hc
    refine ⟨hroom, fun h => (hin h).trans ?_⟩
    simp only [hmax, Lowers]
    push Not
    constructor
    · rintro hle rfl max rest hposted
      exact hle max ⟨rfl, rest, hposted⟩
    · rintro hle max ⟨rfl, rest, hposted⟩
      exact hle rfl max rest hposted

theorem step_connected {e : Event} (hconnected : s.connection.socket = .connected)
    (hsending : s.connection.Sending) (hsuccessful : Successful e) (hs : s.step e = some s') :
    s'.connection.socket = .connected ∧ s'.connection.Sending := by
  rcases step_connection hs with ⟨hsame, -⟩ | ⟨e', hc, hon, -⟩
  · rw [hsame]
    exact ⟨hconnected, hsending⟩
  · exact (step_recovery hconnected hsending (hon hsuccessful) hc).1

end

/-- While the client is connected and accepts what is written: in all states of a run a connection
that could send has a call posted that will, exactly when no ack and no new limit opened the window
with no such call posted. Then, when all calls have run, its queue is empty or its window is full, and
not more than full if no new limit was below the number of frames in flight. -/
theorem not_stranded (lossless : Bool) (maxFrameQueue maxFramesInFlight : Nat) (es : List Event)
    (s : ConnectionThread) (hes : ∀ e ∈ es, Successful e)
    (hrun : run step (started lossless maxFrameQueue maxFramesInFlight) es = some s) :
    (Always step Served (started lossless maxFrameQueue maxFramesInFlight) es ↔
      ¬ Occurs step Strands (started lossless maxFrameQueue maxFramesInFlight) es) ∧
    (¬ Occurs step Strands (started lossless maxFrameQueue maxFramesInFlight) es → s.Idle →
      s.connection.m_waiting = false → s.connection.m_frameQueue = [] ∨
        s.connection.m_maxFramesInFlight ≤ s.connection.m_frameNumbersInFlight.length) ∧
    (¬ Occurs step Strands (started lossless maxFrameQueue maxFramesInFlight) es →
      ¬ Occurs step Lowers (started lossless maxFrameQueue maxFramesInFlight) es → s.Idle →
      s.connection.m_waiting = false → s.connection.m_frameQueue = [] ∨
        s.connection.m_frameNumbersInFlight.length = s.connection.m_maxFramesInFlight) := by
  obtain ⟨-, hserved⟩ := always_iff
    (J := fun s => s.connection.socket = .connected ∧ s.connection.Sending) (I := Served)
    ⟨rfl, trivial⟩ (served_of_not_open fun _ hopen => hopen.2.1 rfl)
    (fun t e t' hJ hsuccessful hs => ⟨step_connected hJ.1 hJ.2 hsuccessful hs,
      fun h => step_served hJ.1 hsuccessful h hs⟩) hes hrun
  obtain ⟨-, hwindow⟩ := always_iff (J := fun s => s.connection.Roomy)
    (I := fun s => s.connection.InWindow) (nofun) (Nat.zero_le _)
    (fun t e t' hJ _ hs => step_inWindow hJ hs) hes hrun
  have hdone (hnot : ¬ Occurs step Strands (started lossless maxFrameQueue maxFramesInFlight) es)
      (hidle : s.Idle) (hgoing : s.connection.m_waiting = false) :
      s.connection.m_frameQueue = [] ∨
        s.connection.m_maxFramesInFlight ≤ s.connection.m_frameNumbersInFlight.length := by
    have hlast : s.Served := always_last (hserved.mpr hnot) hrun
    by_contra hopen
    rw [not_or, not_le] at hopen
    obtain ⟨slot, hmem, -⟩ := hlast hidle.1 ⟨hgoing, hopen.1, hopen.2⟩
    rw [hidle.2] at hmem
    cases hmem
  refine ⟨hserved, hdone, fun hnot hlowers hidle hgoing => (hdone hnot hidle hgoing).imp_right ?_⟩
  intro hfull
  have hin := always_last (hwindow.mpr hlowers) hrun
  exact le_antisymm hin hfull

def twoFrames : List Event :=
  [.post (.queueFrame 0 (intFrame 0)), .post (.queueFrame 1 (intFrame 1)), .slot, .write 24,
    .finishQueueFrame, .slot, .write 24, .finishQueueFrame, .slot, .slot, .ackFrame 0]

/-- Both frames are sent, the second one by the call its `queueFrame` posted. -/
theorem not_stranded_window :
    ∃ s, run step (started false 2 2) twoFrames = some s ∧
      Always step Served (started false 2 2) twoFrames ∧ s.connection.m_frameQueue = [] := by
  obtain ⟨s, hguarded, hidle, hgoing, hfree⟩ : ∃ s,
      run (guarded step fun s e => ¬ Strands s e) (started false 2 2) twoFrames = some s ∧ s.Idle ∧
        s.connection.m_waiting = false ∧
        s.connection.m_frameNumbersInFlight.length < s.connection.m_maxFramesInFlight :=
    ⟨_, rfl, ⟨rfl, rfl⟩, rfl, by decide⟩
  obtain ⟨hrun, hnot⟩ := not_occurs_of_guarded hguarded
  obtain ⟨hserved, hdone, -⟩ :=
    not_stranded false 2 2 twoFrames s (by simp [twoFrames, Successful]) hrun
  exact ⟨s, hrun, hserved.mpr hnot,
    (hdone hnot hidle hgoing).resolve_right (Nat.not_le.mpr hfree)⟩

/-- One frame may be in flight: when it is acknowledged, the second one stays in the queue. -/
theorem stranded_second :
    ∃ s, run step (started false 2 1) [.post (.queueFrame 0 (intFrame 0)),
        .post (.queueFrame 1 (intFrame 1)), .slot, .write 24, .finishQueueFrame, .slot,
        .finishQueueFrame, .slot, .slot, .ackFrame 0] = some s ∧ s.Idle ∧
      s.connection.m_waiting = false ∧ s.connection.m_frameQueue.map Frame.serial = [1] ∧
      s.connection.m_frameNumbersInFlight = [] ∧ s.connection.m_maxFramesInFlight = 1 :=
  ⟨_, rfl, ⟨rfl, rfl⟩, rfl, by decide, rfl, rfl⟩

end ConnectionThread
end ParleVision.Tcp
