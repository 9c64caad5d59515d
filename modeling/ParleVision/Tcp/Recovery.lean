import ParleVision.Tcp.Delivery

namespace ParleVision.Tcp
open Lib

namespace Connection

/-- Whoever waits has something in flight, and its ack ends the waiting. -/
def Recoverable (c : Connection) : Prop :=
  c.m_waiting = true → c.m_frameNumbersInFlight ≠ [] ∧
    ∀ serial ∈ c.m_frameNumbersInFlight, (c.ackFrame serial).m_waiting = false

def OnConnected : Event → Prop
  | .start | .closing | .disconnected => False
  | .queueFrame _ _ | .sendData | .write _ | .finishQueueFrame | .ackFrame _ | .setMaxFrameQueue _
  | .setMaxFramesInFlight _ | .setLossless _ => True

/-- The steps that leave nothing to end the waiting: a write fails on a lossy connection or with
nothing in flight, or a waiting connection becomes lossy. (The processor never sets the limit
of the last case.) -/
def Strands (c : Connection) : Event → Prop
  | .write bytesSent => bytesSent = -1 ∧ (c.m_lossless = false ∨ c.m_frameNumbersInFlight = [])
  | .setLossless lossless => lossless = false ∧ c.m_waiting = true
  | .finishQueueFrame => c.m_maxFramesInFlight = 0 ∧ c.m_frameNumbersInFlight = [] ∧
      c.m_lossless = true ∧ c.m_waiting = false ∧ c.m_maxFramesInQueue < c.m_frameQueue.length
  | .start | .closing | .disconnected | .queueFrame _ _ | .sendData | .ackFrame _
  | .setMaxFrameQueue _ | .setMaxFramesInFlight _ => False

/-- It waits for an ack of nothing. -/
def Stalled (c : Connection) : Prop :=
  (∀ caller, c.place ≠ .sendLoop caller) ∧ c.m_waiting = true ∧ c.m_frameNumbersInFlight = []

/-- The loop of `sendData` runs while nobody waits, and is left for one of three reasons. -/
def Sending (c : Connection) : Prop :=
  match c.place with
  | .eventLoop => True
  | .sendLoop _ => c.m_waiting = false
  | .dropTest => c.m_waiting = true ∨ c.m_frameQueue = [] ∨
      c.m_maxFramesInFlight ≤ c.m_frameNumbersInFlight.length

section
variable {c c' : Connection} {e : Event}

theorem ackFrame_waiting (c : Connection) (serial : UInt32) : (c.ackFrame serial).m_waiting =
    (c.m_waiting && !(c.m_lossless && !c.m_frameNumbersInFlight.isEmpty)) := by
  change (c.toServerConnection.ackFrame serial).m_waiting = _
  unfold ServerConnection.ackFrame
  cases c.m_frameNumbersInFlight with
  | nil => simp
  | cons expectedSerial rest =>
    by_cases he : expectedSerial = serial
    · cases c.m_lossless <;> cases c.m_waiting <;> simp [he]
    · cases c.m_lossless <;> cases c.m_waiting <;> simp [he]

theorem recoverable_iff : c.Recoverable ↔
    (c.m_waiting = true → c.m_lossless = true ∧ c.m_frameNumbersInFlight ≠ []) := by
  refine imp_congr_right fun hw => ?_
  simp only [ackFrame_waiting, hw]
  cases hf : c.m_frameNumbersInFlight with
  | nil => simp
  | cons serial rest => simpa using fun hl _ _ => hl

theorem sending_eventLoop (hp : c.place = .eventLoop) : c.Sending := by
  unfold Sending
  rw [hp]
  trivial

theorem sendReturns_sending {caller : Caller}
    (h : c.m_waiting = true ∨ c.m_frameQueue = [] ∨
      c.m_maxFramesInFlight ≤ c.m_frameNumbersInFlight.length) :
    (c.sendReturns caller).Sending := by
  cases caller with
  | eventLoop => trivial
  | queueFrame => exact h

theorem loopTest_sending {caller : Caller} (hw : c.m_waiting = false) :
    (c.loopTest caller).Sending := by
  unfold loopTest
  split
  · rename_i hleave
    exact sendReturns_sending (.inr hleave.symm)
  · exact hw

theorem sendData_sending (hconnected : c.socket = .connected) (caller : Caller) :
    (c.sendData caller).Sending := by
  unfold sendData
  rw [if_neg (by simp [hconnected])]
  split
  · rename_i hw
    exact sendReturns_sending (.inl hw)
  · rename_i hw
    exact loopTest_sending (by simpa using hw)

/-- A place change loses nothing of it. -/
theorem recoverable_place (c : Connection) (p : Place) :
    { c with place := p }.Recoverable = c.Recoverable := by
  rw [eq_iff_iff, recoverable_iff, recoverable_iff]

/-- A connection that does not wait is in no need to recover. -/
theorem recoverable_of_going (h : c.m_waiting = false) : c.Recoverable :=
  fun hw => absurd hw (by simp [h])

theorem write_recovery {caller : Caller} (hgoing : c.m_waiting = false) {bytesSent : Int}
    (hw : c.write caller bytesSent = some c') :
    c'.socket = c.socket ∧ c'.Sending ∧ (c'.Recoverable ↔ ¬ c.Strands (.write bytesSent)) := by
  obtain ⟨f, rest, -, ⟨hsome, -, rfl⟩ | ⟨hfail, rfl⟩ | ⟨hsome, rfl⟩⟩ := write_cases hw
  · refine ⟨loopTest_reads (fun _ _ => rfl) _ caller, loopTest_sending hgoing, ?_⟩
    rw [loopTest_reads recoverable_place]
    exact iff_of_true (recoverable_of_going hgoing) fun hs => hsome hs.1
  · refine ⟨sendReturns_reads (fun _ _ => rfl) _ caller, sendReturns_sending (.inl rfl), ?_⟩
    rw [sendReturns_reads recoverable_place, recoverable_iff]
    change (true = true → c.m_lossless = true ∧ c.m_frameNumbersInFlight ≠ []) ↔
      ¬ (bytesSent = -1 ∧ (c.m_lossless = false ∨ c.m_frameNumbersInFlight = []))
    simp [hfail]
  · refine ⟨loopTest_reads (fun _ _ => rfl) _ caller, loopTest_sending hgoing, ?_⟩
    rw [loopTest_reads recoverable_place]
    exact iff_of_true (recoverable_of_going hgoing) fun hs => hsome hs.1

theorem queueFrame_recovery (hconnected : c.socket = .connected) (frameNumber : UInt32)
    (frameData : Bytes) :
    (c.queueFrame frameNumber frameData).socket = c.socket ∧
      (c.queueFrame frameNumber frameData).Sending ∧
      ((c.queueFrame frameNumber frameData).Recoverable ↔ c.Recoverable) := by
  rcases c.queueFrame_cases frameNumber frameData with ⟨hgone, -⟩ | ⟨-, he⟩ | ⟨hfull, he⟩
  · exact absurd hconnected hgone
  · rw [he]
    refine ⟨sendData_reads (fun _ _ => rfl) _ _, sendData_sending (by exact hconnected) _, ?_⟩
    rw [sendData_reads recoverable_place, recoverable_iff, recoverable_iff]
    rfl
  · rw [he]
    refine ⟨rfl, .inr (.inr hfull), ?_⟩
    rw [recoverable_iff, recoverable_iff]
    rfl

theorem finishQueueFrame_spec (c : Connection) :
    c.finishQueueFrame.socket = c.socket ∧ c.finishQueueFrame.place = .eventLoop := by
  rcases c.finishQueueFrame_cases with ⟨-, he⟩ | ⟨-, -, -, he⟩ | ⟨-, -, he⟩
  · rw [he]
    exact ⟨rfl, rfl⟩
  · rw [he]
    exact ⟨rfl, rfl⟩
  · rw [he]
    exact ⟨rfl, rfl⟩

/-- What makes a lossless connection wait here is a full window. -/
theorem finishQueueFrame_recovery (hp : c.place = .dropTest) (hsending : c.Sending)
    (hr : c.Recoverable) :
    c.finishQueueFrame.Recoverable ↔ ¬ c.Strands .finishQueueFrame := by
  unfold Sending at hsending
  rw [hp] at hsending
  change _ ↔ ¬ (c.m_maxFramesInFlight = 0 ∧ c.m_frameNumbersInFlight = [] ∧
    c.m_lossless = true ∧ c.m_waiting = false ∧ c.m_maxFramesInQueue < c.m_frameQueue.length)
  rcases c.finishQueueFrame_cases with ⟨hfits, he⟩ | ⟨hover, hlossless, hgoing, he⟩ |
    ⟨-, hlossy, he⟩
  · rw [he, recoverable_place]
    refine iff_of_true hr fun hs => ?_
    obtain ⟨-, -, -, hgoing, hover⟩ := hs
    rw [(hfits hover).2] at hgoing
    cases hgoing
  · have hne : c.m_frameQueue ≠ [] := List.ne_nil_of_length_pos (by omega)
    have hfull : c.m_maxFramesInFlight ≤ c.m_frameNumbersInFlight.length :=
      (hsending.resolve_left (by simp [hgoing])).resolve_left hne
    have hzero : c.m_frameNumbersInFlight = [] → c.m_maxFramesInFlight = 0 := by
      intro hnil
      rw [hnil] at hfull
      exact Nat.le_zero.mp hfull
    rw [he, recoverable_iff]
    change (true = true → c.m_lossless = true ∧ c.m_frameNumbersInFlight ≠ []) ↔ _
    constructor
    · intro h hs
      exact (h rfl).2 hs.2.1
    · intro h _
      exact ⟨hlossless, fun hnil => h ⟨hzero hnil, hnil, hlossless, hgoing, hover⟩⟩
  · rw [he]
    refine iff_of_true ?_ ?_
    · rw [recoverable_iff] at hr ⊢
      exact hr
    · simp [hlossy]

theorem ackFrame_recovery (hr : c.Recoverable) (serial : UInt32) :
    (c.ackFrame serial).Recoverable := by
  refine recoverable_of_going ?_
  rw [recoverable_iff] at hr
  rw [ackFrame_waiting]
  cases hw : c.m_waiting with
  | false => rfl
  | true =>
    obtain ⟨hlossless, hne⟩ := hr hw
    cases hf : c.m_frameNumbersInFlight with
    | nil => exact absurd hf hne
    | cons expectedSerial rest => simp [hlossless]

/-- One case per event. -/
theorem step_recovery (hconnected : c.socket = .connected) (hsending : c.Sending)
    (hon : OnConnected e) (hs : c.step e = some c') :
    (c'.socket = .connected ∧ c'.Sending) ∧
      (c.Recoverable → (c'.Recoverable ↔ ¬ c.Strands e)) := by
  cases e with
  | start | closing | disconnected => exact hon.elim
  | queueFrame frameNumber frameData =>
    simp only [Connection.step, Option.ite_none_right_eq_some, Option.some.injEq] at hs
    obtain ⟨-, rfl⟩ := hs
    obtain ⟨hsocket, hsend, hiff⟩ := queueFrame_recovery hconnected frameNumber frameData
    exact ⟨⟨hsocket.trans hconnected, hsend⟩, fun hr => iff_of_true (hiff.mpr hr) id⟩
  | sendData =>
    simp only [Connection.step, Option.ite_none_right_eq_some, Option.some.injEq] at hs
    obtain ⟨-, rfl⟩ := hs
    rw [sendData_reads recoverable_place, sendData_reads (f := socket) (fun _ _ => rfl)]
    exact ⟨⟨hconnected, sendData_sending hconnected _⟩, fun hr => iff_of_true hr id⟩
  | write bytesSent =>
    cases hp : c.place with
    | sendLoop caller =>
      simp only [Connection.step, hp] at hs
      unfold Sending at hsending
      rw [hp] at hsending
      obtain ⟨hsocket, hsend, hiff⟩ := write_recovery hsending hs
      exact ⟨⟨hsocket.trans hconnected, hsend⟩, fun _ => hiff⟩
    | eventLoop => simp [Connection.step, hp] at hs
    | dropTest => simp [Connection.step, hp] at hs
  | finishQueueFrame =>
    simp only [Connection.step, Option.ite_none_right_eq_some, Option.some.injEq] at hs
    obtain ⟨hp, rfl⟩ := hs
    obtain ⟨hsocket, hplace⟩ := c.finishQueueFrame_spec
    exact ⟨⟨hsocket.trans hconnected, sending_eventLoop hplace⟩,
      fun hr => finishQueueFrame_recovery hp hsending hr⟩
  | ackFrame serial =>
    simp only [Connection.step, Option.ite_none_right_eq_some, Option.some.injEq] at hs
    obtain ⟨hp, rfl⟩ := hs
    exact ⟨⟨hconnected, sending_eventLoop hp⟩,
      fun hr => iff_of_true (ackFrame_recovery hr serial) id⟩
  | setMaxFrameQueue max =>
    simp only [Connection.step, Option.ite_none_right_eq_some, Option.some.injEq] at hs
    obtain ⟨hp, rfl⟩ := hs
    refine ⟨⟨hconnected, sending_eventLoop hp⟩, fun hr => iff_of_true ?_ id⟩
    rw [recoverable_iff] at hr ⊢
    exact hr
  | setMaxFramesInFlight max =>
    simp only [Connection.step, Option.ite_none_right_eq_some, Option.some.injEq] at hs
    obtain ⟨hp, rfl⟩ := hs
    refine ⟨⟨hconnected, sending_eventLoop hp⟩, fun hr => iff_of_true ?_ id⟩
    rw [recoverable_iff] at hr ⊢
    exact hr
  | setLossless lossless =>
    simp only [Connection.step, Option.ite_none_right_eq_some, Option.some.injEq] at hs
    obtain ⟨hp, rfl⟩ := hs
    refine ⟨⟨hconnected, sending_eventLoop hp⟩, fun hr => ?_⟩
    rw [recoverable_iff] at hr ⊢
    change (c.m_waiting = true → lossless = true ∧ c.m_frameNumbersInFlight ≠ []) ↔
      ¬ (lossless = false ∧ c.m_waiting = true)
    cases lossless with
    | true =>
      refine iff_of_true (fun hw => ⟨rfl, (hr hw).2⟩) ?_
      simp
    | false => simp

theorem Stalled.sendData (h : c.Stalled) (caller : Caller) :
    (c.sendData caller).Stalled ∧ (c.sendData caller).wire = c.wire := by
  unfold Connection.sendData
  rw [if_pos h.2.1, ite_self]
  cases caller with
  | eventLoop => exact ⟨⟨nofun, h.2⟩, rfl⟩
  | queueFrame => exact ⟨⟨nofun, h.2⟩, rfl⟩

/-- Nothing is written any more. -/
theorem Stalled.step (h : c.Stalled) (hs : c.step e = some c') :
    c'.Stalled ∧ c'.wire = c.wire := by
  obtain ⟨hidle, hw, hnil⟩ := h
  cases e with
  | start | closing | disconnected | setMaxFrameQueue | setMaxFramesInFlight | setLossless =>
    simp only [Connection.step, Option.ite_none_right_eq_some, Option.some.injEq] at hs
    obtain ⟨-, rfl⟩ := hs
    exact ⟨⟨hidle, hw, hnil⟩, rfl⟩
  | queueFrame frameNumber frameData =>
    simp only [Connection.step, Option.ite_none_right_eq_some, Option.some.injEq] at hs
    obtain ⟨-, rfl⟩ := hs
    rcases c.queueFrame_cases frameNumber frameData with ⟨-, he⟩ | ⟨-, he⟩ | ⟨-, he⟩
    · rw [he]
      exact ⟨⟨hidle, hw, hnil⟩, rfl⟩
    · rw [he]
      exact Stalled.sendData (by exact ⟨hidle, hw, hnil⟩) _
    · rw [he]
      exact ⟨⟨by simp, hw, hnil⟩, rfl⟩
  | sendData =>
    simp only [Connection.step, Option.ite_none_right_eq_some, Option.some.injEq] at hs
    obtain ⟨-, rfl⟩ := hs
    exact Stalled.sendData ⟨hidle, hw, hnil⟩ _
  | write bytesSent =>
    cases hp : c.place with
    | sendLoop caller => exact absurd hp (hidle caller)
    | eventLoop => simp [Connection.step, hp] at hs
    | dropTest => simp [Connection.step, hp] at hs
  | finishQueueFrame =>
    simp only [Connection.step, Option.ite_none_right_eq_some, Option.some.injEq] at hs
    obtain ⟨-, rfl⟩ := hs
    rcases c.finishQueueFrame_cases with ⟨-, he⟩ | ⟨-, -, hgoing, -⟩ | ⟨-, -, he⟩
    · rw [he]
      exact ⟨⟨by simp, hw, hnil⟩, rfl⟩
    · rw [hw] at hgoing
      cases hgoing
    · rw [he]
      exact ⟨⟨by simp, hw, hnil⟩, rfl⟩
  | ackFrame serial =>
    simp only [Connection.step, Option.ite_none_right_eq_some, Option.some.injEq] at hs
    obtain ⟨-, rfl⟩ := hs
    refine ⟨⟨hidle, ?_, ?_⟩, rfl⟩
    · simp [ackFrame_waiting, hw, hnil]
    · change (c.toServerConnection.ackFrame serial).m_frameNumbersInFlight = []
      simp [(ackFrame_spec _ serial).2.2, hnil]

/-- Not even when it becomes lossless. -/
theorem Stalled.run {allowed : Connection → Event → Prop} (h : c.Stalled)
    (hr : Reaches Connection.step allowed c c') : c'.m_waiting = true ∧ c'.wire = c.wire := by
  have hkeeps : c'.Stalled ∧ c'.wire = c.wire := by
    refine hr.invariant (I := fun d => d.Stalled ∧ d.wire = c.wire) ⟨h, rfl⟩ ?_
    rintro d e d' ⟨hd, hwire⟩ - hs
    obtain ⟨hd', hwire'⟩ := hd.step hs
    exact ⟨hd', hwire'.trans hwire⟩
  exact ⟨hkeeps.1.2.1, hkeeps.2⟩

end

/-- While the client is connected, all states of a run can recover exactly when no write failed on
a lossy connection or with nothing in flight, and no waiting connection was made lossy. -/
theorem recovery_iff (lossless : Bool) (maxFrameQueue maxFramesInFlight : Nat) (es : List Event)
    (c : Connection) (hes : ∀ e ∈ es, OnConnected e)
    (hrun : run step (started lossless maxFrameQueue maxFramesInFlight) es = some c) :
    Always step Recoverable (started lossless maxFrameQueue maxFramesInFlight) es ↔
      ¬ Occurs step Strands (started lossless maxFrameQueue maxFramesInFlight) es := by
  have hiff := always_iff (J := fun c => c.socket = .connected ∧ c.Sending) (I := Recoverable)
    ⟨rfl, trivial⟩ (recoverable_of_going rfl)
    (fun t e t' hJ hon hs => step_recovery hJ.1 hJ.2 hon hs) hes hrun
  exact hiff.2

/-- A lossless connection overflows, and waits for the ack of its first frame. -/
theorem recovery_iff_overflow : ∃ c, run step (started true 0 1) [.queueFrame 0 (intFrame 0),
      .write 24, .finishQueueFrame, .queueFrame 1 (intFrame 1), .finishQueueFrame] = some c ∧
    c.m_waiting = true ∧
    (Always step Recoverable (started true 0 1) [.queueFrame 0 (intFrame 0), .write 24,
        .finishQueueFrame, .queueFrame 1 (intFrame 1), .finishQueueFrame] ↔
      ¬ Occurs step Strands (started true 0 1) [.queueFrame 0 (intFrame 0), .write 24,
        .finishQueueFrame, .queueFrame 1 (intFrame 1), .finishQueueFrame]) :=
  ⟨_, rfl, rfl, recovery_iff true 0 1 _ _ (by simp [OnConnected]) rfl⟩

/-- The first write of a lossy connection fails: it waits for good. -/
theorem recovery_stalled : ∃ c, run step (started false 1 1) [.queueFrame 0 (intFrame 0),
      .write (-1), .finishQueueFrame] = some c ∧ c.m_waiting = true ∧ ¬ c.Recoverable ∧
    ∀ c', Reaches step (fun _ e => OnConnected e) c c' → c'.m_waiting = true ∧ c'.wire = c.wire :=
  ⟨_, rfl, rfl, fun h => (h rfl).1 rfl, fun _ hr => Stalled.run ⟨nofun, rfl, rfl⟩ hr⟩

end Connection

end ParleVision.Tcp
