import ParleVision.Tcp.Integrity

namespace ParleVision.Tcp
open Lib

/-- How many frames the queue may hold beyond its limit while `sendData` runs. -/
def Caller.extra : Caller → Nat
  | .eventLoop => 0
  | .queueFrame => 1

namespace Connection

def started (lossless : Bool) (maxFrameQueue maxFramesInFlight : Nat) : Connection :=
  { new lossless maxFrameQueue maxFramesInFlight with socket := .connected }

/-- The socket stays connected and takes something of every write, and nobody changes the
settings. -/
def Undisturbed (_ : Connection) : Event → Prop
  | .queueFrame _ _ | .sendData | .finishQueueFrame | .ackFrame _ => True
  | .write bytesSent => 1 ≤ bytesSent
  | .start | .closing | .disconnected | .setMaxFrameQueue _ | .setMaxFramesInFlight _
  | .setLossless _ => False

structure Delivering (lossless : Bool) (maxFrameQueue maxFramesInFlight : Nat) (c : Connection) :
    Prop where
  settings : c.m_lossless = lossless ∧ c.m_maxFramesInQueue = maxFrameQueue ∧
    c.m_maxFramesInFlight = maxFramesInFlight
  connected : c.socket = .connected
  intact : c.Intact
  going : c.m_lossless = false → c.m_waiting = false
  all : c.m_lossless = true → c.written ++ c.m_frameQueue.map Frame.block = c.queued
  window : c.m_frameNumbersInFlight.length ≤ c.m_maxFramesInFlight
  inFlight : c.acked ++ c.m_frameNumbersInFlight = c.written.map Prod.fst

def Whole (c : Connection) : Prop := ∀ f ∈ c.m_frameQueue, f.sent = 0

/-- The queue of a lossy connection is over its limit by no more than this. -/
def Over (c : Connection) (extra : Nat) : Prop :=
  c.m_lossless = false → c.m_frameQueue.length ≤ c.m_maxFramesInQueue + extra

def AtPlace (c : Connection) : Prop :=
  match c.place with
  | .eventLoop => c.Whole ∧ c.Over 0
  | .sendLoop caller => c.m_frameNumbersInFlight.length < c.m_maxFramesInFlight ∧
      c.m_frameQueue ≠ [] ∧ c.Over caller.extra
  | .dropTest => c.Whole ∧ c.Over 1

section Steps
variable {lossless : Bool} {maxFrameQueue maxFramesInFlight : Nat} {c c' : Connection}

theorem Delivering.place (h : c.Delivering lossless maxFrameQueue maxFramesInFlight) (p : Place) :
    { c with place := p }.Delivering lossless maxFrameQueue maxFramesInFlight :=
  ⟨h.settings, h.connected, h.intact.place p, h.going, h.all, h.window, h.inFlight⟩

theorem delivering_place (c : Connection) (p : Place) :
    { c with place := p }.Delivering lossless maxFrameQueue maxFramesInFlight =
      c.Delivering lossless maxFrameQueue maxFramesInFlight :=
  propext ⟨fun h => h.place c.place, fun h => h.place p⟩

theorem sendReturns_atPlace {caller : Caller} (hw : c.Whole) (ho : c.Over caller.extra) :
    (c.sendReturns caller).AtPlace := by
  cases caller with
  | eventLoop => exact ⟨hw, ho⟩
  | queueFrame => exact ⟨hw, ho⟩

/-- The loop is left with whole frames only. -/
theorem loopTest_atPlace {caller : Caller}
    (hw : c.m_frameNumbersInFlight.length ≥ c.m_maxFramesInFlight → c.Whole)
    (ho : c.Over caller.extra) : (c.loopTest caller).AtPlace := by
  unfold loopTest
  split
  · rename_i hleave
    apply sendReturns_atPlace _ ho
    cases hleave with
    | inl hfull => exact hw hfull
    | inr hnil =>
      intro f hf
      simp [hnil] at hf
  · rename_i hstay
    rw [not_or] at hstay
    exact ⟨not_le.mp hstay.1, hstay.2, ho⟩

theorem sendData_atPlace {caller : Caller} (hw : c.Whole) (ho : c.Over caller.extra) :
    (c.sendData caller).AtPlace := by
  unfold sendData
  split
  · exact sendReturns_atPlace hw ho
  · split
    · exact sendReturns_atPlace hw ho
    · exact loopTest_atPlace (fun _ => hw) ho

theorem take_delivering (h : c.Delivering lossless maxFrameQueue maxFramesInFlight) {f : Frame}
    {rest : List Frame} (hq : c.m_frameQueue = f :: rest) {n : Nat}
    (hn : n < f.bytes.length - f.sent) :
    (c.take f rest n).Delivering lossless maxFrameQueue maxFramesInFlight := by
  refine ⟨h.settings, h.connected, h.intact.take hq hn, h.going, fun hl => ?_, h.window,
    h.inFlight⟩
  have hall := h.all hl
  rw [hq] at hall
  exact hall

theorem frameWritten_delivering (h : c.Delivering lossless maxFrameQueue maxFramesInFlight)
    {f : Frame} {rest : List Frame} (hq : c.m_frameQueue = f :: rest)
    (hroom : c.m_frameNumbersInFlight.length < c.m_maxFramesInFlight) :
    (c.frameWritten f rest).Delivering lossless maxFrameQueue maxFramesInFlight := by
  refine ⟨h.settings, h.connected, h.intact.frameWritten hq, h.going, fun hl => ?_, ?_, ?_⟩
  · have hall := h.all hl
    rw [hq] at hall
    change (c.written ++ [f.block]) ++ rest.map Frame.block = c.queued
    simpa using hall
  · change (c.m_frameNumbersInFlight ++ [f.serial]).length ≤ c.m_maxFramesInFlight
    simp only [List.length_append, List.length_cons, List.length_nil]
    omega
  · change c.acked ++ (c.m_frameNumbersInFlight ++ [f.serial]) =
      (c.written ++ [f.block]).map Prod.fst
    rw [← List.append_assoc, h.inFlight, List.map_append]
    rfl

theorem write_delivering (h : c.Delivering lossless maxFrameQueue maxFramesInFlight)
    {caller : Caller} (hp : c.place = .sendLoop caller) (hat : c.AtPlace) {bytesSent : Int}
    (hpos : 1 ≤ bytesSent) (hw : c.write caller bytesSent = some c') :
    c'.Delivering lossless maxFrameQueue maxFramesInFlight ∧ c'.AtPlace := by
  unfold AtPlace at hat
  rw [hp] at hat
  obtain ⟨hroom, hne, hover⟩ := hat
  obtain ⟨f, rest, hq, ⟨-, hpart, rfl⟩ | ⟨hfailed, -⟩ | ⟨-, rfl⟩⟩ := write_cases hw
  · rw [loopTest_reads delivering_place]
    refine ⟨take_delivering h hq hpart, ?_⟩
    unfold Over at hover
    rw [hq] at hover
    -- there is room in the window still, so that the loop goes on
    exact loopTest_atPlace (fun hfull => absurd hroom (not_lt.mpr hfull)) hover
  · omega
  · rw [loopTest_reads delivering_place]
    refine ⟨frameWritten_delivering h hq hroom, ?_⟩
    apply loopTest_atPlace
    · intro _ g hg
      exact h.intact.started g (by rw [hq]; exact hg)
    · intro hl
      have hlength := hover hl
      rw [hq, List.length_cons] at hlength
      change rest.length ≤ c.m_maxFramesInQueue + caller.extra
      omega

theorem queueFrame_delivering (h : c.Delivering lossless maxFrameQueue maxFramesInFlight)
    (hw : c.Whole) (ho : c.Over 0) (frameNumber : UInt32) (frameData : Bytes) :
    (c.queueFrame frameNumber frameData).Delivering lossless maxFrameQueue maxFramesInFlight ∧
      (c.queueFrame frameNumber frameData).AtPlace := by
  have happ : (c.append frameNumber frameData).Delivering lossless maxFrameQueue
      maxFramesInFlight := by
    refine ⟨h.settings, h.connected, h.intact.append frameNumber frameData, h.going, fun hl => ?_,
      h.window, h.inFlight⟩
    change c.written ++ (c.m_frameQueue ++ [Frame.mk frameNumber frameData 0]).map Frame.block =
      c.queued ++ [(frameNumber, frameData)]
    rw [← h.all hl]
    simp [Frame.block]
  have hwhole : (c.append frameNumber frameData).Whole := by
    intro f hf
    cases List.mem_append.mp hf with
    | inl hf => exact hw f hf
    | inr hf =>
      rw [List.mem_singleton.mp hf]
  have hover : (c.append frameNumber frameData).Over 1 := by
    intro hl
    have hlength := ho hl
    change (c.m_frameQueue ++ [Frame.mk frameNumber frameData 0]).length ≤ c.m_maxFramesInQueue + 1
    rw [List.length_append, List.length_singleton]
    omega
  rcases c.queueFrame_cases frameNumber frameData with ⟨hgone, -⟩ | ⟨-, he⟩ | ⟨-, he⟩
  · exact absurd h.connected hgone
  · rw [he, sendData_reads delivering_place]
    exact ⟨happ, sendData_atPlace hwhole hover⟩
  · rw [he]
    exact ⟨happ.place _, hwhole, hover⟩

theorem finishQueueFrame_delivering (h : c.Delivering lossless maxFrameQueue maxFramesInFlight)
    (hw : c.Whole) (ho : c.Over 1) :
    c.finishQueueFrame.Delivering lossless maxFrameQueue maxFramesInFlight ∧
      c.finishQueueFrame.AtPlace := by
  have hintact : c.finishQueueFrame.Intact :=
    h.intact.finishQueueFrame fun _ _ _ f hf => hw f (List.mem_of_mem_head? hf)
  rcases c.finishQueueFrame_cases with ⟨hfits, he⟩ | ⟨-, hl, -, he⟩ | ⟨-, hl, he⟩
  · rw [he]
    refine ⟨h.place _, hw, fun hlossy => ?_⟩
    apply not_lt.mp
    intro hfull
    have hlossless := (hfits hfull).1
    change c.m_lossless = false at hlossy
    rw [hlossless] at hlossy
    cases hlossy
  · rw [he] at hintact ⊢
    have hlossy : c.m_lossless ≠ false := by simp [hl]
    exact ⟨⟨h.settings, h.connected, hintact, fun hl => absurd hl hlossy, h.all, h.window,
      h.inFlight⟩, hw, fun hl => absurd hl hlossy⟩
  · rw [he] at hintact ⊢
    have hlossless : c.m_lossless ≠ true := by simp [hl]
    refine ⟨⟨h.settings, h.connected, hintact, h.going, fun hl => absurd hl hlossless,
      h.window, h.inFlight⟩, fun f hf => hw f (List.mem_of_mem_tail hf), fun hlossy => ?_⟩
    have hlength := ho hlossy
    simp only [List.length_tail]
    omega

theorem ackFrame_spec (c : ServerConnection) (serial : UInt32) :
    (c.ackFrame serial).m_lossless = c.m_lossless ∧
    ((c.ackFrame serial).m_waiting = true → c.m_waiting = true) ∧
    (c.ackFrame serial).m_frameNumbersInFlight =
      if c.m_frameNumbersInFlight.head? = some serial then c.m_frameNumbersInFlight.tail
      else c.m_frameNumbersInFlight := by
  unfold ServerConnection.ackFrame
  cases c.m_frameNumbersInFlight with
  | nil => simp
  | cons expectedSerial rest =>
    by_cases he : expectedSerial = serial
    · by_cases hw : c.m_lossless = true ∧ c.m_waiting = true
      · simp [he, hw]
      · simp [he, hw]
    · by_cases hw : c.m_lossless = true ∧ c.m_waiting = true
      · simp [he, hw]
      · simp [he, hw]

theorem ackFrame_delivering (h : c.Delivering lossless maxFrameQueue maxFramesInFlight)
    (serial : UInt32) :
    (c.ackFrame serial).Delivering lossless maxFrameQueue maxFramesInFlight := by
  obtain ⟨hlossless, hwaiting, hrest⟩ := ackFrame_spec c.toServerConnection serial
  refine ⟨?_, h.connected, h.intact.congr rfl rfl rfl rfl, fun hl => ?_, fun hl => ?_, ?_, ?_⟩
  · exact ⟨hlossless.trans h.settings.1, h.settings.2⟩
  · have hgoing := h.going (hlossless.symm.trans hl)
    cases hw : (c.toServerConnection.ackFrame serial).m_waiting with
    | false => exact hw
    | true =>
      rw [hwaiting hw] at hgoing
      cases hgoing
  · exact h.all (hlossless.symm.trans hl)
  · change (c.toServerConnection.ackFrame serial).m_frameNumbersInFlight.length ≤ _
    rw [hrest]
    have := h.window
    split
    · rw [List.length_tail]
      exact (Nat.sub_le _ _).trans this
    · exact this
  · change (if _ then _ else _) ++ (c.toServerConnection.ackFrame serial).m_frameNumbersInFlight =
      c.written.map Prod.fst
    rw [hrest, ← h.inFlight]
    split
    · rename_i hhead
      cases hf : c.m_frameNumbersInFlight with
      | nil => simp [hf] at hhead
      | cons expectedSerial rest =>
        have he : expectedSerial = serial := by simpa [hf] using hhead
        simp [he]
    · rfl

theorem ackFrame_atPlace (hp : c.place = .eventLoop) (hat : c.AtPlace) (serial : UInt32) :
    (c.ackFrame serial).AtPlace := by
  obtain ⟨hlossless, -, -⟩ := ackFrame_spec c.toServerConnection serial
  unfold AtPlace at hat ⊢
  rw [hp] at hat
  have hp' : (c.ackFrame serial).place = .eventLoop := hp
  rw [hp']
  exact ⟨hat.1, fun hl => hat.2 (hlossless.symm.trans hl)⟩

theorem Delivering.step (h : c.Delivering lossless maxFrameQueue maxFramesInFlight)
    (hat : c.AtPlace) {e : Event} (hu : c.Undisturbed e) (hs : c.step e = some c') :
    c'.Delivering lossless maxFrameQueue maxFramesInFlight ∧ c'.AtPlace := by
  have hloop : c.place = .eventLoop → c.Whole ∧ c.Over 0 := by
    intro hp
    unfold AtPlace at hat
    rw [hp] at hat
    exact hat
  cases e with
  | queueFrame frameNumber frameData =>
    simp only [Connection.step, Option.ite_none_right_eq_some, Option.some.injEq] at hs
    obtain ⟨hp, rfl⟩ := hs
    exact queueFrame_delivering h (hloop hp).1 (hloop hp).2 frameNumber frameData
  | sendData =>
    simp only [Connection.step, Option.ite_none_right_eq_some, Option.some.injEq] at hs
    obtain ⟨hp, rfl⟩ := hs
    rw [sendData_reads delivering_place]
    exact ⟨h, sendData_atPlace (hloop hp).1 (hloop hp).2⟩
  | write bytesSent =>
    cases hp : c.place with
    | sendLoop caller =>
      simp only [Connection.step, hp] at hs
      exact write_delivering h hp hat hu hs
    | eventLoop => simp [Connection.step, hp] at hs
    | dropTest => simp [Connection.step, hp] at hs
  | finishQueueFrame =>
    simp only [Connection.step, Option.ite_none_right_eq_some, Option.some.injEq] at hs
    obtain ⟨hp, rfl⟩ := hs
    unfold AtPlace at hat
    rw [hp] at hat
    exact finishQueueFrame_delivering h hat.1 hat.2
  | ackFrame serial =>
    simp only [Connection.step, Option.ite_none_right_eq_some, Option.some.injEq] at hs
    obtain ⟨hp, rfl⟩ := hs
    exact ⟨ackFrame_delivering h serial, ackFrame_atPlace hp hat serial⟩
  | start | closing | disconnected | setMaxFrameQueue | setMaxFramesInFlight | setLossless =>
    exact hu.elim

end Steps

theorem started_delivering (lossless : Bool) (maxFrameQueue maxFramesInFlight : Nat) :
    (started lossless maxFrameQueue maxFramesInFlight).Delivering lossless maxFrameQueue
      maxFramesInFlight ∧ (started lossless maxFrameQueue maxFramesInFlight).AtPlace := by
  have hintact : (started lossless maxFrameQueue maxFramesInFlight).Intact :=
    (Intact.new lossless maxFrameQueue maxFramesInFlight).congr rfl rfl rfl rfl
  refine ⟨⟨⟨rfl, rfl, rfl⟩, rfl, hintact, fun _ => rfl, fun _ => rfl, Nat.zero_le _, rfl⟩, ?_, ?_⟩
  · intro f hf
    cases hf
  · exact fun _ => Nat.zero_le _

theorem delivers {lossless : Bool} {maxFrameQueue maxFramesInFlight : Nat} {c : Connection}
    (h : Reaches step Undisturbed (started lossless maxFrameQueue maxFramesInFlight) c) :
    c.Delivering lossless maxFrameQueue maxFramesInFlight ∧ c.AtPlace :=
  h.invariant (I := fun c => c.Delivering lossless maxFrameQueue maxFramesInFlight ∧ c.AtPlace)
    (started_delivering lossless maxFrameQueue maxFramesInFlight)
    fun _ _ _ hi hu hs => hi.1.step hi.2 hu hs

/-- Frames are written in the order they were queued, each at most once; a lossless
connection keeps them all, any other one has at most `maxFrameQueue` left when `queueFrame`
is over; and what is in flight are the latest written frames, those without an ack. -/
theorem delivery (lossless : Bool) (maxFrameQueue maxFramesInFlight : Nat) (c : Connection)
    (h : Reaches step Undisturbed (started lossless maxFrameQueue maxFramesInFlight) c) :
    c.wire = c.written.flatMap Prod.snd ++ c.unfinished ∧
    c.written.Sublist c.queued ∧
    (lossless = true → c.written ++ c.m_frameQueue.map Frame.block = c.queued) ∧
    (lossless = false → c.place = .eventLoop → c.m_frameQueue.length ≤ maxFrameQueue) ∧
    c.m_frameNumbersInFlight.length ≤ maxFramesInFlight ∧
    c.acked ++ c.m_frameNumbersInFlight = c.written.map Prod.fst := by
  obtain ⟨hd, hat⟩ := delivers h
  obtain ⟨hlossless, hqueue, hflight⟩ := hd.settings
  refine ⟨hd.intact.wire, ?_, ?_, ?_, ?_, hd.inFlight⟩
  · exact (List.sublist_append_left _ _).trans hd.intact.inOrder
  · exact fun hl => hd.all (hlossless.trans hl)
  · intro hl hp
    unfold AtPlace at hat
    rw [hp] at hat
    have := hat.2 (hlossless.trans hl)
    omega
  · rw [← hflight]
    exact hd.window

/-- A lossy connection with one frame in flight, which drops the second of three frames. -/
theorem delivery_dropped :
    ∃ c, run step (started false 1 1) [.queueFrame 0 (intFrame 0), .write 5, .write 19,
        .finishQueueFrame, .queueFrame 1 (intFrame 1), .finishQueueFrame,
        .queueFrame 2 (intFrame 2), .finishQueueFrame, .ackFrame 7, .ackFrame 0, .sendData,
        .write 24] = some c ∧ c.written.Sublist c.queued ∧
      c.written.map Prod.fst = [0, 2] ∧ c.m_frameNumbersInFlight = [2] := by
  have hundisturbed : ∀ c : Connection, ∀ e ∈ [Event.queueFrame 0 (intFrame 0), .write 5,
      .write 19, .finishQueueFrame, .queueFrame 1 (intFrame 1), .finishQueueFrame,
      .queueFrame 2 (intFrame 2), .finishQueueFrame, .ackFrame 7, .ackFrame 0, .sendData,
      .write 24], c.Undisturbed e := by
    intro c
    simp [Undisturbed]
  refine ⟨_, rfl, ?_, by decide, by decide⟩
  exact (delivery false 1 1 _ (Reaches.of_run (hundisturbed · · ·) rfl)).2.1

end Connection

end ParleVision.Tcp
