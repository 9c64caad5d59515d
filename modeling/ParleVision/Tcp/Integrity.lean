import ParleVision.Tcp.Connection
import ParleVision.Tcp.Fragmentation

namespace ParleVision.Tcp
open Lib

namespace Connection

def unfinished (c : Connection) : Bytes :=
  match c.m_frameQueue with
  | [] => []
  | f :: _ => f.bytes.take f.sent

/-- Behind the frames written to their end only the first frame has been started. -/
structure Intact (c : Connection) : Prop where
  wire : c.wire = c.written.flatMap Prod.snd ++ c.unfinished
  started : ∀ f ∈ c.m_frameQueue.tail, f.sent = 0
  inPart : ∀ f ∈ c.m_frameQueue, f.sent = 0 ∨ f.sent < f.bytes.length
  inOrder : (c.written ++ c.m_frameQueue.map Frame.block).Sublist c.queued

theorem sendReturns_place (c : Connection) (caller : Caller) :
    ∃ p, c.sendReturns caller = { c with place := p } := by
  cases caller with
  | eventLoop => exact ⟨_, rfl⟩
  | queueFrame => exact ⟨_, rfl⟩

theorem loopTest_place (c : Connection) (caller : Caller) :
    ∃ p, c.loopTest caller = { c with place := p } := by
  unfold loopTest
  split
  · exact c.sendReturns_place caller
  · exact ⟨_, rfl⟩

/-- `sendData` writes nothing before its loop. -/
theorem sendData_place (c : Connection) (caller : Caller) :
    ∃ p, c.sendData caller = { c with place := p } := by
  unfold sendData
  split
  · exact c.sendReturns_place caller
  · split
    · exact c.sendReturns_place caller
    · exact c.loopTest_place caller

/-- What does not ask where the thread is stays the same through `sendData` up to its loop. -/
theorem sendReturns_reads {α : Sort u} {f : Connection → α}
    (hf : ∀ (c : Connection) p, f { c with place := p } = f c) (c : Connection) (caller : Caller) :
    f (c.sendReturns caller) = f c := by
  obtain ⟨p, hp⟩ := c.sendReturns_place caller
  rw [hp, hf]

theorem loopTest_reads {α : Sort u} {f : Connection → α}
    (hf : ∀ (c : Connection) p, f { c with place := p } = f c) (c : Connection) (caller : Caller) :
    f (c.loopTest caller) = f c := by
  obtain ⟨p, hp⟩ := c.loopTest_place caller
  rw [hp, hf]

theorem sendData_reads {α : Sort u} {f : Connection → α}
    (hf : ∀ (c : Connection) p, f { c with place := p } = f c) (c : Connection) (caller : Caller) :
    f (c.sendData caller) = f c := by
  obtain ⟨p, hp⟩ := c.sendData_place caller
  rw [hp, hf]

/-- A write of a part, one that fails, and one of all the rest of the first frame. -/
theorem write_cases {c c' : Connection} {caller : Caller} {bytesSent : Int}
    (hw : c.write caller bytesSent = some c') : ∃ f rest, c.m_frameQueue = f :: rest ∧
      ((bytesSent ≠ -1 ∧ bytesSent.toNat < f.bytes.length - f.sent ∧
          c' = (c.take f rest bytesSent.toNat).loopTest caller) ∨
        (bytesSent = -1 ∧ c' = (c.setWaiting true).sendReturns caller) ∨
        (bytesSent ≠ -1 ∧ c' = (c.frameWritten f rest).loopTest caller)) := by
  unfold write at hw
  cases hq : c.m_frameQueue with
  | nil => simp [hq] at hw
  | cons f rest =>
    refine ⟨f, rest, rfl, ?_⟩
    simp only [hq] at hw
    split at hw
    · cases hw
    · split at hw
      · split at hw
        · rename_i hsome
          cases hw
          exact .inl ⟨hsome, by omega, rfl⟩
        · rename_i hfailed
          cases hw
          exact .inr (.inl ⟨not_ne_iff.mp hfailed, rfl⟩)
      · cases hw
        exact .inr (.inr ⟨by omega, rfl⟩)

def append (c : Connection) (frameNumber : UInt32) (frameData : Bytes) : Connection :=
  { c with m_frameQueue := c.m_frameQueue ++ [Frame.mk frameNumber frameData 0]
           queued := c.queued ++ [(frameNumber, frameData)] }

/-- Nothing without a socket; else the frame is queued, and `sendData` called if the window has
room. -/
theorem queueFrame_cases (c : Connection) (frameNumber : UInt32) (frameData : Bytes) :
    (c.socket ≠ .connected ∧ c.queueFrame frameNumber frameData = c) ∨
    (c.m_frameNumbersInFlight.length < c.m_maxFramesInFlight ∧
      c.queueFrame frameNumber frameData =
        (c.append frameNumber frameData).sendData .queueFrame) ∨
    (c.m_maxFramesInFlight ≤ c.m_frameNumbersInFlight.length ∧
      c.queueFrame frameNumber frameData =
        { c.append frameNumber frameData with place := .dropTest }) := by
  unfold queueFrame
  split
  · rename_i hnone
    refine .inl ⟨?_, rfl⟩
    rcases hnone with habsent | hgone
    · simp [habsent]
    · simp [hgone]
  · dsimp only
    split
    · rename_i hroom
      exact .inr (.inl ⟨hroom, rfl⟩)
    · rename_i hfull
      exact .inr (.inr ⟨not_lt.mp hfull, rfl⟩)

/-- The queue is within its limit, or the connection waits already; a lossless connection begins to
wait; any other one drops a frame. -/
theorem finishQueueFrame_cases (c : Connection) :
    ((c.m_maxFramesInQueue < c.m_frameQueue.length → c.m_lossless = true ∧ c.m_waiting = true) ∧
      c.finishQueueFrame = { c with place := .eventLoop }) ∨
    (c.m_maxFramesInQueue < c.m_frameQueue.length ∧ c.m_lossless = true ∧ c.m_waiting = false ∧
      c.finishQueueFrame = { c with place := .eventLoop }.setWaiting true) ∨
    (c.m_maxFramesInQueue < c.m_frameQueue.length ∧ c.m_lossless = false ∧
      c.finishQueueFrame =
        { c with place := .eventLoop, m_frameQueue := c.m_frameQueue.tail }) := by
  unfold finishQueueFrame
  dsimp only
  split
  · rename_i hover
    split
    · rename_i hlossless
      split
      · rename_i hwaiting
        exact .inl ⟨fun _ => ⟨hlossless, hwaiting⟩, rfl⟩
      · rename_i hgoing
        exact .inr (.inl ⟨hover, hlossless, by simpa using hgoing, rfl⟩)
    · rename_i hlossy
      exact .inr (.inr ⟨hover, by simpa using hlossy, rfl⟩)
  · rename_i hfits
    exact .inl ⟨fun hover => absurd hover hfits, rfl⟩

/-- The dropped frame is not one that was written in part. -/
def KeepsUnfinished (c : Connection) (e : Event) : Prop :=
  e = .finishQueueFrame → c.m_lossless = false →
    c.m_frameQueue.length > c.m_maxFramesInQueue → ∀ f ∈ c.m_frameQueue.head?, f.sent = 0

theorem Intact.new (lossless : Bool) (maxFrameQueue maxFramesInFlight : Nat) :
    (Connection.new lossless maxFrameQueue maxFramesInFlight).Intact :=
  ⟨rfl, fun _ hf => absurd hf List.not_mem_nil, fun _ hf => absurd hf List.not_mem_nil,
    List.Sublist.refl _⟩

section Steps
variable {c c' : Connection}

/-- Only these four fields count. -/
theorem Intact.congr (h : c.Intact) (hw : c'.wire = c.wire) (hd : c'.written = c.written)
    (hq : c'.m_frameQueue = c.m_frameQueue) (hn : c'.queued = c.queued) : c'.Intact := by
  refine ⟨?_, ?_, ?_, ?_⟩
  · have hu : c'.unfinished = c.unfinished := by
      unfold unfinished
      rw [hq]
    rw [hw, hd, hu]
    exact h.wire
  · rw [hq]
    exact h.started
  · rw [hq]
    exact h.inPart
  · rw [hd, hq, hn]
    exact h.inOrder

theorem Intact.place (h : c.Intact) (p : Place) : { c with place := p }.Intact :=
  h.congr rfl rfl rfl rfl

theorem intact_place (c : Connection) (p : Place) : { c with place := p }.Intact = c.Intact :=
  propext ⟨fun h => h.congr rfl rfl rfl rfl, fun h => h.place p⟩

theorem Intact.take (h : c.Intact) {f : Frame} {rest : List Frame}
    (hq : c.m_frameQueue = f :: rest) {n : Nat} (hn : n < f.bytes.length - f.sent) :
    (c.take f rest n).Intact := by
  have hstarted := h.started
  have hinPart := h.inPart
  have hinOrder := h.inOrder
  rw [hq] at hstarted hinPart hinOrder
  refine ⟨?_, hstarted, ?_, hinOrder⟩
  · change c.wire ++ (f.bytes.drop f.sent).take n =
      c.written.flatMap Prod.snd ++ f.bytes.take (f.sent + n)
    rw [h.wire, unfinished, hq, List.take_add, List.append_assoc]
  · intro g hg
    cases List.mem_cons.mp hg with
    | inl hg =>
      subst hg
      right
      change f.sent + n < f.bytes.length
      omega
    | inr hg => exact hinPart g (List.mem_cons_of_mem _ hg)

theorem Intact.frameWritten (h : c.Intact) {f : Frame} {rest : List Frame}
    (hq : c.m_frameQueue = f :: rest) : (c.frameWritten f rest).Intact := by
  have hstarted := h.started
  have hinPart := h.inPart
  have hinOrder := h.inOrder
  rw [hq] at hstarted hinPart hinOrder
  have hnone : (c.frameWritten f rest).unfinished = [] := by
    unfold unfinished Connection.frameWritten
    cases rest with
    | nil => rfl
    | cons g rest =>
      have hg : g.sent = 0 := hstarted g (by simp)
      simp [hg]
  refine ⟨?_, fun g hg => hstarted g (List.mem_of_mem_tail hg),
    fun g hg => hinPart g (List.mem_cons_of_mem _ hg), ?_⟩
  · rw [hnone]
    change c.wire ++ f.bytes.drop f.sent = (c.written ++ [f.block]).flatMap Prod.snd ++ []
    rw [h.wire, unfinished, hq]
    simp [Frame.block]
  · change ((c.written ++ [f.block]) ++ rest.map Frame.block).Sublist c.queued
    simpa using hinOrder

theorem Intact.write (h : c.Intact) {caller : Caller} {bytesSent : Int}
    (hw : c.write caller bytesSent = some c') : c'.Intact := by
  obtain ⟨f, rest, hq, ⟨-, hpart, rfl⟩ | ⟨-, rfl⟩ | ⟨-, rfl⟩⟩ := write_cases hw
  · rw [loopTest_reads intact_place]
    exact h.take hq hpart
  · rw [sendReturns_reads intact_place]
    exact h.congr rfl rfl rfl rfl
  · rw [loopTest_reads intact_place]
    exact h.frameWritten hq

/-- A new frame goes behind the others. -/
theorem Intact.append (h : c.Intact) (frameNumber : UInt32) (frameData : Bytes) :
    (c.append frameNumber frameData).Intact := by
  unfold Connection.append
  refine ⟨?_, ?_, ?_, ?_⟩
  · have hwire := h.wire
    unfold unfinished at hwire ⊢
    cases hq : c.m_frameQueue with
    | nil => simpa [hq] using hwire
    | cons f rest => simpa [hq] using hwire
  · intro g hg
    have hstarted := h.started
    cases hq : c.m_frameQueue with
    | nil => simp [hq] at hg
    | cons f rest =>
      simp only [hq, List.cons_append, List.tail_cons, List.mem_append, List.mem_singleton] at hg
      cases hg with
      | inl hg => exact hstarted g (by simpa [hq] using hg)
      | inr hg =>
        subst hg
        rfl
  · intro g hg
    cases List.mem_append.mp hg with
    | inl hg => exact h.inPart g hg
    | inr hg =>
      left
      rw [List.mem_singleton.mp hg]
  · have hnew := h.inOrder.append (List.Sublist.refl [(frameNumber, frameData)])
    simpa [Frame.block] using hnew

theorem Intact.queueFrame (h : c.Intact) (frameNumber : UInt32) (frameData : Bytes) :
    (c.queueFrame frameNumber frameData).Intact := by
  rcases c.queueFrame_cases frameNumber frameData with ⟨-, he⟩ | ⟨-, he⟩ | ⟨-, he⟩
  · rw [he]
    exact h
  · rw [he, sendData_reads intact_place]
    exact h.append frameNumber frameData
  · rw [he]
    exact (h.append frameNumber frameData).place _

/-- A frame that is dropped whole leaves no trace. -/
theorem Intact.finishQueueFrame (h : c.Intact) (hk : c.KeepsUnfinished .finishQueueFrame) :
    c.finishQueueFrame.Intact := by
  rcases c.finishQueueFrame_cases with ⟨-, he⟩ | ⟨-, -, -, he⟩ | ⟨hover, hlossy, he⟩
  · rw [he]
    exact h.place _
  · rw [he]
    exact h.congr rfl rfl rfl rfl
  · rw [he]
    have hwhole := hk rfl hlossy hover
    have hstarted := h.started
    have hinPart := h.inPart
    have hinOrder := h.inOrder
    cases hq : c.m_frameQueue with
    | nil => exact h.congr rfl rfl (by simp [hq]) rfl
    | cons f rest =>
      rw [hq] at hwhole hstarted hinPart hinOrder
      have hf : f.sent = 0 := hwhole f rfl
      have hnone : c.unfinished = [] := by simp [unfinished, hq, hf]
      refine ⟨?_, fun g hg => hstarted g (List.mem_of_mem_tail hg),
        fun g hg => hinPart g (List.mem_cons_of_mem _ hg), ?_⟩
      · have hrest : ∀ c : Connection, c.m_frameQueue = rest → c.unfinished = [] := by
          intro c hc
          unfold unfinished
          cases rest with
          | nil => simp [hc]
          | cons g rest => simp [hc, hstarted g (by simp)]
        rw [hrest _ rfl, ← hnone]
        exact h.wire
      · refine List.Sublist.trans ?_ hinOrder
        apply List.Sublist.append (List.Sublist.refl _)
        exact List.sublist_cons_self _ _

theorem Intact.step (h : c.Intact) {e : Event} (hk : c.KeepsUnfinished e)
    (hs : c.step e = some c') : c'.Intact := by
  cases e with
  | write bytesSent =>
    simp only [Connection.step] at hs
    split at hs
    · exact h.write hs
    · cases hs
    · cases hs
  | queueFrame frameNumber frameData =>
    simp only [Connection.step, Option.ite_none_right_eq_some, Option.some.injEq] at hs
    obtain ⟨-, rfl⟩ := hs
    exact h.queueFrame frameNumber frameData
  | sendData =>
    simp only [Connection.step, Option.ite_none_right_eq_some, Option.some.injEq] at hs
    obtain ⟨-, rfl⟩ := hs
    rw [sendData_reads intact_place]
    exact h
  | finishQueueFrame =>
    simp only [Connection.step, Option.ite_none_right_eq_some, Option.some.injEq] at hs
    obtain ⟨-, rfl⟩ := hs
    exact h.finishQueueFrame hk
  | start | closing | disconnected | ackFrame | setMaxFrameQueue | setMaxFramesInFlight
  | setLossless =>
    simp only [Connection.step, Option.ite_none_right_eq_some, Option.some.injEq] at hs
    obtain ⟨-, rfl⟩ := hs
    exact h.congr rfl rfl rfl rfl

end Steps

/-- The bytes are whole frames and a part of one more. -/
def Framed (c : Connection) : Prop :=
  ∃ (frames : List Bytes) (rest : Bytes), (∀ b ∈ frames, b ∈ c.queued.map Prod.snd) ∧
    c.wire = frames.flatten ++ rest ∧
    (rest = [] ∨ ∃ b ∈ c.queued.map Prod.snd, rest <+: b)

theorem Intact.framed {c : Connection} (h : c.Intact) : c.Framed := by
  refine ⟨c.written.map Prod.snd, c.unfinished, ?_, ?_, ?_⟩
  · intro b hb
    obtain ⟨p, hp, rfl⟩ := List.mem_map.mp hb
    exact List.mem_map_of_mem (h.inOrder.subset (List.mem_append_left _ hp))
  · exact h.wire
  · unfold unfinished
    cases hq : c.m_frameQueue with
    | nil => exact .inl rfl
    | cons f rest =>
      refine .inr ⟨f.bytes, ?_, List.take_prefix _ _⟩
      have hf : f.block ∈ c.queued := by
        apply h.inOrder.subset
        simp [hq]
      exact List.mem_map.mpr ⟨f.block, hf, rfl⟩

/-- As long as no frame is dropped that was written in part, the bytes on the wire are whole
frames and the written part of the first frame in the queue, which no other one can precede. -/
theorem wire_integrity (lossless : Bool) (maxFrameQueue maxFramesInFlight : Nat) (c : Connection)
    (h : Reaches step KeepsUnfinished (new lossless maxFrameQueue maxFramesInFlight) c) :
    c.Framed ∧ c.wire = c.written.flatMap Prod.snd ++ c.unfinished ∧
      ∀ f ∈ c.m_frameQueue.tail, f.sent = 0 := by
  have hi : c.Intact := h.invariant (Intact.new _ _ _) fun _ _ _ hi hk hs => hi.step hk hs
  exact ⟨hi.framed, hi.wire, hi.started⟩

def intFrame (frameNumber : UInt32) : Bytes :=
  block ((Message.frame frameNumber [IntVariant.int frameNumber]).payload intVariants)

/-- A frame that needs two writes. -/
theorem wire_integrity_twoWrites :
    ∃ c, run step (new false 1 1) [.start, .queueFrame 0 (intFrame 0), .write 5, .write 19] =
      some c ∧ c.Framed ∧ c.wire = intFrame 0 := by
  have hwhole : ∀ c : Connection, ∀ e ∈ [Event.start, .queueFrame 0 (intFrame 0), .write 5,
      .write 19], c.KeepsUnfinished e := by
    intro c e he hfinish
    subst hfinish
    simp at he
  refine ⟨_, rfl, ?_, by decide⟩
  exact (wire_integrity false 1 1 _ (Reaches.of_run (hwhole · · ·) rfl)).1

/-- A frame is written in part before the socket fails, and dropped; an ack that arrives in
lossless mode ends the waiting, and another frame goes out. -/
theorem wire_integrity_dropped :
    ∃ c, Reaches step (fun _ _ => True) (new false 1 2) c ∧ ¬ c.Framed := by
  have hrun : ∃ c, run step (new false 1 2) [.start, .queueFrame 0 (intFrame 0), .write 24,
      .finishQueueFrame, .queueFrame 1 (intFrame 1), .write 5, .write (-1), .finishQueueFrame,
      .queueFrame 2 (intFrame 2), .finishQueueFrame, .setLossless true, .ackFrame 0, .sendData,
      .write 24] = some c ∧ c.wire = intFrame 0 ++ (intFrame 1).take 5 ++ intFrame 2 ∧
      c.queued.map Prod.snd = [intFrame 0, intFrame 1, intFrame 2] := by
    refine ⟨_, rfl, ?_, ?_⟩
    · decide
    · decide
  obtain ⟨c, hc, hwire, hqueued⟩ := hrun
  refine ⟨c, Reaches.of_run (fun _ _ _ => trivial) hc, ?_⟩
  rintro ⟨frames, rest, hframes, hsplit, hrest⟩
  rw [hwire] at hsplit
  rw [hqueued] at hframes hrest
  -- every frame has 24 bytes, so there are two whole ones
  have hlength : ∀ b ∈ [intFrame 0, intFrame 1, intFrame 2], b.length = 24 := by decide
  have hrestLength : rest.length ≤ 24 := by
    cases hrest with
    | inl h => simp [h]
    | inr h =>
      obtain ⟨b, hb, hprefix⟩ := h
      have := hprefix.length_le
      rw [hlength b hb] at this
      exact this
  have htotal : frames.flatten.length + rest.length = 53 := by
    rw [← List.length_append, ← hsplit]
    decide
  match frames with
  | [] =>
    simp only [List.flatten_nil, List.length_nil] at htotal
    omega
  | [a] =>
    have ha := hlength a (hframes a (by simp))
    simp only [List.flatten_cons, List.flatten_nil, List.append_nil] at htotal
    omega
  | a :: b :: frames =>
    have ha := hlength a (hframes a (by simp))
    have hb := hlength b (hframes b (by simp))
    have hsecond : b = ((intFrame 0 ++ (intFrame 1).take 5 ++ intFrame 2).drop 24).take 24 := by
      rw [hsplit]
      simp [ha, hb]
    have hmem := hframes b (by simp)
    rw [hsecond] at hmem
    revert hmem
    decide

end Connection

end ParleVision.Tcp
