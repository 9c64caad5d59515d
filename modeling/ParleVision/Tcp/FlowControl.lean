import ParleVision.Tcp.System

namespace ParleVision.Tcp
open Lib

namespace Connection

theorem sendData_only_place (c : Connection) (caller : Caller) :
    (c.sendData caller).acks = c.acks ∧ (c.sendData caller).acked = c.acked ∧
      (c.sendData caller).queued = c.queued ∧ (c.sendData caller).wire = c.wire := by
  obtain ⟨p, hp⟩ := c.sendData_place caller
  rw [hp]
  exact ⟨rfl, rfl, rfl, rfl⟩

theorem write_adds {c c' : Connection} {caller : Caller} {bytesSent : Int}
    (hw : c.write caller bytesSent = some c') :
    c'.acks = c.acks ∧ c'.acked = c.acked ∧ c'.queued = c.queued ∧ c.wire <+: c'.wire := by
  obtain ⟨f, rest, -, ⟨-, -, rfl⟩ | ⟨-, rfl⟩ | ⟨-, rfl⟩⟩ := write_cases hw
  · obtain ⟨p, hp⟩ := (c.take f rest bytesSent.toNat).loopTest_place caller
    rw [hp]
    exact ⟨rfl, rfl, rfl, List.prefix_append _ _⟩
  · obtain ⟨p, hp⟩ := (c.setWaiting true).sendReturns_place caller
    rw [hp]
    exact ⟨rfl, rfl, rfl, List.prefix_refl _⟩
  · obtain ⟨p, hp⟩ := (c.frameWritten f rest).loopTest_place caller
    rw [hp]
    exact ⟨rfl, rfl, rfl, List.prefix_append _ _⟩

theorem finishQueueFrame_adds (c : Connection) :
    c.finishQueueFrame.acks = c.acks ∧ c.finishQueueFrame.acked = c.acked ∧
      c.finishQueueFrame.queued = c.queued ∧ c.finishQueueFrame.wire = c.wire := by
  rcases c.finishQueueFrame_cases with ⟨-, he⟩ | ⟨-, -, -, he⟩ | ⟨-, -, he⟩
  · rw [he]
    exact ⟨rfl, rfl, rfl, rfl⟩
  · rw [he]
    exact ⟨rfl, rfl, rfl, rfl⟩
  · rw [he]
    exact ⟨rfl, rfl, rfl, rfl⟩

theorem queueFrame_adds {c : Connection} (hc : c.socket = .connected) (frameNumber : UInt32)
    (frameData : Bytes) :
    (c.queueFrame frameNumber frameData).acks = c.acks ∧
      (c.queueFrame frameNumber frameData).acked = c.acked ∧
      (c.queueFrame frameNumber frameData).queued = c.queued ++ [(frameNumber, frameData)] ∧
      (c.queueFrame frameNumber frameData).wire = c.wire := by
  rcases c.queueFrame_cases frameNumber frameData with ⟨hgone, -⟩ | ⟨-, he⟩ | ⟨-, he⟩
  · exact absurd hc hgone
  · rw [he]
    exact sendData_only_place _ _
  · rw [he]
    exact ⟨rfl, rfl, rfl, rfl⟩

/-- The acks that the first frames in flight expect are all taken. -/
theorem ackFrames_expected {c : Connection} {serials rest : List UInt32}
    (h : c.m_frameNumbersInFlight = serials ++ rest) :
    (serials.foldl ackFrame c).m_frameNumbersInFlight = rest ∧
      (serials.foldl ackFrame c).acked = c.acked ++ serials ∧
      (serials.foldl ackFrame c).acks = c.acks ++ serials ∧
      (serials.foldl ackFrame c).queued = c.queued ∧
      (serials.foldl ackFrame c).wire = c.wire := by
  induction serials generalizing c with
  | nil => simpa using h
  | cons serial serials ih =>
    have hhead : c.m_frameNumbersInFlight.head? = some serial := by simp [h]
    have htail : (c.ackFrame serial).m_frameNumbersInFlight = serials ++ rest := by
      obtain ⟨-, -, hrest⟩ := ackFrame_spec c.toServerConnection serial
      refine hrest.trans ?_
      rw [if_pos hhead, h]
      rfl
    have hacks : (c.ackFrame serial).acks = c.acks ++ [serial] := by
      change (c.toServerConnection.ackFrame serial).acks = _
      unfold ServerConnection.ackFrame
      rw [h]
      by_cases hw : c.m_lossless = true ∧ c.m_waiting = true
      · simp [hw]
      · simp [hw]
    have hacked : (c.ackFrame serial).acked = c.acked ++ [serial] := if_pos hhead
    obtain ⟨hf, hd, ha, hq, hw⟩ := ih htail
    rw [hacked] at hd
    rw [hacks] at ha
    refine ⟨hf, ?_, ?_, hq, hw⟩
    · simpa using hd
    · simpa using ha

theorem ackFrames_reached {c₀ c : Connection} (serials : List UInt32)
    (h : Reaches step Undisturbed c₀ c) (hp : c.place = .eventLoop) :
    Reaches step Undisturbed c₀ (serials.foldl ackFrame c) := by
  induction serials generalizing c with
  | nil => exact h
  | cons serial serials ih =>
    apply ih
    · exact .step (.ackFrame serial) h trivial (if_pos hp)
    · exact hp

end Connection

section Streams
variable {V : Type} {S : VariantStream V}

abbrev frameMessage (f : UInt32 × List V) : Message V := .frame f.1 f.2

theorem frameBlock_flatten (fs : List (UInt32 × List V)) :
    (fs.map (frameBlock S)).flatMap Prod.snd = stream S (fs.map frameMessage) := by
  rw [List.flatMap_map, List.flatMap_def, stream, List.map_map]
  rfl

theorem split_frames {fs : List (UInt32 × List V)}
    (hf : ∀ f ∈ fs, (frameMessage f).WellFormed S) :
    blocks.split (stream S (fs.map frameMessage)) =
      (fs.map fun f => (frameMessage f).payload S, []) := by
  have hbound : ∀ m ∈ fs.map frameMessage, (m.payload S).length < 2 ^ 31 := by
    intro m hm
    obtain ⟨f, hmem, rfl⟩ := List.mem_map.mp hm
    exact payload_bound (hf f hmem)
  rw [split_messages hbound, List.map_map]
  rfl

/-- The wire holds the written frames, and a part of another one that is not a whole block. -/
theorem written_stream {c : Connection} (hi : c.Intact) {fs : List (UInt32 × List V)}
    (hf : ∀ f ∈ fs, (frameMessage f).WellFormed S) (hq : c.queued = fs.map (frameBlock S)) :
    ∃ ws : List (UInt32 × List V), c.written = ws.map (frameBlock S) ∧
      (blocks.split c.wire).1 = ws.map (fun f => (frameMessage f).payload S) ∧
      ∃ vs : List (UInt32 × List V), (∀ f ∈ vs, (frameMessage f).WellFormed S) ∧
        (∀ f ∈ ws, f ∈ vs) ∧ c.wire <+: stream S (vs.map frameMessage) := by
  have hinOrder := hi.inOrder
  rw [hq] at hinOrder
  obtain ⟨vs, hvs, hsplit⟩ := List.sublist_map_iff.mp hinOrder
  obtain ⟨ws, us, rfl, hws, hus⟩ := List.append_eq_map_iff.mp hsplit
  have hwf : ∀ f ∈ ws ++ us, (frameMessage f).WellFormed S := fun f h => hf f (hvs.subset h)
  have hwire : c.wire = stream S (ws.map frameMessage) ++ c.unfinished := by
    rw [hi.wire, ← hws, frameBlock_flatten]
  -- the unfinished frame is the first one in the queue
  have hpart : blocks.split c.unfinished = ([], c.unfinished) ∧
      c.unfinished <+: stream S (us.map frameMessage) := by
    cases hc : c.m_frameQueue with
    | nil =>
      have hnil : c.unfinished = [] := by simp [Connection.unfinished, hc]
      rw [hnil]
      exact ⟨blocks.split_short (by decide), List.nil_prefix⟩
    | cons f rest =>
      have hunf : c.unfinished = f.bytes.take f.sent := by simp [Connection.unfinished, hc]
      rw [hc] at hus
      obtain ⟨u, us', rfl, hu, -⟩ := List.map_eq_cons_iff.mp hus
      have hbytes : f.bytes = block ((frameMessage u).payload S) := congrArg Prod.snd hu.symm
      have hbound := payload_bound (hwf u (by simp))
      have hblock : blocks.IsBlock (block ((frameMessage u).payload S))
          ((frameMessage u).payload S) :=
        block_isBlock (by omega)
      have hlt : (f.bytes.take f.sent).length < f.bytes.length := by
        have hpos : 0 < f.bytes.length := by
          simp only [hbytes, block, List.length_append, writeU32_length]
          omega
        have hsent := hi.inPart f (by simp [hc])
        rw [List.length_take]
        omega
      rw [hunf]
      constructor
      · rw [hbytes] at hlt ⊢
        exact hblock.split_prefix (List.take_prefix _ _) hlt
      · have hfirst : f.bytes <+: stream S ((u :: us').map frameMessage) := by
          rw [stream, List.map_cons, List.map_cons, List.flatten_cons, hbytes]
          exact List.prefix_append _ _
        exact (List.take_prefix _ _).trans hfirst
  refine ⟨ws, hws.symm, ?_, ws ++ us, hwf, fun f h => List.mem_append_left _ h, ?_⟩
  · rw [hwire, blocks.split_append, split_frames fun f h => hwf f (List.mem_append_left _ h)]
    simp [hpart.1]
  · have hstream : stream S ((ws ++ us).map frameMessage) =
        stream S (ws.map frameMessage) ++ stream S (us.map frameMessage) := by simp [stream]
    rw [hwire, hstream]
    exact (List.prefix_append_right_inj _).mpr hpart.2

/-- Frames go to the list and are acknowledged. -/
theorem client_gotFrames (fs : List (UInt32 × List V)) (c : TCPClientProducer V) :
    (fs.map frameMessage).foldl TCPClientProducer.got c =
      ⟨c.m_frameList ++ fs.map Prod.snd, c.sent ++ ackStream (fs.map Prod.fst)⟩ := by
  induction fs generalizing c with
  | nil => simp [ackStream]
  | cons f fs ih =>
    rw [List.map_cons, List.foldl_cons, ih]
    simp [TCPClientProducer.got, ackStream]

/-- A client that has read a part of the wire has parsed the first frames written. -/
theorem client_parsed (hS : S.RoundTrips) {ws vs : List (UInt32 × List V)} {bs wire : Bytes}
    (hvs : ∀ f ∈ vs, (frameMessage f).WellFormed S) (hws : ∀ f ∈ ws, f ∈ vs)
    (hsplit : (blocks.split wire).1 = ws.map (fun f => (frameMessage f).payload S))
    (hbs : bs <+: wire) :
    (blocks.split bs).1 = (ws.take (blocks.split bs).1.length).map
        (fun f => (frameMessage f).payload S) ∧
      (settled (TCPClientProducer.handle S) ⟨[], []⟩ bs).1 =
        ⟨(ws.take (blocks.split bs).1.length).map Prod.snd,
          ackStream ((ws.take (blocks.split bs).1.length).map Prod.fst)⟩ := by
  have hprefix := Framing.split_prefix (F := blocks) hbs
  rw [hsplit] at hprefix
  have htake := List.prefix_iff_eq_take.mp hprefix
  rw [← List.map_take] at htake
  refine ⟨htake, ?_⟩
  generalize (blocks.split bs).1.length = k at htake
  have hgot : ∀ m ∈ (ws.take k).map frameMessage, ∀ c,
      deliver (TCPClientProducer.handle S) c (m.payload S) = c.got m := by
    intro m hm c
    obtain ⟨f, hf, rfl⟩ := List.mem_map.mp hm
    exact client_deliver hS (hvs f (hws f (List.mem_of_mem_take hf))) c
  have hdeliver := deliver_payloads ((ws.take k).map frameMessage) hgot ⟨[], []⟩
  rw [settled, htake]
  have hmap : (ws.take k).map (fun f => (frameMessage f).payload S) =
      ((ws.take k).map frameMessage).map (Message.payload S) := by
    rw [List.map_map]
    rfl
  rw [hmap]
  refine hdeliver.trans ?_
  rw [client_gotFrames]
  simp

end Streams

namespace System
variable {V : Type} {S : VariantStream V}

def Valid (S : VariantStream V) (_ : System V) : Event V → Prop
  | .queueFrame frameNumber args => (Message.frame frameNumber args).WellFormed S
  | .write bytesSent => 1 ≤ bytesSent
  | .readData bytesSent => ∀ n ∈ bytesSent, 1 ≤ n
  | .sendData | .finishQueueFrame | .deliverToClient _ | .deliverToServer _ | .readyRead => True

/-- The client's socket takes every ack to its end. -/
def WholeAcks (S : VariantStream V) (s : System V) (e : Event V) : Prop :=
  Valid S s e ∧ ∀ bytesSent, e = .readData bytesSent → ∀ n ∈ bytesSent, n = 12

/-- What the client has made of the bytes it has read, and the server of its own. -/
structure Linked (S : VariantStream V) (lossless : Bool) (maxFrameQueue maxFramesInFlight : Nat)
    (s : System V) : Prop where
  reached : Reaches Connection.step Connection.Undisturbed
    (.started lossless maxFrameQueue maxFramesInFlight) s.server
  frames : ∃ fs : List (UInt32 × List V), (∀ f ∈ fs, (frameMessage f).WellFormed S) ∧
    s.server.queued = fs.map (frameBlock S)
  parsed : ∃ bs d, s.server.wire = bs ++ d ++ s.toClient ∧
    s.client = (settled (TCPClientProducer.handle S) ⟨[], []⟩ bs).1 ∧
    s.clientInbox = (nextBlock (blocks.split bs).2).arrive d
  handled : ∃ bs d, s.client.sent = bs ++ d ++ s.toServer ∧
    s.server.acks = ackSerials bs ∧ s.serverInbox = (nextBlock (blocks.split bs).2).arrive d
  expected : s.server.acked = s.server.acks

variable {lossless : Bool} {maxFrameQueue maxFramesInFlight : Nat} {s s' : System V}

/-- The client has parsed the first of the written frames, and acknowledged these. -/
theorem Linked.client_state (hS : S.RoundTrips)
    (h : s.Linked S lossless maxFrameQueue maxFramesInFlight) :
    ∃ ws vs : List (UInt32 × List V), s.server.written = ws.map (frameBlock S) ∧
      (∀ f ∈ vs, (frameMessage f).WellFormed S) ∧
      s.server.wire <+: stream S (vs.map frameMessage) ∧
      ∀ bs, bs <+: s.server.wire → (blocks.split bs).1.length ≤ ws.length ∧
        (settled (TCPClientProducer.handle S) ⟨[], []⟩ bs).1 =
          ⟨(ws.take (blocks.split bs).1.length).map Prod.snd,
            ackStream ((ws.take (blocks.split bs).1.length).map Prod.fst)⟩ := by
  obtain ⟨fs, hwf, hq⟩ := h.frames
  obtain ⟨ws, hws, hsplit, vs, hvs, hsub, hwire⟩ :=
    written_stream (Connection.delivers h.reached).1.intact hwf hq
  refine ⟨ws, vs, hws, hvs, hwire, fun bs hbs => ⟨?_, (client_parsed hS hvs hsub hsplit hbs).2⟩⟩
  have := (Framing.split_prefix (F := blocks) hbs).length_le
  rw [hsplit, List.length_map] at this
  exact this

theorem start_linked :
    (start lossless maxFrameQueue maxFramesInFlight : System V).Linked S lossless maxFrameQueue
      maxFramesInFlight := by
  have hnil : blocks.split [] = ([], []) := blocks.split_short (by decide)
  refine ⟨.start, ⟨[], fun _ hf => absurd hf List.not_mem_nil, rfl⟩, ⟨[], [], rfl, ?_, ?_⟩,
    ⟨[], [], rfl, ?_, ?_⟩, rfl⟩
  · rw [settled, hnil]
    rfl
  · rw [hnil]
    rfl
  · rw [ackSerials, hnil]
    rfl
  · rw [hnil]
    rfl

theorem Linked.serverStep (h : s.Linked S lossless maxFrameQueue maxFramesInFlight)
    {e : Connection.Event} (hu : s.server.Undisturbed e)
    (hadds : ∀ c, s.server.step e = some c → c.acks = s.server.acks ∧ c.acked = s.server.acked ∧
      s.server.wire <+: c.wire ∧ ∃ fs : List (UInt32 × List V),
        (∀ f ∈ fs, (frameMessage f).WellFormed S) ∧ c.queued = fs.map (frameBlock S))
    (hs : s.serverStep e = some s') :
    s'.Linked S lossless maxFrameQueue maxFramesInFlight := by
  obtain ⟨c, hc, rfl⟩ := Option.map_eq_some_iff.mp hs
  obtain ⟨hacks, hacked, ⟨w, hw⟩, hframes⟩ := hadds c hc
  obtain ⟨bs, d, hwire, hclient, hinbox⟩ := h.parsed
  obtain ⟨rs, rd, hsent, hhandled, hserverInbox⟩ := h.handled
  refine ⟨.step e h.reached hu hc, hframes, ⟨bs, d, ?_, hclient, hinbox⟩,
    ⟨rs, rd, hsent, hacks.trans hhandled, hserverInbox⟩, ?_⟩
  · change c.wire = bs ++ d ++ (s.toClient ++ c.wire.drop s.server.wire.length)
    rw [← hw, List.drop_left', hwire]
    · simp
    · rfl
  · change c.acked = c.acks
    rw [hacks, hacked, h.expected]

theorem arrive_arrive (i : Inbox) (d d' : Bytes) : (i.arrive d).arrive d' = i.arrive (d ++ d') := by
  simp [Inbox.arrive]

/-- The client goes on reading where it was. -/
theorem readData_settled (hS : S.RoundTrips) {vs : List (UInt32 × List V)}
    (hvs : ∀ f ∈ vs, (frameMessage f).WellFormed S) {bs d : Bytes}
    (hp : bs ++ d <+: stream S (vs.map frameMessage)) (c : TCPClientProducer V) :
    (settled (TCPClientProducer.handle S) c bs).1.readData S
        ((nextBlock (blocks.split bs).2).arrive d) =
      settled (TCPClientProducer.handle S) c (bs ++ d) := by
  have hacc : ∀ p ∈ (vs.map frameMessage).map (Message.payload S),
      Accepts (TCPClientProducer.handle S) p := by
    apply accepts_payloads
    intro m hm
    obtain ⟨f, hf, rfl⟩ := List.mem_map.mp hm
    exact client_accepts hS (hvs f hf)
  rw [stream_blocks] at hp
  exact receive_settled c bs d (clean_received hacc ((List.prefix_append _ _).trans hp))
    (clean_received hacc hp)

theorem Linked.readData (hS : S.RoundTrips)
    (h : s.Linked S lossless maxFrameQueue maxFramesInFlight) {bytesSent : List Nat}
    (hall : ∀ n ∈ bytesSent, n = 12) (hs : s.step S (.readData bytesSent) = some s') :
    s'.Linked S lossless maxFrameQueue maxFramesInFlight := by
  simp only [step, Option.ite_none_right_eq_some, Option.some.injEq] at hs
  obtain ⟨⟨hlen, -⟩, rfl⟩ := hs
  obtain ⟨ws, vs, -, hvs, hstream, hstate⟩ := h.client_state hS
  obtain ⟨bs, d, hwire, hclient, hinbox⟩ := h.parsed
  obtain ⟨rs, rd, hsent, hhandled, hserverInbox⟩ := h.handled
  have hbsd : bs ++ d <+: s.server.wire := by
    rw [hwire]
    exact List.prefix_append _ _
  have hread : s.client.readData S s.clientInbox =
      settled (TCPClientProducer.handle S) ⟨[], []⟩ (bs ++ d) := by
    rw [hclient, hinbox]
    exact readData_settled hS hvs (hbsd.trans hstream) _
  have hmore : s.client.sent <+: (s.client.readData S s.clientInbox).1.sent := by
    rw [hread, (hstate _ hbsd).2, hclient, (hstate bs ((List.prefix_append _ _).trans hbsd)).2]
    apply ackStream_prefix
    apply List.IsPrefix.map
    apply List.take_prefix_take_left
    exact (Framing.split_prefix (List.prefix_append bs d)).length_le
  rw [acksTaken_all hlen hall]
  obtain ⟨acks, hacks⟩ := hmore
  refine ⟨h.reached, h.frames, ⟨bs ++ d, [], ?_, ?_, ?_⟩, ⟨rs, rd, ?_, hhandled, hserverInbox⟩,
    h.expected⟩
  · rw [List.append_nil]
    exact hwire
  · exact congrArg Prod.fst hread
  · change (s.client.readData S s.clientInbox).2 = _
    rw [hread]
    simp [settled, Inbox.arrive]
  · change (s.client.readData S s.clientInbox).1.sent =
      rs ++ rd ++ (s.toServer ++ (s.client.readData S s.clientInbox).1.sent.drop _)
    rw [← hacks, List.drop_left', hsent]
    · simp
    · rfl

theorem Linked.readyRead (hS : S.RoundTrips)
    (h : s.Linked S lossless maxFrameQueue maxFramesInFlight)
    (hs : s.step S .readyRead = some s') :
    s'.Linked S lossless maxFrameQueue maxFramesInFlight := by
  simp only [step, Option.ite_none_right_eq_some, Option.some.injEq] at hs
  obtain ⟨hplace, rfl⟩ := hs
  obtain ⟨ws, vs, hws, hvs, -, hstate⟩ := h.client_state hS
  obtain ⟨bs, d, hwire, hclient, hinbox⟩ := h.parsed
  obtain ⟨rs, rd, hsent, hhandled, hserverInbox⟩ := h.handled
  obtain ⟨hk, hst⟩ := hstate bs (by rw [hwire, List.append_assoc]; exact List.prefix_append _ _)
  generalize (blocks.split bs).1.length = k at hk hst
  have hacks : rs ++ rd <+: ackStream ((ws.take k).map Prod.fst) := by
    have hsent' : s.client.sent = ackStream ((ws.take k).map Prod.fst) := by rw [hclient, hst]
    rw [← hsent', hsent]
    exact List.prefix_append _ _
  have hread := readyRead_acks s.server hacks
  rw [← hserverInbox] at hread
  -- the acks handled now are those of the first frames in flight
  obtain ⟨rest, hrest⟩ : ackSerials ((blocks.split rs).2 ++ rd) <+:
      s.server.m_frameNumbersInFlight := by
    have hserials := ackSerials_prefix hacks
    have hwritten := (Connection.delivers h.reached).1.inFlight
    have hfst : (ws.map (frameBlock S)).map Prod.fst = ws.map Prod.fst := by
      rw [List.map_map]
      rfl
    rw [ackSerials_append, ackSerials_ackStream] at hserials
    rw [h.expected, hhandled, hws, hfst] at hwritten
    have hprefix := hserials.trans ((List.take_prefix k ws).map Prod.fst)
    rw [← hwritten] at hprefix
    exact (List.prefix_append_right_inj _).mp hprefix
  obtain ⟨-, hacked, hacks', hqueued, hwire'⟩ := Connection.ackFrames_expected hrest.symm
  refine ⟨?_, ?_, ⟨bs, d, ?_, hclient, hinbox⟩, ⟨rs ++ rd, [], ?_, ?_, ?_⟩, ?_⟩
  · change Reaches _ _ _ (s.server.readyRead s.serverInbox).1
    rw [hread]
    exact Connection.ackFrames_reached _ h.reached hplace
  · change ∃ fs : List (UInt32 × List V), _ ∧ (s.server.readyRead s.serverInbox).1.queued = _
    rw [hread, hqueued]
    exact h.frames
  · change (s.server.readyRead s.serverInbox).1.wire = _
    rw [hread, hwire']
    exact hwire
  · rw [List.append_nil]
    exact hsent
  · change (s.server.readyRead s.serverInbox).1.acks = _
    rw [hread, hacks', hhandled, ackSerials_append rs rd]
  · change (s.server.readyRead s.serverInbox).2 = _
    rw [hread]
    simp [Inbox.arrive]
  · change (s.server.readyRead s.serverInbox).1.acked = (s.server.readyRead s.serverInbox).1.acks
    rw [hread, hacked, hacks', h.expected]

theorem Linked.step (hS : S.RoundTrips) (h : s.Linked S lossless maxFrameQueue maxFramesInFlight)
    {e : Event V} (ha : WholeAcks S s e) (hs : s.step S e = some s') :
    s'.Linked S lossless maxFrameQueue maxFramesInFlight := by
  have hconn := (Connection.delivers h.reached).1.connected
  cases e with
  | queueFrame frameNumber args =>
    have hu : s.server.Undisturbed (.queueFrame frameNumber (frameBlock S (frameNumber, args)).2) :=
      trivial
    refine h.serverStep hu (fun c hc => ?_) hs
    simp only [Connection.step, Option.ite_none_right_eq_some, Option.some.injEq] at hc
    obtain ⟨-, rfl⟩ := hc
    obtain ⟨hacks, hacked, hqueued, hwire⟩ := Connection.queueFrame_adds hconn frameNumber
      (frameBlock S (frameNumber, args)).2
    obtain ⟨fs, hwf, hfs⟩ := h.frames
    refine ⟨hacks, hacked, by simp [hwire], fs ++ [(frameNumber, args)], fun f hf => ?_, ?_⟩
    · cases List.mem_append.mp hf with
      | inl hf => exact hwf f hf
      | inr hf =>
        rw [List.mem_singleton.mp hf]
        exact ha.1
    · rw [hqueued, hfs, List.map_append]
      rfl
  | sendData =>
    have hu : s.server.Undisturbed .sendData := trivial
    refine h.serverStep hu (fun c hc => ?_) hs
    simp only [Connection.step, Option.ite_none_right_eq_some, Option.some.injEq] at hc
    obtain ⟨-, rfl⟩ := hc
    obtain ⟨hacks, hacked, hqueued, hwire⟩ := s.server.sendData_only_place .eventLoop
    exact ⟨hacks, hacked, by simp [hwire], hqueued ▸ h.frames⟩
  | write bytesSent =>
    have hu : s.server.Undisturbed (.write bytesSent) := ha.1
    refine h.serverStep hu (fun c hc => ?_) hs
    cases hp : s.server.place with
    | sendLoop caller =>
      simp only [Connection.step, hp] at hc
      obtain ⟨hacks, hacked, hqueued, hwire⟩ := Connection.write_adds hc
      exact ⟨hacks, hacked, hwire, hqueued ▸ h.frames⟩
    | eventLoop => simp [Connection.step, hp] at hc
    | dropTest => simp [Connection.step, hp] at hc
  | finishQueueFrame =>
    have hu : s.server.Undisturbed .finishQueueFrame := trivial
    refine h.serverStep hu (fun c hc => ?_) hs
    simp only [Connection.step, Option.ite_none_right_eq_some, Option.some.injEq] at hc
    obtain ⟨-, rfl⟩ := hc
    obtain ⟨hacks, hacked, hqueued, hwire⟩ := s.server.finishQueueFrame_adds
    exact ⟨hacks, hacked, by simp [hwire], hqueued ▸ h.frames⟩
  | deliverToClient n =>
    simp only [System.step, Option.some.injEq] at hs
    subst hs
    obtain ⟨bs, d, hwire, hclient, hinbox⟩ := h.parsed
    refine ⟨h.reached, h.frames, ⟨bs, d ++ s.toClient.take n, ?_, hclient, ?_⟩, h.handled,
      h.expected⟩
    · rw [hwire]
      simp
    · change s.clientInbox.arrive _ = _
      rw [hinbox, arrive_arrive]
  | readData bytesSent => exact h.readData hS (ha.2 bytesSent rfl) hs
  | deliverToServer n =>
    simp only [System.step, Option.some.injEq] at hs
    subst hs
    obtain ⟨rs, rd, hsent, hhandled, hinbox⟩ := h.handled
    refine ⟨h.reached, h.frames, h.parsed, ⟨rs, rd ++ s.toServer.take n, ?_, hhandled, ?_⟩,
      h.expected⟩
    · rw [hsent]
      simp
    · change s.serverInbox.arrive _ = _
      rw [hinbox, arrive_arrive]
  | readyRead => exact h.readyRead hS hs

/-- In flight are the frames whose ack is on its way, and then those the client has yet to
parse; no ack that arrives is ignored. -/
theorem flow_control (S : VariantStream V) (hS : S.RoundTrips) (lossless : Bool)
    (maxFrameQueue maxFramesInFlight : Nat) (s : System V)
    (h : Reaches (System.step S) (WholeAcks S) (start lossless maxFrameQueue maxFramesInFlight) s) :
    s.server.m_frameNumbersInFlight =
        (ackSerials s.client.sent).drop s.server.acks.length ++
          (s.server.written.map Prod.fst).drop s.client.m_frameList.length ∧
      s.server.acked = s.server.acks := by
  have hi : s.Linked S lossless maxFrameQueue maxFramesInFlight :=
    h.invariant start_linked fun _ _ _ hi ha hs => hi.step hS ha hs
  refine ⟨?_, hi.expected⟩
  obtain ⟨ws, -, hws, -, -, hstate⟩ := hi.client_state hS
  obtain ⟨bs, d, hwire, hclient, -⟩ := hi.parsed
  obtain ⟨rs, rd, hsent, hhandled, -⟩ := hi.handled
  obtain ⟨hk, hst⟩ := hstate bs (by rw [hwire, List.append_assoc]; exact List.prefix_append _ _)
  generalize (blocks.split bs).1.length = k at hk hst
  have hfst : s.server.written.map Prod.fst = ws.map Prod.fst := by
    rw [hws, List.map_map]
    rfl
  have hframes : s.client.m_frameList.length = k := by
    rw [hclient, hst, List.length_map, List.length_take, min_eq_left hk]
  have hserials : ackSerials s.client.sent = (ws.map Prod.fst).take k := by
    rw [hclient, hst, ackSerials_ackStream, List.map_take]
  have hwritten := (Connection.delivers hi.reached).1.inFlight
  rw [hi.expected, hfst] at hwritten
  have hacks : s.server.acks.length ≤ k := by
    have hprefix : s.server.acks <+: (ws.map Prod.fst).take k := by
      rw [← hserials, hhandled, hsent, List.append_assoc]
      exact ackSerials_prefix (List.prefix_append _ _)
    have := hprefix.length_le
    rw [List.length_take] at this
    omega
  have hdrop : s.server.m_frameNumbersInFlight =
      (ws.map Prod.fst).drop s.server.acks.length := by
    rw [← hwritten, List.drop_left']
    rfl
  rw [hserials, hframes, hfst, hdrop]
  calc (ws.map Prod.fst).drop s.server.acks.length
      = ((ws.map Prod.fst).take k ++ (ws.map Prod.fst).drop k).drop s.server.acks.length := by
        rw [List.take_append_drop]
    _ = ((ws.map Prod.fst).take k).drop s.server.acks.length ++ (ws.map Prod.fst).drop k := by
        apply List.drop_append_of_le_length
        rw [List.length_take, List.length_map]
        omega

/-- Two frames, the second one cut in two, and a first ack that arrives in two parts. -/
theorem flow_control_cut :
    ∃ s : System IntVariant, run (System.step intVariants) (start false 1 2)
        [.queueFrame 1 [.int 1], .write 24, .finishQueueFrame, .queueFrame 2 [.int 2], .write 10,
          .deliverToClient 30, .readData [12], .deliverToServer 7, .write 14, .finishQueueFrame,
          .deliverToServer 5, .readyRead] = some s ∧
      s.server.m_frameNumbersInFlight = [2] ∧ s.server.acks = [1] ∧
      s.server.acked = s.server.acks := by
  have hallowed : ∀ s : System IntVariant, ∀ e ∈ ([.queueFrame 1 [.int 1], .write 24,
      .finishQueueFrame, .queueFrame 2 [.int 2], .write 10, .deliverToClient 30, .readData [12],
      .deliverToServer 7, .write 14, .finishQueueFrame, .deliverToServer 5, .readyRead] :
        List (Event IntVariant)), WholeAcks intVariants s e := by
    intro s
    simp [WholeAcks, Valid, Message.WellFormed, Message.payload, intVariants]
  refine ⟨_, rfl, by decide, by decide, ?_⟩
  exact (flow_control intVariants intVariants_roundTrips false 1 2 _
    (Reaches.of_run (hallowed · · ·) rfl)).2

/-- The socket takes eleven bytes of the first ack, and the server reads another serial. -/
theorem flow_control_shortAck :
    ∃ s : System IntVariant,
      Reaches (System.step intVariants) (Valid intVariants) (start false 1 2) s ∧
      s.server.m_frameNumbersInFlight ≠ (ackSerials s.client.sent).drop s.server.acks.length ++
          (s.server.written.map Prod.fst).drop s.client.m_frameList.length ∧
      s.server.acked ≠ s.server.acks := by
  have hallowed : ∀ s : System IntVariant, ∀ e ∈ ([.queueFrame 1 [.int 1], .write 24,
      .finishQueueFrame, .queueFrame 2 [.int 2], .write 24, .finishQueueFrame,
      .deliverToClient 48, .readData [11, 12], .deliverToServer 23, .readyRead] :
        List (Event IntVariant)), Valid intVariants s e := by
    intro s
    simp [Valid, Message.WellFormed, Message.payload, intVariants]
  have hrun : ∃ s : System IntVariant, run (System.step intVariants) (start false 1 2)
      [.queueFrame 1 [.int 1], .write 24, .finishQueueFrame, .queueFrame 2 [.int 2], .write 24,
        .finishQueueFrame, .deliverToClient 48, .readData [11, 12], .deliverToServer 23,
        .readyRead] = some s ∧
      s.server.m_frameNumbersInFlight = [1, 2] ∧ s.server.acks = [0] ∧ s.server.acked = [] ∧
      s.client.sent = ackStream [1, 2] ∧ s.client.m_frameList.length = 2 ∧
      s.server.written.map Prod.fst = [1, 2] :=
    ⟨_, rfl, by decide, by decide, by decide, by decide, by decide, by decide⟩
  obtain ⟨s, hs, hflight, hacks, hacked, hsent, hframes, hwritten⟩ := hrun
  refine ⟨s, Reaches.of_run (hallowed · · ·) hs, ?_, ?_⟩
  · rw [hflight, hsent, ackSerials_ackStream, hacks, hwritten, hframes]
    decide
  · rw [hacked, hacks]
    decide

end System

end ParleVision.Tcp
