import ParleVision.Tcp.Delivery

namespace ParleVision.Tcp
open Lib

/-- The `switch( opcode )` of `readyRead`, for a connection with its frames. -/
def Connection.handle (c : Connection) (opcode : UInt32) (i : Inbox) : Connection × Bytes :=
  if opcode = PROTO_ACK then
    let serial := readU32 i.unread
    (c.ackFrame serial.1, serial.2)
  else (c, skipRawData (skipLength i.m_blockSize 4) i.unread)

def Connection.readyRead (c : Connection) (i : Inbox) : Connection × Inbox :=
  readMessages Connection.handle c i

def Inbox.arrive (i : Inbox) (bytes : Bytes) : Inbox := ⟨i.m_blockSize, i.unread ++ bytes⟩

/-- A connection, its client, and the bytes on their way between the two. -/
structure System (V : Type) where
  server : Connection
  serverInbox : Inbox
  client : TCPClientProducer V
  clientInbox : Inbox
  toClient : Bytes
  toServer : Bytes

/-- The frame that `TCPServerProcessor::process` broadcasts. -/
def frameBlock (S : VariantStream V) (f : UInt32 × List V) : Block :=
  (f.1, block ((Message.frame f.1 f.2).payload S))

/-- What the client's socket takes when `ackFrame` writes one ack after the other; `ackFrame`
does not look for the rest. -/
def acksTaken : List Nat → Bytes → Bytes
  | [], _ => []
  | bytesSent :: later, acks => (acks.take 12).take bytesSent ++ acksTaken later (acks.drop 12)

namespace System

def start (lossless : Bool) (maxFrameQueue maxFramesInFlight : Nat) : System V where
  server := .started lossless maxFrameQueue maxFramesInFlight
  serverInbox := ⟨0, []⟩
  client := ⟨[], []⟩
  clientInbox := ⟨0, []⟩
  toClient := []
  toServer := []

inductive Event (V : Type) where
  | queueFrame (frameNumber : UInt32) (args : List V)
  | sendData
  | write (bytesSent : Int)
  | finishQueueFrame
  | deliverToClient (n : Nat)
  | readData (bytesSent : List Nat)
  | deliverToServer (n : Nat)
  | readyRead

/-- What the connection writes is on its way to the client. -/
def serverStep (s : System V) (e : Connection.Event) : Option (System V) :=
  (s.server.step e).map fun c =>
    { s with server := c, toClient := s.toClient ++ c.wire.drop s.server.wire.length }

def step (S : VariantStream V) (s : System V) : Event V → Option (System V)
  | .queueFrame frameNumber args =>
    s.serverStep (.queueFrame frameNumber (frameBlock S (frameNumber, args)).2)
  | .sendData => s.serverStep .sendData
  | .write bytesSent => s.serverStep (.write bytesSent)
  | .finishQueueFrame => s.serverStep .finishQueueFrame
  | .deliverToClient n =>
    some { s with clientInbox := s.clientInbox.arrive (s.toClient.take n)
                  toClient := s.toClient.drop n }
  | .readData bytesSent =>
    let r := s.client.readData S s.clientInbox
    let acks := r.1.sent.drop s.client.sent.length
    if 12 * bytesSent.length = acks.length ∧ ∀ n ∈ bytesSent, n ≤ 12 then
      some { s with client := r.1, clientInbox := r.2
                    toServer := s.toServer ++ acksTaken bytesSent acks }
    else none
  | .deliverToServer n =>
    some { s with serverInbox := s.serverInbox.arrive (s.toServer.take n)
                  toServer := s.toServer.drop n }
  | .readyRead =>
    if s.server.place = .eventLoop then
      let r := s.server.readyRead s.serverInbox
      some { s with server := r.1, serverInbox := r.2 }
    else none

end System

def ackSerials (bs : Bytes) : List UInt32 :=
  (blocks.split bs).1.map fun payload => (readU32 (payload.drop 4)).1

section Acks
variable {V : Type}

theorem acksTaken_all {bytesSent : List Nat} {acks : Bytes}
    (hlen : 12 * bytesSent.length = acks.length) (hall : ∀ n ∈ bytesSent, n = 12) :
    acksTaken bytesSent acks = acks := by
  induction bytesSent generalizing acks with
  | nil =>
    have hnil : acks = [] := List.length_eq_zero_iff.mp hlen.symm
    exact hnil.symm
  | cons n later ih =>
    have hn : n = 12 := hall n (by simp)
    subst hn
    have hlater : 12 * later.length = (acks.drop 12).length := by
      simp only [List.length_cons, List.length_drop] at hlen ⊢
      omega
    have htail := ih hlater fun m hm => hall m (by simp [hm])
    rw [acksTaken, htail, List.take_take, min_self]
    exact List.take_append_drop 12 acks

def ackStream (serials : List UInt32) : Bytes := serials.flatMap ackBlock

theorem ackStream_prefix {serials serials' : List UInt32} (h : serials <+: serials') :
    ackStream serials <+: ackStream serials' := by
  obtain ⟨rest, rfl⟩ := h
  rw [ackStream, ackStream, List.flatMap_append]
  exact List.prefix_append _ _

def ackPayload (serial : UInt32) : Bytes := writeU32 PROTO_ACK ++ writeU32 serial

theorem ackStream_blocks (serials : List UInt32) :
    ackStream serials = ((serials.map ackPayload).map block).flatten := by
  rw [ackStream, List.flatMap_def, List.map_map]
  rfl

theorem split_ackStream (serials : List UInt32) :
    blocks.split (ackStream serials) = (serials.map ackPayload, []) := by
  rw [ackStream_blocks]
  apply split_blocks
  intro p hp
  obtain ⟨serial, -, rfl⟩ := List.mem_map.mp hp
  simp [ackPayload]

theorem serial_ackPayload (serial : UInt32) : (readU32 ((ackPayload serial).drop 4)).1 = serial := by
  have h := readU32_writeU32 serial []
  rw [List.append_nil] at h
  have hdrop : (ackPayload serial).drop 4 = writeU32 serial := rfl
  rw [hdrop, h]

theorem ackSerials_ackStream (serials : List UInt32) : ackSerials (ackStream serials) = serials := by
  rw [ackSerials, split_ackStream, List.map_map]
  exact (List.map_congr_left fun serial _ => serial_ackPayload serial).trans (List.map_id serials)

theorem ackSerials_append (bs more : Bytes) :
    ackSerials (bs ++ more) = ackSerials bs ++ ackSerials ((blocks.split bs).2 ++ more) := by
  unfold ackSerials
  rw [blocks.split_append, List.map_append]

theorem ackSerials_prefix {bs bs' : Bytes} (h : bs <+: bs') : ackSerials bs <+: ackSerials bs' :=
  (Framing.split_prefix h).map _

theorem connection_handle_ack (c : Connection) (serial : UInt32) (rest : Bytes) :
    c.handle (readU32 (ackPayload serial)).1
      ⟨(ackPayload serial).length, (readU32 (ackPayload serial)).2 ++ rest⟩ =
      (c.ackFrame serial, rest) := by
  simp [ackPayload, Connection.handle]

theorem connection_deliver_ack (c : Connection) (serial : UInt32) :
    deliver Connection.handle c (ackPayload serial) = c.ackFrame serial := by
  have h := connection_handle_ack c serial []
  rw [List.append_nil] at h
  rw [deliver, h]

theorem connection_accepts_ack (serial : UInt32) :
    Accepts Connection.handle (ackPayload serial) where
  opcode := by simp [ackPayload]
  bound := by simp [ackPayload]
  exact c rest := by rw [connection_handle_ack, connection_deliver_ack]

/-- What `readyRead` does with what has arrived of a stream of acks. -/
theorem readyRead_acks (c : Connection) {serials : List UInt32} {bs d : Bytes}
    (hp : bs ++ d <+: ackStream serials) :
    c.readyRead ((nextBlock (blocks.split bs).2).arrive d) =
      ((ackSerials ((blocks.split bs).2 ++ d)).foldl Connection.ackFrame c,
        nextBlock (blocks.split (bs ++ d)).2) := by
  have hacc : ∀ p ∈ serials.map ackPayload, Accepts Connection.handle p := by
    intro p hp
    obtain ⟨serial, -, rfl⟩ := List.mem_map.mp hp
    exact connection_accepts_ack serial
  rw [ackStream_blocks] at hp
  have hbs := clean_received hacc ((List.prefix_append _ _).trans hp)
  have happ := blocks.split_append bs d
  have hclean : Clean Connection.handle ((blocks.split bs).2 ++ d) := by
    obtain ⟨hw, ha⟩ := clean_received hacc hp
    rw [happ] at hw ha
    exact ⟨fun m hm => hw m (List.mem_append_right _ hm), ha⟩
  have hread := readMessages_settled c hclean (awaitBlock_resume d hbs.announced)
  have hparts : ∀ p ∈ (blocks.split ((blocks.split bs).2 ++ d)).1,
      ∃ serial, p = ackPayload serial := by
    intro p hmem
    have hall := Framing.split_prefix (F := blocks) hp
    rw [← ackStream_blocks, split_ackStream, happ] at hall
    obtain ⟨serial, -, rfl⟩ := List.mem_map.mp (hall.subset (List.mem_append_right _ hmem))
    exact ⟨serial, rfl⟩
  refine hread.trans ?_
  rw [settled, happ]
  refine Prod.ext ?_ rfl
  change List.foldl _ _ _ = List.foldl _ _ _
  rw [ackSerials, List.foldl_map]
  apply List.foldl_ext
  intro c p hmem
  obtain ⟨serial, rfl⟩ := hparts p hmem
  rw [connection_deliver_ack, serial_ackPayload]

end Acks

end ParleVision.Tcp
