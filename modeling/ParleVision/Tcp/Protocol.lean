import ParleVision.Tcp.Reader

namespace ParleVision.Tcp
open Lib

def PROTO_FRAME : UInt32 := 0
def PROTO_INIT : UInt32 := 1
def PROTO_ACK : UInt32 := 3

/-- QDataStream's operators for a QVariant and `QVariant::isValid`. -/
structure VariantStream (V : Type) where
  write : V → Bytes
  read : Bytes → V × Bytes
  isValid : V → Bool

def VariantStream.RoundTrips (S : VariantStream V) : Prop :=
  ∀ v rest, S.read (S.write v ++ rest) = (v, rest)

/-- The int expression `m_blockSize - n * sizeof(quint32)`, computed as a
size_t and passed as an int. -/
def skipLength (m_blockSize : Int) (n : Int) : Int := (m_blockSize - n).bmod (2 ^ 32)

/-- Set by the constructor and never written again. -/
def m_configured : Bool := true

structure TCPClientProducer (V : Type) where
  m_frameList : List (List V)
  /-- the bytes written to the socket -/
  sent : Bytes

/-- The block `TCPClientProducer::ackFrame` writes, header included. -/
def ackBlock (frameNumber : UInt32) : Bytes :=
  writeU32 (2 * 4) ++ writeU32 PROTO_ACK ++ writeU32 frameNumber

def TCPClientProducer.ackFrame (c : TCPClientProducer V) (frameNumber : UInt32) :
    TCPClientProducer V :=
  { c with sent := c.sent ++ ackBlock frameNumber }

/-- The loop over the arguments in `parseFrame`; an invalid variant ends it at once. -/
def parseArgs (S : VariantStream V) : Nat → Bytes → Option (List V) × Bytes
  | 0, bs => (some [], bs)
  | n + 1, bs =>
    let v := S.read bs
    if S.isValid v.1 then
      let r := parseArgs S n v.2
      (r.1.map (v.1 :: ·), r.2)
    else (none, v.2)

def parseFrame (S : VariantStream V) (c : TCPClientProducer V) (i : Inbox) :
    TCPClientProducer V × Bytes :=
  let serial := readU32 i.unread
  let numargs := readU32 serial.2
  if numargs.1 < 1 then
    (c, skipRawData (skipLength i.m_blockSize (2 * 4)) numargs.2)
  else
    match parseArgs S numargs.1.toNat numargs.2 with
    | (none, bs) => (c, bs)
    | (some frame, bs) =>
      let c := c.ackFrame serial.1
      ({ c with m_frameList := c.m_frameList ++ [frame] }, bs)

/-- The `switch( opcode )` of `TCPClientProducer::readData`. -/
def TCPClientProducer.handle (S : VariantStream V) (c : TCPClientProducer V) (opcode : UInt32)
    (i : Inbox) : TCPClientProducer V × Bytes :=
  if opcode = PROTO_INIT then (c, i.unread)
  else if opcode = PROTO_FRAME then
    if m_configured then parseFrame S c i else (c, i.unread)
  else (c, skipRawData (skipLength i.m_blockSize 4) i.unread)

def TCPClientProducer.readData (S : VariantStream V) (c : TCPClientProducer V) (i : Inbox) :
    TCPClientProducer V × Inbox :=
  if m_configured then readMessages (TCPClientProducer.handle S) c i
  else (c, (awaitBlock i).1)

def TCPClientProducer.receive (S : VariantStream V) (c : TCPClientProducer V × Inbox)
    (chunk : Bytes) : TCPClientProducer V × Inbox :=
  c.1.readData S ⟨c.2.m_blockSize, c.2.unread ++ chunk⟩

/-- The part of a ServerConnection that acknowledgements reach. -/
structure ServerConnection where
  m_waiting : Bool
  m_lossless : Bool
  m_frameNumbersInFlight : List UInt32
  /-- the serials `ackFrame` was called with -/
  acks : List UInt32
  /-- the values `waitingOnClient` was emitted with -/
  waitingOnClient : List Bool

def ServerConnection.ackFrame (c : ServerConnection) (serial : UInt32) : ServerConnection :=
  let c := { c with acks := c.acks ++ [serial] }
  match c.m_frameNumbersInFlight with
  | [] => c
  | expectedSerial :: rest =>
    let c := if expectedSerial = serial then { c with m_frameNumbersInFlight := rest } else c
    if c.m_lossless ∧ c.m_waiting then
      { c with m_waiting := false, waitingOnClient := c.waitingOnClient ++ [false] }
    else c

/-- The `switch( opcode )` of `ServerConnection::readyRead`. -/
def ServerConnection.handle (c : ServerConnection) (opcode : UInt32) (i : Inbox) :
    ServerConnection × Bytes :=
  if opcode = PROTO_ACK then
    let serial := readU32 i.unread
    (c.ackFrame serial.1, serial.2)
  else (c, skipRawData (skipLength i.m_blockSize 4) i.unread)

def ServerConnection.readyRead (c : ServerConnection) (i : Inbox) : ServerConnection × Inbox :=
  readMessages ServerConnection.handle c i

def ServerConnection.receive (c : ServerConnection × Inbox) (chunk : Bytes) :
    ServerConnection × Inbox :=
  c.1.readyRead ⟨c.2.m_blockSize, c.2.unread ++ chunk⟩

inductive Message (V : Type) where
  | frame (serial : UInt32) (args : List V)
  | ack (serial : UInt32)

/-- The bytes behind the length, as `TCPServerProcessor::process` and
`TCPClientProducer::ackFrame` write them. -/
def Message.payload (S : VariantStream V) : Message V → Bytes
  | .frame serial args =>
    writeU32 PROTO_FRAME ++ writeU32 serial ++ writeU32 (UInt32.ofNat args.length) ++
      args.flatMap S.write
  | .ack serial => writeU32 PROTO_ACK ++ writeU32 serial

/-- At least one argument, each a valid variant (the client calls any other
frame not correct), inside the limits of a QList and a QByteArray. -/
def Message.WellFormed (S : VariantStream V) : Message V → Prop
  | .frame serial args =>
    args ≠ [] ∧ (∀ v ∈ args, S.isValid v = true) ∧ args.length < 2 ^ 31 ∧
      ((Message.frame serial args).payload S).length < 2 ^ 31
  | .ack _ => True

def stream (S : VariantStream V) (ms : List (Message V)) : Bytes :=
  (ms.map fun m => block (m.payload S)).flatten

/-- What one message means to the client. -/
def TCPClientProducer.got (c : TCPClientProducer V) : Message V → TCPClientProducer V
  | .frame serial args =>
    { c with m_frameList := c.m_frameList ++ [args], sent := c.sent ++ ackBlock serial }
  | .ack _ => c

def ServerConnection.got (c : ServerConnection) : Message V → ServerConnection
  | .frame _ _ => c
  | .ack serial => c.ackFrame serial

end ParleVision.Tcp
