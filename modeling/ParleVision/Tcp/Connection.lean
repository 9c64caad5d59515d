import ParleVision.Lib.Run
import ParleVision.Tcp.Protocol

namespace ParleVision.Tcp
open Lib

/-- A frame in `m_frameQueue`, with the number of its bytes that were written. -/
structure Frame where
  serial : UInt32
  bytes : Bytes
  sent : Nat
  deriving DecidableEq, Repr

abbrev Block := UInt32 × Bytes

def Frame.block (f : Frame) : Block := (f.serial, f.bytes)

/-- `m_tcpSocket` is 0 before `start()` and after `disconnected()`. -/
inductive Socket where
  | absent
  | connected
  /-- in another state than ConnectedState -/
  | closing
  | gone
  deriving DecidableEq, Repr

/-- `sendData` is a slot and is called by `queueFrame`. -/
inductive Caller where
  | eventLoop
  | queueFrame
  deriving DecidableEq, Repr

inductive Place where
  | eventLoop
  /-- about to write, in the loop of `sendData` -/
  | sendLoop (caller : Caller)
  /-- in `queueFrame`, behind `sendData` -/
  | dropTest
  deriving DecidableEq, Repr

structure Connection extends ServerConnection where
  m_maxFramesInQueue : Nat
  m_maxFramesInFlight : Nat
  m_frameQueue : List Frame
  socket : Socket
  place : Place
  /-- all bytes the socket has taken -/
  wire : Bytes
  /-- the frames that were queued, the ones written to their end, and the acks that were
  not ignored -/
  queued : List Block
  written : List Block
  acked : List UInt32

namespace Connection

def new (lossless : Bool) (maxFrameQueue maxFramesInFlight : Nat) : Connection where
  m_waiting := false
  m_lossless := lossless
  m_frameNumbersInFlight := []
  acks := []
  waitingOnClient := []
  m_maxFramesInQueue := maxFrameQueue
  m_maxFramesInFlight := maxFramesInFlight
  m_frameQueue := []
  socket := .absent
  place := .eventLoop
  wire := []
  queued := []
  written := []
  acked := []

/-- `m_waiting = waiting; emit waitingOnClient(this, m_waiting);` -/
def setWaiting (c : Connection) (waiting : Bool) : Connection :=
  { c with m_waiting := waiting, waitingOnClient := c.waitingOnClient ++ [waiting] }

def sendReturns (c : Connection) : Caller → Connection
  | .eventLoop => { c with place := .eventLoop }
  | .queueFrame => { c with place := .dropTest }

/-- The condition of the `while` in `sendData`, when nothing overflowed. -/
def loopTest (c : Connection) (caller : Caller) : Connection :=
  if c.m_frameNumbersInFlight.length ≥ c.m_maxFramesInFlight ∨ c.m_frameQueue = [] then
    c.sendReturns caller
  else { c with place := .sendLoop caller }

def sendData (c : Connection) (caller : Caller) : Connection :=
  if c.socket ≠ .connected then c.sendReturns caller
  else if c.m_waiting then c.sendReturns caller
  else c.loopTest caller

def take (c : Connection) (f : Frame) (rest : List Frame) (bytesSent : Nat) : Connection :=
  { c with m_frameQueue := { f with sent := f.sent + bytesSent } :: rest
           wire := c.wire ++ (f.bytes.drop f.sent).take bytesSent }

/-- `m_frameNumbersInFlight.append(f.serial); m_frameQueue.removeFirst();` -/
def frameWritten (c : Connection) (f : Frame) (rest : List Frame) : Connection :=
  { c with m_frameNumbersInFlight := c.m_frameNumbersInFlight ++ [f.serial]
           m_frameQueue := rest
           wire := c.wire ++ f.bytes.drop f.sent
           written := c.written ++ [f.block] }

/-- One turn of the loop, with what `m_tcpSocket->write` returned for the rest of the
first frame, which is all of it when `f.sent == 0`. -/
def write (c : Connection) (caller : Caller) (bytesSent : Int) : Option Connection :=
  match c.m_frameQueue with
  | [] => none
  | f :: rest =>
    let len := f.bytes.length - f.sent
    if bytesSent < -1 ∨ bytesSent > len then none
    else if bytesSent < len then
      if bytesSent ≠ -1 then some ((c.take f rest bytesSent.toNat).loopTest caller)
      else some ((c.setWaiting true).sendReturns caller)
    else some ((c.frameWritten f rest).loopTest caller)

/-- Up to the return of `sendData`. -/
def queueFrame (c : Connection) (frameNumber : UInt32) (frameData : Bytes) : Connection :=
  if c.socket = .absent ∨ c.socket = .gone then c
  else
    let c : Connection :=
      { c with m_frameQueue := c.m_frameQueue ++ [Frame.mk frameNumber frameData 0]
               queued := c.queued ++ [(frameNumber, frameData)] }
    if c.m_frameNumbersInFlight.length < c.m_maxFramesInFlight then c.sendData .queueFrame
    else { c with place := .dropTest }

/-- The rest of `queueFrame`: a lossless connection asks the server to throttle, any other
one drops the oldest frame. -/
def finishQueueFrame (c : Connection) : Connection :=
  let c : Connection := { c with place := .eventLoop }
  if c.m_frameQueue.length > c.m_maxFramesInQueue then
    if c.m_lossless then
      if c.m_waiting then c else c.setWaiting true
    else { c with m_frameQueue := c.m_frameQueue.tail }
  else c

def ackFrame (c : Connection) (serial : UInt32) : Connection :=
  { c with
    toServerConnection := c.toServerConnection.ackFrame serial
    acked := if c.m_frameNumbersInFlight.head? = some serial then c.acked ++ [serial]
      else c.acked }

inductive Event where
  | start
  | closing
  | disconnected
  | queueFrame (frameNumber : UInt32) (frameData : Bytes)
  | sendData
  | write (bytesSent : Int)
  | finishQueueFrame
  | ackFrame (serial : UInt32)
  | setMaxFrameQueue (max : Nat)
  | setMaxFramesInFlight (max : Nat)
  | setLossless (lossless : Bool)
  deriving DecidableEq, Repr

/-- Slots are called by the event loop, one after the other. -/
def step (c : Connection) : Event → Option Connection
  | .start =>
    if c.place = .eventLoop ∧ c.socket = .absent then some { c with socket := .connected }
    else none
  | .closing =>
    if c.place = .eventLoop ∧ c.socket = .connected then some { c with socket := .closing }
    else none
  | .disconnected =>
    if c.place = .eventLoop ∧ (c.socket = .connected ∨ c.socket = .closing) then
      some { c with socket := .gone }
    else none
  | .queueFrame frameNumber frameData =>
    if c.place = .eventLoop then some (c.queueFrame frameNumber frameData) else none
  | .sendData => if c.place = .eventLoop then some (c.sendData .eventLoop) else none
  | .write bytesSent =>
    match c.place with
    | .sendLoop caller => c.write caller bytesSent
    | .eventLoop | .dropTest => none
  | .finishQueueFrame => if c.place = .dropTest then some c.finishQueueFrame else none
  | .ackFrame serial => if c.place = .eventLoop then some (c.ackFrame serial) else none
  | .setMaxFrameQueue max =>
    if c.place = .eventLoop then some { c with m_maxFramesInQueue := max } else none
  | .setMaxFramesInFlight max =>
    if c.place = .eventLoop then some { c with m_maxFramesInFlight := max } else none
  | .setLossless lossless =>
    if c.place = .eventLoop then some { c with m_lossless := lossless } else none

end Connection

end ParleVision.Tcp
