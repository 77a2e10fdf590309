import SelectNet.CommonLib.SelectClientThread
import SelectNet.Foundation.Machine

/-!
# SelectClient_Thread in three threads

One thread is in `SendThread`, one in `RecvThread`, one calls `SendMsg`. A step is
one access to what they share: to `_sock`, `_oMsg`, `_ioSend` or `_sendBuf`, an
operation of `_sendQueue` or of the pool, or `Close` under `_sockMutex`. Between
its steps a thread stands at a point, with its locals.

Of the receiver only its calls of `Close` matter here; the receive queue and the
packages in it are left out, and the pool is that of the send buffers.
-/

namespace SelectNet

/-- Which of its two calls of `ProcessorSend` the sender is in: for a full buffer,
with the room it had read before, or behind the loops. -/
inductive SendCaller where
  | full (canWrite : Int)
  | flush

/-- Where `SendThread` stands: in front of the access that the name says. What
`front` and `pop` return of an empty queue is `none`. -/
inductive SenderPoint where
  | idle
  | enter
  | canWrite
  | select (caller : SendCaller)
  | totalLen (caller : SendCaller) (count : Nat)
  | send (caller : SendCaller) (count : Nat) (totalLen : Int)
  | moveReadPos (caller : SendCaller) (sendLen : Nat)
  | moveDataToFront (caller : SendCaller)
  | queueSize
  | close
  | canRead (canWrite : Int)
  | readBytes (writeLen : Int)
  | writeBytes (data : Option Package) (pos writeLen : Int)
  | advance (writeLen : Int)
  | getBuffer
  | pop
  | free (qmSend : Option QMSend)
  | reset
  | hasData
  | front
  | setBuffer (qmSend : Option QMSend)
  | flush
  | aborted

/-- Where `RecvThread` stands. -/
inductive ReceiverPoint where
  | idle
  | enter
  | receive
  | close

/-- Where the thread that calls `SendMsg` stands. -/
inductive CallerPoint where
  | idle
  | sendMsg (data : List Byte)
  | sendData (data : List Byte)
  | alloc (data : List Byte)
  | push (qmSend : QMSend)

/-- Where the threads stand. -/
structure Points where
  sender : SenderPoint
  receiver : ReceiverPoint
  caller : CallerPoint

/-- The shared members, and the points of the threads. -/
abbrev ClientThreads : Type := Endpoint Points

/-- A step of one of the threads, with what decides it from outside: how the
kernel answers the sender, whether the receiver finds a reason to close, and what
the caller sends. -/
inductive ThreadLabel where
  | sender (answer : SendAnswer)
  | receiver (closes : Bool)
  | caller (data : List Byte)

namespace ClientThreads

/-- A connected client whose threads are outside their calls. -/
def new (sock : Socket) (sendBuf recvBuf package : Memory Byte) : ClientThreads where
  sock
  closesocket := []
  sendQueue := .new
  ioSend := .setBuffer sendBuf clientSendBufferSize
  oMsg := .empty
  memoryPool := .new
  oRecv := .empty
  retainSize := 0
  recvBuf
  package
  test := none
  kernel := []
  ext := ⟨.idle, .idle, .idle⟩

/-- `Close`, without the receive queue. -/
def close (s : ClientThreads) : ClientThreads :=
  if s.sock ≠ invalidSocket then s.shut.clearSendQueue.clearBuffer clientSendBufferSize else s

def sendAt (s : ClientThreads) (sender : SenderPoint) : ClientThreads :=
  { s with ext := { s.ext with sender } }

def recvAt (s : ClientThreads) (receiver : ReceiverPoint) : ClientThreads :=
  { s with ext := { s.ext with receiver } }

def callAt (s : ClientThreads) (caller : CallerPoint) : ClientThreads :=
  { s with ext := { s.ext with caller } }

/-- `IsRun` and the test of `SendThread`. -/
def startSender (s : ClientThreads) (next : SenderPoint) : ClientThreads :=
  if s.sock = invalidSocket then sendAt s .idle else sendAt s next

/-- An action of `ProcessorSend`, or of its caller with what it returned. -/
def processorSend (answer : SendAnswer) (s : ClientThreads) : ClientThreads :=
  match s.ext.sender with
  | .select caller =>
      match answer with
      | .selectFailed => sendAt s .close
      | .notWritable => sendAt s .queueSize
      | .writable count => sendAt s (.totalLen caller count)
  | .totalLen caller count => sendAt s (.send caller count s.ioSend.canRead)
  | .send caller count totalLen =>
      let sendLen := if s.sock = invalidSocket then 0 else min count totalLen.toNat
      let s := { s with kernel := s.kernel ++ [⟨s.ioSend, sendLen⟩] }
      if sendLen = 0 then sendAt s .close else sendAt s (.moveReadPos caller sendLen)
  | .moveReadPos caller sendLen =>
      match s.ioSend.moveReadPos sendLen with
      | none => sendAt s .aborted
      | some ioSend => sendAt { s with ioSend } (.moveDataToFront caller)
  | .moveDataToFront caller =>
      let s := { s with ioSend := s.ioSend.moveDataToFront }
      match caller with
      | .full canWrite => sendAt s (.canRead canWrite)
      | .flush => sendAt s .idle
  | .queueSize =>
      if (clientSendQueueMaxAccumulateCount : Int) < s.sendQueue.size then sendAt s .close
      else sendAt s .idle
  | .close => sendAt (close s) .idle
  | _ => s

/-- An action of the copying: `_oMsg.readBytes(&_ioSend, writeLen)` looks into
`_oMsg`, copies into `_ioSend`, and moves the position of `_oMsg`. -/
def copyBytes (s : ClientThreads) : ClientThreads :=
  match s.ext.sender with
  | .canRead canWrite =>
      let canRead := s.oMsg.canRead
      if canRead ≤ 0 then sendAt s .getBuffer
      else sendAt s (.readBytes (if canRead < canWrite then canRead else canWrite))
  | .readBytes writeLen =>
      if s.oMsg.canRead < writeLen then sendAt s .aborted
      else sendAt s (.writeBytes s.oMsg.buf s.oMsg.pos writeLen)
  | .writeBytes data pos writeLen =>
      let bytes := (OBuffer.mk data pos 0).memory.read pos.toNat writeLen.toNat
      match s.ioSend.writeBytes bytes with
      | none => sendAt s .aborted
      | some ioSend => sendAt { s with ioSend } (.advance writeLen)
  | .advance writeLen => sendAt { s with oMsg := s.oMsg.moveReadPos writeLen } .canWrite
  | _ => s

/-- `Free` of what was popped. -/
def freePopped (s : ClientThreads) (qmSend : Option QMSend) : ClientThreads :=
  match qmSend with
  | none => s
  | some qmSend =>
      { s with memoryPool := s.memoryPool.free qmSend.data.unit (some qmSend.size) }

/-- An action of `SendThread`. -/
def senderStep (answer : SendAnswer) (s : ClientThreads) : ClientThreads :=
  match s.ext.sender with
  | .idle => startSender s .enter
  | .enter => startSender s .canWrite
  | .canWrite =>
      let canWrite := s.ioSend.canWrite
      if canWrite ≤ 0 then sendAt s (.select (.full canWrite)) else sendAt s (.canRead canWrite)
  | .getBuffer => if s.oMsg.buf.isSome then sendAt s .pop else sendAt s .hasData
  | .pop =>
      let (qmSend, sendQueue) := s.sendQueue.pop
      sendAt { s with sendQueue } (.free qmSend)
  | .free qmSend => sendAt (freePopped s qmSend) .reset
  | .reset => sendAt { s with oMsg := .setBuffer none 0 } .hasData
  | .hasData => if s.sendQueue.hasData then sendAt s .front else sendAt s .flush
  | .front => sendAt s (.setBuffer s.sendQueue.front)
  | .setBuffer none => sendAt { s with oMsg := .setBuffer none 0 } .canWrite
  | .setBuffer (some qmSend) =>
      sendAt { s with oMsg := .setBuffer (some qmSend.data) qmSend.size } .canWrite
  | .flush => if 0 < s.ioSend.canRead then sendAt s (.select .flush) else sendAt s .idle
  | .canRead _ | .readBytes _ | .writeBytes _ _ _ | .advance _ => copyBytes s
  | .aborted => s
  | _ => processorSend answer s

def receiverStep (closes : Bool) (s : ClientThreads) : ClientThreads :=
  match s.ext.receiver with
  | .idle => if s.sock = invalidSocket then s else recvAt s .enter
  | .enter => if s.sock = invalidSocket then recvAt s .idle else recvAt s .receive
  | .receive => if closes then recvAt s .close else recvAt s .idle
  | .close => recvAt (close s) .idle

/-- An action of `SendMsg`. Both it and `SendData` test the socket. -/
def callerStep (data : List Byte) (s : ClientThreads) : ClientThreads :=
  match s.ext.caller with
  | .idle => callAt s (.sendMsg data)
  | .sendMsg data => if s.sock = invalidSocket then callAt s .idle else callAt s (.sendData data)
  | .sendData data => if s.sock = invalidSocket then callAt s .idle else callAt s (.alloc data)
  | .alloc data =>
      let (unit, memoryPool) := s.memoryPool.alloc data.length
      callAt { s with memoryPool } (.push ⟨data.length, unit, data⟩)
  | .push qmSend => callAt { s with sendQueue := s.sendQueue.push qmSend } .idle

def step (s : ClientThreads) : ThreadLabel → ClientThreads
  | .sender answer => senderStep answer s
  | .receiver closes => receiverStep closes s
  | .caller data => callerStep data s

/-- Any interleaving of the threads' actions. -/
def machine : Machine ClientThreads ThreadLabel where
  initial s := ∃ sock sendBuf recvBuf package, sock ≠ invalidSocket ∧
    s = new sock sendBuf recvBuf package
  step s label next := next = step s label

end ClientThreads

end SelectNet
