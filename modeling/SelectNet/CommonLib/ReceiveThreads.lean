import SelectNet.CommonLib.SelectClientThread
import SelectNet.Foundation.Machine

/-!
# SelectClient_Thread: receiving in one thread, OnRun in another

One thread is in `RecvThread`, one in `OnRun`, and any thread may `Close`. A step
is one access to what they share: to `_sock`, `_oRecv`, `_recvBuf` or `_retainSize`,
an operation of `_recvQueue` or of the pool, or `Close` under `_sockMutex`. Of the
threads that send, only their calls of `Close` matter here.
-/

namespace SelectNet

/-- Where `RecvThread` stands: in front of the access that the name says, with its
locals. -/
inductive ReceivePoint where
  | idle
  | enter
  | select
  | recv
  | setBuffer (nlen : Nat)
  | resetRetain
  | canRead
  | readUShort (canReadSize : Int)
  | moveBack (canReadSize : Int) (msgLen : Nat)
  | alloc (msgLen : Nat)
  | readBytes (unit msgLen : Nat)
  | push (package : Package)
  | queueSize
  | moveDataToFront
  | retainSize
  | close
  | aborted

/-- Where `OnRun` stands. What `pop` returns of an empty queue is `none`. -/
inductive OnRunPoint where
  | idle
  | enter
  | hasData
  | pop
  | copy (msg : Option Package)
  | free (msg : Package)
  | onRecvMsg
  | aborted

/-- The client, where the two threads stand, and all that `recv` has stored. -/
structure ReceiveThreads where
  client : SelectClientThread
  receiver : ReceivePoint
  handler : OnRunPoint
  received : List Byte

/-- A step of one of the threads, with how the kernel answers the receiver. -/
inductive ReceiveLabel where
  | receiver (answer : ReadAnswer)
  | handler
  | close

namespace ReceiveThreads

/-- A connected client whose threads are outside their calls. -/
def new (sock : Socket) (sendBuf recvBuf package : Memory Byte) : ReceiveThreads where
  client := { SelectClientThread.new sendBuf recvBuf package none with sock }
  receiver := .idle
  handler := .idle
  received := []

def recvAt (s : ReceiveThreads) (receiver : ReceivePoint) : ReceiveThreads := { s with receiver }

def runAt (s : ReceiveThreads) (handler : OnRunPoint) : ReceiveThreads := { s with handler }

/-- `recv`, where `select` said that there is something. -/
def recv (s : ReceiveThreads) (answer : RecvAnswer) : ReceiveThreads :=
  let bytes := answer.received s.client.sock (clientRecvBufferSize - s.client.retainSize)
  if bytes = [] then recvAt s .close
  else { s with
    client := { s.client with recvBuf := s.client.recvBuf.write s.client.retainSize.toNat bytes }
    receiver := .setBuffer bytes.length
    received := s.received ++ bytes }

/-- `_oRecv.readBytes(package, msgLen)`. There is nothing to read at a null pointer. -/
def readBytes (s : ReceiveThreads) (unit msgLen : Nat) : ReceiveThreads :=
  if s.client.oRecv.buf = none ∧ 0 < msgLen then recvAt s .aborted
  else match s.client.oRecv.readBytes msgLen with
    | none => recvAt s .aborted
    | some (bytes, oRecv) => { s with
        client := { s.client with oRecv }
        receiver := .push ⟨unit, bytes⟩ }

/-- `_oRecv.moveDataToFront()`, which moves the bytes of `_recvBuf`. -/
def moveDataToFront (s : ReceiveThreads) : ReceiveThreads :=
  if s.client.oRecv.buf = none ∧ 0 < s.client.oRecv.canRead then recvAt s .aborted
  else
    let oRecv := s.client.oRecv.moveDataToFront
    { s with
      client := { s.client with oRecv, recvBuf := oRecv.buf.getD s.client.recvBuf }
      receiver := .retainSize }

/-- An action of `ProcessorRecv`, from the end of its `recv` to its `return 0`. -/
def processorRecv (s : ReceiveThreads) : ReceiveThreads :=
  match s.receiver with
  | .setBuffer nlen => { s with
      client := { s.client with
        oRecv := .setBuffer (some s.client.recvBuf) (nlen + s.client.retainSize) }
      receiver := .resetRetain }
  | .resetRetain => { s with client := { s.client with retainSize := 0 }, receiver := .canRead }
  | .canRead =>
      let canReadSize := s.client.oRecv.canRead
      if 0 ≤ canReadSize ∧ canReadSize < MsgHead.sizeof then recvAt s .moveDataToFront
      else recvAt s (.readUShort canReadSize)
  | .readUShort canReadSize =>
      match s.client.oRecv.readUShort with
      | none => recvAt s .aborted
      | some (msgLen, oRecv) =>
          if packageMaxSize < msgLen then recvAt s .aborted
          else { s with
            client := { s.client with oRecv }
            receiver := .moveBack canReadSize msgLen }
  | .moveBack canReadSize msgLen =>
      let s := { s with client := { s.client with oRecv := s.client.oRecv.moveReadPos (-2) } }
      if canReadSize < msgLen then recvAt s .moveDataToFront else recvAt s (.alloc msgLen)
  | .alloc msgLen =>
      let (unit, memoryPool) := s.client.memoryPool.alloc msgLen
      { s with client := { s.client with memoryPool }, receiver := .readBytes unit msgLen }
  | .readBytes unit msgLen => readBytes s unit msgLen
  | .push package => { s with
      client := { s.client with ext := { s.client.ext with
        recvQueue := s.client.ext.recvQueue.push package } }
      receiver := .queueSize }
  | .queueSize =>
      if (clientRecvQueueMaxAccumulateCount : Int) < s.client.ext.recvQueue.size then
        recvAt s .close
      else recvAt s .canRead
  | .moveDataToFront => moveDataToFront s
  | .retainSize => { s with
      client := { s.client with retainSize := s.client.oRecv.canRead }
      receiver := .idle }
  | _ => s

/-- An action of `RecvThread`. -/
def receiverStep (answer : ReadAnswer) (s : ReceiveThreads) : ReceiveThreads :=
  match s.receiver with
  | .idle => if s.client.sock = invalidSocket then s else recvAt s .enter
  | .enter => if s.client.sock = invalidSocket then recvAt s .idle else recvAt s .select
  | .select =>
      match answer with
      | .selectFailed => recvAt s .close
      | .notReadable => recvAt s .idle
      | .readable _ => recvAt s .recv
  | .recv =>
      match answer with
      | .readable answer => recv s answer
      | _ => recvAt s .close
  | .close => { s with client := s.client.close, receiver := .idle }
  | .aborted => s
  | _ => processorRecv s

/-- An action of `OnRun`. `memcpy` is defined only if the header was written and what
it says lies within both arrays. -/
def handlerStep (s : ReceiveThreads) : ReceiveThreads :=
  match s.handler with
  | .idle => if s.client.sock = invalidSocket then s else runAt s .enter
  | .enter => if s.client.sock = invalidSocket then runAt s .idle else runAt s .hasData
  | .hasData =>
      if s.client.ext.recvQueue.hasData then runAt s .pop else runAt s .idle
  | .pop =>
      let (msg, recvQueue) := s.client.ext.recvQueue.pop
      { s with
        client := { s.client with ext := { s.client.ext with recvQueue } }
        handler := .copy msg }
  | .copy none => runAt s .aborted
  | .copy (some msg) =>
      match msg.msgSize with
      | none => runAt s .aborted
      | some size =>
          if packageMaxSize < size ∨ msg.bytes.length < size then runAt s .aborted
          else { s with
            client := { s.client with
              package := fillPackage s.client.package ((CharData.bytes msg).read 0 size) }
            handler := .free msg }
  | .free msg => { s with
      client := { s.client with memoryPool := s.client.memoryPool.free msg.unit msg.msgSize }
      handler := .onRecvMsg }
  | .onRecvMsg => { s with
      client := { s.client with ext := { s.client.ext with
        delivered := s.client.ext.delivered ++ [s.client.package.read 0 packageMaxSize] } }
      handler := .hasData }
  | .aborted => s

def step (s : ReceiveThreads) : ReceiveLabel → ReceiveThreads
  | .receiver answer => receiverStep answer s
  | .handler => handlerStep s
  | .close => { s with client := s.client.close }

/-- Any interleaving of the threads' actions. -/
def machine : Machine ReceiveThreads ReceiveLabel where
  initial s := ∃ sock sendBuf recvBuf package, sock ≠ invalidSocket ∧
    s = new sock sendBuf recvBuf package
  step s label next := next = step s label

end ReceiveThreads

end SelectNet
