import Mathlib.Algebra.GroupWithZero.Nat
import SelectNet.CommonLib.IOBuffer
import SelectNet.CommonLib.MyQueue
import SelectNet.Foundation.Loop

/-!
# What both ends of a connection share

`ClientSocket` and `SelectClient_Thread` are written from the same members and
the same send loop. `Endpoint` holds these members; `ext` is what a class has
besides. The send loop is given once, with the class's `Close` and its backlog
limit as parameters.
-/

namespace SelectNet

/-! ## Memory and kernel as an endpoint sees them -/

/-- A buffer taken from the `VarMemPool`: the number of its allocation among
those of this object, and the bytes written to it so far. -/
structure Package where
  unit : Nat
  bytes : List Byte
  deriving DecidableEq

instance : CharData Package := ⟨fun package => Memory.ofList package.bytes 0⟩

/-- `QMSend`. -/
structure QMSend where
  size : Nat
  data : Package
  deriving DecidableEq

/-- A use of the pool. The size given to `Free` is `none` when it is read from
bytes that were never written. -/
inductive PoolEvent where
  | alloc (unit size : Nat)
  | free (unit : Nat) (size : Option Nat)
  deriving DecidableEq

/-- How an object has used the pool: its allocations, numbered, and its frees. -/
structure PoolLog where
  units : Nat
  events : List PoolEvent

namespace PoolLog

def new : PoolLog := ⟨0, []⟩

def alloc (log : PoolLog) (size : Nat) : Nat × PoolLog :=
  (log.units, ⟨log.units + 1, log.events ++ [.alloc log.units size]⟩)

def free (log : PoolLog) (unit : Nat) (size : Option Nat) : PoolLog :=
  { log with events := log.events ++ [.free unit size] }

end PoolLog

/-- The counters behind the `_test...` pointers, as changed by one object. -/
structure TestCounters where
  msgTimes : Int
  sendTimes : Int
  sendQueueSize : Int
  recvTimes : Int
  recvQueueSize : Int

/-- How the kernel answers one attempt to send: `select` fails, `select` says
not writable, or `send` is called and takes up to `count` of the bytes offered. -/
inductive SendAnswer where
  | selectFailed
  | notWritable
  | writable (count : Nat)

/-- A call of `send` from `_sendBuf`: the buffer at the call and what `send`
returned. -/
structure SendCall where
  io : IOBuffer
  sent : Nat

namespace SendCall

/-- `send(sock, _sendBuf, canRead, 0)` offers the first `canRead` bytes. -/
def offered (call : SendCall) : List Byte := call.io.buf.read 0 call.io.canRead.toNat

/-- The bytes the kernel took. -/
def taken (call : SendCall) : List Byte := call.offered.take call.sent

end SendCall

/-- The members that `ClientSocket` and `SelectClient_Thread` have in common.
`closesocket` records the descriptors passed to `closesocket`, `kernel` the
calls of `send`. `_sendBuf` is the array of `ioSend`. -/
structure Endpoint (ρ : Type) where
  sock : Socket
  closesocket : List Socket
  sendQueue : MyQueue QMSend
  ioSend : IOBuffer
  oMsg : OBuffer Package
  memoryPool : PoolLog
  oRecv : OBuffer (Memory Byte)
  retainSize : Int
  recvBuf : Memory Byte
  package : Memory Byte
  test : Option TestCounters
  kernel : List SendCall
  ext : ρ

namespace Endpoint

variable {ρ : Type}

/-- Change the test counters, when their pointers are set. -/
def count (s : Endpoint ρ) (change : TestCounters → TestCounters) : Endpoint ρ :=
  { s with test := s.test.map change }

/-! ## Receiving -/

/-- The first `_retainSize` bytes of `_recvBuf`. -/
def retained (s : Endpoint ρ) : List Byte := s.recvBuf.read 0 s.retainSize.toNat

/-- `_oRecv` set over what is retained and the bytes `recv` stored behind it. The
array it reads is `_recvBuf`. -/
def recvStart (s : Endpoint ρ) (bytes : List Byte) : OBuffer (Memory Byte) × Endpoint ρ :=
  let recvBuf := s.recvBuf.write s.retainSize.toNat bytes
  (.setBuffer (some recvBuf) (bytes.length + s.retainSize), { s with recvBuf, retainSize := 0 })

/-- Behind the loop: move what is left to the front of `_recvBuf` and keep its size. -/
def recvStop (s : Endpoint ρ) (oRecv : OBuffer (Memory Byte)) : Endpoint ρ :=
  let oRecv := oRecv.moveDataToFront
  { s with oRecv, recvBuf := oRecv.memory, retainSize := oRecv.canRead }

/-! ## Closing -/

/-- `closesocket` on the socket, which is then `INVALID_SOCKET`. -/
def shut (s : Endpoint ρ) : Endpoint ρ :=
  { s with closesocket := s.closesocket ++ [s.sock], sock := invalidSocket }

/-- Pop an entry and free its data. -/
def dropEntry (s : Endpoint ρ) (entry : QMSend) : Endpoint ρ :=
  { s.count fun test => { test with sendQueueSize := test.sendQueueSize - 1 } with
    sendQueue := s.sendQueue.pop.2
    memoryPool := s.memoryPool.free entry.data.unit (some entry.size) }

/-- `while (_sendQueue->hasData())`: drop every entry. -/
def clearSendQueue (s : Endpoint ρ) : Endpoint ρ := s.sendQueue.nodes.foldl dropEntry s

/-- `ClearBuffer`, given `sizeof(_sendBuf)`. The retained size is not among what
it resets. -/
def clearBuffer (s : Endpoint ρ) (sendBufSize : Nat) : Endpoint ρ :=
  { s with
    ioSend := .setBuffer s.ioSend.buf sendBufSize
    oMsg := .setBuffer none 0
    oRecv := .setBuffer none 0 }

/-- Clearing changes the queue, the pool and the counters, and empties the queue. -/
theorem clearSendQueue_spec (s : Endpoint ρ) :
    ∃ sendQueue memoryPool test, s.clearSendQueue = { s with sendQueue, memoryPool, test } ∧
      sendQueue.nodes = [] ∧ (s.sendQueue.Counted → sendQueue.Counted) := by
  unfold clearSendQueue
  induction hnodes : s.sendQueue.nodes generalizing s with
  | nil => exact ⟨s.sendQueue, s.memoryPool, s.test, rfl, hnodes, id⟩
  | cons entry rest ih =>
      have hpop := MyQueue.pop_of_cons hnodes
      obtain ⟨sendQueue, memoryPool, test, hfold, hempty, hcounted⟩ :=
        ih (s.dropEntry entry) (by rw [dropEntry, hpop])
      refine ⟨sendQueue, memoryPool, test, hfold, hempty, fun hstart => hcounted ?_⟩
      rw [dropEntry, hpop]
      exact hstart.pop hnodes

/-! ## Sending -/

/-- `SendData(data, dataLen)`. -/
def sendData (s : Endpoint ρ) (data : Memory Byte) (dataLen : Nat) : Int × Endpoint ρ :=
  if s.sock = invalidSocket then (-1, s)
  else
    let s := s.count fun test => { test with
      sendQueueSize := test.sendQueueSize + 1
      sendTimes := test.sendTimes + 1 }
    let (unit, memoryPool) := s.memoryPool.alloc dataLen
    let package : Package := ⟨unit, data.read 0 dataLen⟩
    (0, { s with memoryPool, sendQueue := s.sendQueue.push ⟨dataLen, package⟩ })

/-- `SendMsg(msg)`. -/
def sendMsg (s : Endpoint ρ) (msg : Memory Byte) : Int × Endpoint ρ :=
  if s.sock = invalidSocket then (-1, s)
  else s.sendData msg (MsgHead.load msg).size

/-- `SendToKernelBuf` of `ClientSocket`, `ProcessorSend` of `SelectClient_Thread`. -/
def sendToKernel (close : Endpoint ρ → Endpoint ρ) (answer : SendAnswer) (s : Endpoint ρ) :
    Option (Int × Endpoint ρ) :=
  match answer with
  | .selectFailed => some (-1, close s)
  | .notWritable => some (0, s)
  | .writable count =>
      let totalLen := s.ioSend.canRead
      let sendLen := min count totalLen.toNat
      let s := { s with kernel := s.kernel ++ [⟨s.ioSend, sendLen⟩] }
      if sendLen = 0 then some (-1, close s)
      else match s.ioSend.moveReadPos sendLen with
        | none => none
        | some io => some (1, { s with ioSend := io.moveDataToFront })

/-- How the nested send loops are left: by a `return`, or with an empty queue. -/
inductive SendExit (ρ : Type) where
  | ret (value : Int) (s : Endpoint ρ)
  | drained (s : Endpoint ρ) (calls : Nat)

/-- The queue's front entry has been copied: pop it and free its data. Freeing
what an empty queue returns would free a null pointer. -/
def finishMsg (s : Endpoint ρ) : Option (Endpoint ρ) :=
  if s.oMsg.buf.isSome then
    let s := s.count fun test => { test with sendQueueSize := test.sendQueueSize - 1 }
    match s.sendQueue.pop with
    | (none, _) => none
    | (some qmSend, sendQueue) => some { s with
        sendQueue
        memoryPool := s.memoryPool.free qmSend.data.unit (some qmSend.size)
        oMsg := .setBuffer none 0 }
  else some s

/-- Behind the inner loop: stop when the queue is empty, else load its front. -/
def loadMsg (s : Endpoint ρ) (calls : Nat) : Pass (Endpoint ρ × Nat) (Option (SendExit ρ)) :=
  if s.sendQueue.hasData = false then .leave (some (.drained s calls))
  else match s.sendQueue.front with
    | none => .again ({ s with oMsg := .setBuffer none 0 }, calls)
    | some qmSend => .again ({ s with oMsg := .setBuffer (some qmSend.data) qmSend.size }, calls)

/-- The rest of a pass once the send buffer has been flushed if it was full.
`canWrite` is the room there was before the flush. -/
def copyMsg (canWrite : Int) (s : Endpoint ρ) (calls : Nat) :
    Pass (Endpoint ρ × Nat) (Option (SendExit ρ)) :=
  let canRead := s.oMsg.canRead
  if canRead ≤ 0 then
    match s.finishMsg with
    | none => .leave none
    | some s => s.loadMsg calls
  else
    let writeLen := if canRead < canWrite then canRead else canWrite
    match s.oMsg.readBytesInto s.ioSend writeLen with
    | none => .leave none
    | some (oMsg, ioSend) => .again ({ s with oMsg, ioSend }, calls)

/-- One pass of the inner `do ... while (true)`, and of the outer one when the
inner loop is left. `calls` numbers the attempts to send within one call. -/
def sendPass (close : Endpoint ρ → Endpoint ρ) (limit : Nat) (answers : Nat → SendAnswer) :
    Endpoint ρ × Nat → Pass (Endpoint ρ × Nat) (Option (SendExit ρ))
  | (s, calls) =>
      let canWrite := s.ioSend.canWrite
      if canWrite ≤ 0 then
        match s.sendToKernel close (answers calls) with
        | none => .leave none
        | some (n, s) =>
            if n < 0 then .leave (some (.ret (-1) s))
            else if n = 0 then
              if (limit : Int) < s.sendQueue.size then .leave (some (.ret (-1) (close s)))
              else .leave (some (.ret 0 s))
            else s.copyMsg canWrite (calls + 1)
      else s.copyMsg canWrite calls

/-- What is sent when the queue has been emptied. -/
def flush (close : Endpoint ρ → Endpoint ρ) (limit : Nat) (answer : SendAnswer)
    (s : Endpoint ρ) : Option (Int × Endpoint ρ) :=
  if 0 < s.ioSend.canRead then
    match s.sendToKernel close answer with
    | none => none
    | some (n, s) =>
        if n < 0 then some (-1, s)
        else if n = 0 ∧ (limit : Int) < s.sendQueue.size then some (-1, close s)
        else some (0, s)
  else some (0, s)

/-- Bytes of the queue and of the loaded message, counted twice, and its entries:
more passes than the send loops ever make. -/
def sendFuel (s : Endpoint ρ) : Nat :=
  2 * (s.oMsg.canRead.toNat + (s.sendQueue.nodes.map QMSend.size).sum) +
    2 * s.sendQueue.nodes.length + 4

/-- `ProcessorSend` of `ClientSocket`, `SendThread` of `SelectClient_Thread`. -/
def runSend (close : Endpoint ρ → Endpoint ρ) (limit : Nat) (answers : Nat → SendAnswer)
    (s : Endpoint ρ) : Option (Int × Endpoint ρ) :=
  if s.sock = invalidSocket then some (-1, s)
  else match Loop.run (sendPass close limit answers) s.sendFuel (s, 0) with
    | some (some (.ret value s)) => some (value, s)
    | some (some (.drained s calls)) => s.flush close limit (answers calls)
    | _ => none

end Endpoint

end SelectNet
