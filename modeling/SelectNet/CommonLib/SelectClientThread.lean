import SelectNet.CommonLib.ClientSocket

/-!
# SelectClient_Thread

The client's end of a connection, with a queue between receiving a package and
`OnRecvMsg`. `assert` is compiled in, as the makefiles build it.
-/

namespace SelectNet

/-- `msg->size` of a queued package, if those bytes were ever written. -/
def Package.msgSize (package : Package) : Option Nat :=
  if 2 ≤ package.bytes.length then some (MsgHead.load (CharData.bytes package)).size else none

/-- What the client has besides an endpoint: the received packages, and what
`OnRecvMsg` was called with, as the contents of `_package`. -/
structure RecvSide where
  recvQueue : MyQueue Package
  delivered : List (List Byte)

/-- How `socket` and then `connect` answer. -/
inductive ConnectAnswer where
  | noSocket
  | refused (sock : Socket)
  | connected (sock : Socket)

abbrev SelectClientThread : Type := Endpoint RecvSide

namespace SelectClientThread

/-- The constructor, with counters set right behind it. -/
def new (sendBuf recvBuf package : Memory Byte) (test : Option TestCounters) :
    SelectClientThread where
  sock := invalidSocket
  closesocket := []
  sendQueue := .new
  ioSend := .setBuffer sendBuf clientSendBufferSize
  oMsg := .empty
  memoryPool := .new
  oRecv := .empty
  retainSize := 0
  recvBuf
  package
  test
  kernel := []
  ext := ⟨.new, []⟩

/-- Pop a received package and free it. -/
def dropMsg (s : SelectClientThread) (msg : Package) : SelectClientThread :=
  { s.count fun test => { test with recvQueueSize := test.recvQueueSize - 1 } with
    memoryPool := s.memoryPool.free msg.unit msg.msgSize
    ext := { s.ext with recvQueue := s.ext.recvQueue.pop.2 } }

/-- `ClearQueue`. -/
def clearQueue (s : SelectClientThread) : SelectClientThread :=
  (s.ext.recvQueue.nodes.foldl dropMsg s).clearSendQueue

def close (s : SelectClientThread) : SelectClientThread :=
  if s.sock ≠ invalidSocket then (clearQueue s.shut).clearBuffer clientSendBufferSize
  else s

/-- `Connect`. The log of `send` starts again with the connection. -/
def connect (answer : ConnectAnswer) (s : SelectClientThread) : Int × SelectClientThread :=
  let s := close s
  match answer with
  | .noSocket => (-1, s)
  | .refused sock => (-1, close { s with sock, kernel := [] })
  | .connected sock => (0, { s with sock, kernel := [] })

def sendMsg (s : SelectClientThread) (msg : Memory Byte) : Int × SelectClientThread :=
  Endpoint.sendMsg s msg

def sendData (s : SelectClientThread) (data : Memory Byte) (dataLen : Nat) :
    Int × SelectClientThread :=
  Endpoint.sendData s data dataLen

def sendThread (answers : Nat → SendAnswer) (s : SelectClientThread) :
    Option (Int × SelectClientThread) :=
  s.runSend close clientSendQueueMaxAccumulateCount answers

/-- Queue a copy of a package. -/
def queuePackage (s : SelectClientThread) (bytes : List Byte) : SelectClientThread :=
  let s := s.count fun test => { test with
    msgTimes := test.msgTimes + 1
    recvQueueSize := test.recvQueueSize + 1 }
  let (unit, memoryPool) := s.memoryPool.alloc bytes.length
  { s with
    memoryPool
    ext := { s.ext with recvQueue := s.ext.recvQueue.push ⟨unit, bytes⟩ } }

/-- The inside of the receive loop: queue the package, and close when too many
are waiting. -/
def onPackage (s : SelectClientThread) (bytes : List Byte) : Handed SelectClientThread :=
  let s := queuePackage s bytes
  if (clientRecvQueueMaxAccumulateCount : Int) < s.ext.recvQueue.size then .full (close s)
  else .more s

/-- How `ProcessorRecv` returns from its loop. -/
def recvLeave : Option (RecvExit SelectClientThread) → Outcome SelectClientThread
  | none | some (.tooLong _) => .aborted
  | some (.full s) => .returned (-1) s
  | some (.stopped oRecv s) => .returned 0 (s.recvStop oRecv)

/-- `ProcessorRecv`, with a bound on the passes of its loop. -/
def processorRecv (answer : RecvAnswer) (fuel : Nat) (s : SelectClientThread) :
    Option (Outcome SelectClientThread) :=
  let bytes := answer.received s.sock (clientRecvBufferSize - s.retainSize)
  if bytes = [] then some (.returned (-1) s)
  else (Loop.run (recvPass onPackage) fuel (s.recvStart bytes)).map recvLeave

def recvThread (answer : ReadAnswer) (fuel : Nat) (s : SelectClientThread) :
    Option (Outcome SelectClientThread) :=
  if s.sock = invalidSocket then some (.returned (-1) s)
  else match answer with
    | .selectFailed => some (.returned (-1) (close s))
    | .notReadable => some (.returned 0 s)
    | .readable answer => (processorRecv answer fuel s).map fun
        | .aborted => .aborted
        | .returned value s => if value = -1 then .returned (-1) (close s) else .returned 0 s

/-- The inside of `OnRun`'s loop. `memcpy` is defined only if the header was
written and what it says lies within both arrays. -/
def onRunMsg (s : SelectClientThread) (msg : Package) : Option SelectClientThread :=
  match msg.msgSize with
  | none => none
  | some size =>
      if packageMaxSize < size ∨ msg.bytes.length < size then none
      else
        let s := dropMsg s msg
        let package := fillPackage s.package ((CharData.bytes msg).read 0 size)
        some { s with
          package
          ext := { s.ext with delivered := s.ext.delivered ++ [package.read 0 packageMaxSize] } }

def onRun (s : SelectClientThread) : Option (Int × SelectClientThread) :=
  if s.sock = invalidSocket then some (-1, s)
  else (s.ext.recvQueue.nodes.foldlM onRunMsg s).map fun s => (0, s)

/-! ## Histories -/

/-- What can happen to a client. -/
inductive Event where
  | sendData (data : Memory Byte) (dataLen : Nat)
  | sendMsg (msg : Memory Byte)
  | sendThread (answers : Nat → SendAnswer)
  | recvThread (answer : ReadAnswer)
  | onRun
  | connect (answer : ConnectAnswer)
  | close

/-- `RecvThread` has returned. -/
def Returns (answer : ReadAnswer) (s : SelectClientThread) (value : Int)
    (next : SelectClientThread) : Prop :=
  ∃ fuel, recvThread answer fuel s = some (.returned value next)

def machine : Machine SelectClientThread Event where
  initial s := ∃ sendBuf recvBuf package test, s = new sendBuf recvBuf package test
  step s event next :=
    match event with
    | .sendData data dataLen => next = (sendData s data dataLen).2
    | .sendMsg msg => next = (sendMsg s msg).2
    | .sendThread answers => ∃ value, sendThread answers s = some (value, next)
    | .recvThread answer => ∃ value, Returns answer s value next
    | .onRun => ∃ value, onRun s = some (value, next)
    | .connect answer => next = (connect answer s).2
    | .close => next = SelectClientThread.close s

/-- What holds between the calls. A closed client has nothing queued. -/
structure Inv (s : SelectClientThread) : Prop where
  send : s.SendInv
  recv : ∃ rest, Retained s.recvBuf s.retainSize rest
  counted : s.ext.recvQueue.Counted
  closed : s.sock = invalidSocket → s.Idle ∧ s.ext.recvQueue.nodes = []

variable {s next : SelectClientThread}

/-- Clearing the receive queue changes the queue, the pool and the counters. -/
theorem clearRecvQueue_spec (s : SelectClientThread) :
    ∃ memoryPool test recvQueue, s.ext.recvQueue.nodes.foldl dropMsg s =
        { s with memoryPool, test, ext := { s.ext with recvQueue } } ∧
      recvQueue.nodes = [] ∧ (s.ext.recvQueue.Counted → recvQueue.Counted) := by
  induction hnodes : s.ext.recvQueue.nodes generalizing s with
  | nil => exact ⟨s.memoryPool, s.test, s.ext.recvQueue, rfl, hnodes, id⟩
  | cons msg rest ih =>
      have hpop := MyQueue.pop_of_cons hnodes
      obtain ⟨memoryPool, test, recvQueue, hfold, hempty, hcounted⟩ :=
        ih (dropMsg s msg) (by rw [dropMsg, hpop])
      refine ⟨memoryPool, test, recvQueue, hfold, hempty, fun hstart => hcounted ?_⟩
      rw [dropMsg, hpop]
      exact hstart.pop hnodes

theorem close_spec (hinv : s.SendInv) :
    s.ClosedFrom (close s) ∧ (close s).ext.delivered = s.ext.delivered ∧
      (s.ext.recvQueue.Counted → (close s).ext.recvQueue.Counted) ∧
      (s.sock ≠ invalidSocket → (close s).Idle ∧ (close s).ext.recvQueue.nodes = []) := by
  unfold close
  split
  next hopen =>
    obtain ⟨memoryPool, test, recvQueue, hclear, hnodes, hqueue⟩ := clearRecvQueue_spec s.shut
    obtain ⟨hsame, hnext, hidle, hkernel⟩ := Endpoint.cleared_spec
      { s.shut with memoryPool, test, ext := { s.shut.ext with recvQueue } } hinv.counted
      hinv.calls_front (show 0 < clientSendBufferSize by decide)
    rw [clearQueue, hclear]
    refine ⟨⟨hnext, hsame.sock, hsame.closesocket.trans (if_neg hopen).symm, hsame.retainSize,
      hsame.recvBuf, hkernel⟩, ?_, fun hcounted => ?_, fun _ => ⟨hidle, ?_⟩⟩
    · rw [hsame.ext]
      rfl
    · rw [hsame.ext]
      exact hqueue hcounted
    · rw [hsame.ext]
      exact hnodes
  next hclosed =>
    rw [ne_eq, not_not] at hclosed
    exact ⟨⟨hinv, hclosed, (if_pos hclosed).symm, rfl, rfl, rfl⟩, rfl, id,
      fun hopen => absurd hclosed hopen⟩

theorem new_inv (sendBuf recvBuf package : Memory Byte) (test : Option TestCounters) :
    Inv (new sendBuf recvBuf package test) := by
  obtain ⟨hsend, hidle⟩ := Endpoint.fresh_spec (s := new sendBuf recvBuf package test)
    rfl rfl (show 0 < clientSendBufferSize by decide) rfl rfl
  exact ⟨hsend, ⟨[], Retained.nothing recvBuf⟩, MyQueue.new_counted, fun _ => ⟨hidle, rfl⟩⟩

theorem Inv.close (hinv : Inv s) : Inv (close s) := by
  by_cases hsock : s.sock = invalidSocket
  · rw [SelectClientThread.close, if_neg (not_not.mpr hsock)]
    exact hinv
  · obtain ⟨hclosed, _, hcounted, hidle⟩ := close_spec hinv.send
    refine ⟨hclosed.inv, ?_, hcounted hinv.counted, fun _ => hidle hsock⟩
    rw [hclosed.recvBuf, hclosed.retainSize]
    exact hinv.recv

/-- A socket is closed behind `Close`. -/
theorem Inv.close_sock (hinv : Inv s) : (SelectClientThread.close s).sock = invalidSocket :=
  (close_spec hinv.send).1.sock

/-- A closed client given a socket: it starts with nothing on its way. -/
theorem Inv.reopen (hinv : Inv s) (hclosed : s.sock = invalidSocket) (sock : Socket) :
    Inv { s with sock, kernel := [] } ∧ Endpoint.Idle { s with sock, kernel := [] } := by
  obtain ⟨hidle, hqueue⟩ := hinv.closed hclosed
  exact ⟨⟨{ hinv.send with calls_front := fun _ hcall => by cases hcall }, hinv.recv,
    hinv.counted, fun _ => ⟨⟨hidle.nodes, hidle.msg, hidle.io⟩, hqueue⟩⟩,
    ⟨hidle.nodes, hidle.msg, hidle.io⟩⟩

theorem Inv.connect (hinv : Inv s) (answer : ConnectAnswer) : Inv (connect answer s).2 := by
  cases answer with
  | noSocket => exact hinv.close
  | refused sock => exact (hinv.close.reopen hinv.close_sock sock).1.close
  | connected sock => exact (hinv.close.reopen hinv.close_sock sock).1

theorem Inv.of_same (hinv : Inv s) (hopen : s.sock ≠ invalidSocket) (hsame : s.SameRecv next)
    (hsend : next.SendInv) : Inv next := by
  refine ⟨hsend, ?_, hsame.ext ▸ hinv.counted, fun hclosed => ?_⟩
  · rw [hsame.recvBuf, hsame.retainSize]
    exact hinv.recv
  · exact absurd (hsame.sock.symm.trans hclosed) hopen

theorem Inv.sendData (hinv : Inv s) (data : Memory Byte) (dataLen : Nat) :
    Inv (sendData s data dataLen).2 := by
  by_cases hsock : s.sock = invalidSocket
  · rw [SelectClientThread.sendData, Endpoint.sendData, if_pos hsock]
    exact hinv
  · obtain ⟨hsame, hsend, _⟩ := Endpoint.sendData_spec hinv.send data dataLen
    exact hinv.of_same hsock hsame hsend

theorem Inv.sendMsg (hinv : Inv s) (msg : Memory Byte) : Inv (sendMsg s msg).2 := by
  by_cases hsock : s.sock = invalidSocket
  · rw [SelectClientThread.sendMsg, Endpoint.sendMsg, if_pos hsock]
    exact hinv
  · obtain ⟨hsame, hsend, _⟩ := Endpoint.sendMsg_spec hinv.send msg
    exact hinv.of_same hsock hsame hsend

theorem Inv.sendThread (hinv : Inv s) {answers : Nat → SendAnswer} {value : Int}
    (hsend : sendThread answers s = some (value, next)) : Inv next := by
  by_cases hsock : s.sock = invalidSocket
  · rw [SelectClientThread.sendThread, Endpoint.runSend, if_pos hsock] at hsend
    cases hsend
    exact hinv
  · obtain ⟨_, t, hrun, hreturns⟩ := Endpoint.runSend_spec SelectClientThread.close
      clientSendQueueMaxAccumulateCount answers hinv.send hsock
    cases hrun.symm.trans hsend
    rcases hreturns with ⟨_, hkept⟩ | ⟨_, last, hkept, rfl⟩
    · exact hinv.of_same hsock hkept.same hkept.inv
    · exact (hinv.of_same hsock hkept.same hkept.inv).close

/-! ## Receiving and delivering -/

/-- What holds of the client while its receive loop runs. -/
structure Receiving (start s : SelectClientThread) : Prop where
  send : s.SendInv
  counted : s.ext.recvQueue.Counted
  retainSize : s.retainSize = 0
  sock : s.sock = start.sock
  delivered : s.ext.delivered = start.ext.delivered
  queue : start.ext.recvQueue.nodes <+: s.ext.recvQueue.nodes

theorem Receiving.queuePackage {start : SelectClientThread} (hreceiving : Receiving start s)
    (bytes : List Byte) : Receiving start (queuePackage s bytes) := by
  have hquiet : s.SameSend (SelectClientThread.queuePackage s bytes) := ⟨rfl, rfl, rfl, rfl⟩
  exact ⟨hquiet.inv hreceiving.send, hreceiving.counted.push _, hreceiving.retainSize,
    hreceiving.sock, hreceiving.delivered, hreceiving.queue.trans (List.prefix_append _ _)⟩

theorem Receiving.self {start : SelectClientThread} (hreceiving : Receiving start s) :
    Receiving s s :=
  ⟨hreceiving.send, hreceiving.counted, hreceiving.retainSize, rfl, rfl, List.prefix_refl _⟩

theorem onPackage_more {bytes : List Byte} (hmore : onPackage s bytes = .more next) :
    next = queuePackage s bytes ∧
      next.ext.recvQueue.size ≤ clientRecvQueueMaxAccumulateCount := by
  simp only [onPackage] at hmore
  split at hmore
  · cases hmore
  next hle =>
    cases hmore
    exact ⟨rfl, Int.not_lt.mp hle⟩

theorem onPackage_full {bytes : List Byte} (hfull : onPackage s bytes = .full next) :
    next = close (queuePackage s bytes) ∧
      (clientRecvQueueMaxAccumulateCount : Int) < (queuePackage s bytes).ext.recvQueue.size := by
  simp only [onPackage] at hfull
  split at hfull
  next hlt =>
    cases hfull
    exact ⟨rfl, hlt⟩
  · cases hfull

@[simp] theorem queuePackage_size (s : SelectClientThread) (bytes : List Byte) :
    (queuePackage s bytes).ext.recvQueue.size = s.ext.recvQueue.size + 1 := rfl

@[simp] theorem queuePackage_nodes (s : SelectClientThread) (bytes : List Byte) :
    (queuePackage s bytes).ext.recvQueue.nodes =
      s.ext.recvQueue.nodes ++ [⟨s.memoryPool.units, bytes⟩] := rfl

theorem queuePackages_size (frames : List (List Byte)) (s : SelectClientThread) :
    (frames.foldl queuePackage s).ext.recvQueue.size =
      s.ext.recvQueue.size + frames.length := by
  induction frames generalizing s with
  | nil => simp
  | cons frame frames ih =>
      rw [List.foldl_cons, ih, queuePackage_size, List.length_cons]
      omega

/-- Queueing packages appends them to the queue, and touches neither the send
side nor what has been delivered. -/
theorem queuePackages_spec (frames : List (List Byte)) (s : SelectClientThread) :
    s.SameSend (frames.foldl queuePackage s) ∧
      (frames.foldl queuePackage s).ext.delivered = s.ext.delivered ∧
      (frames.foldl queuePackage s).ext.recvQueue.nodes.map Package.bytes =
        s.ext.recvQueue.nodes.map Package.bytes ++ frames := by
  induction frames generalizing s with
  | nil => exact ⟨⟨rfl, rfl, rfl, rfl⟩, rfl, (List.append_nil _).symm⟩
  | cons frame frames ih =>
      obtain ⟨⟨hqueue, hio, hmsg, hkernel⟩, hdelivered, hnodes⟩ := ih (queuePackage s frame)
      refine ⟨⟨hqueue, hio, hmsg, hkernel⟩, hdelivered, ?_⟩
      rw [List.foldl_cons, hnodes, queuePackage_nodes, List.map_append, List.map_singleton,
        List.append_assoc, List.singleton_append]

/-- A client that is not full has queued all frames. -/
theorem queuePackages_of_handAll {frames : List (List Byte)}
    (hhanded : handAll onPackage s frames = .more next) : next = frames.foldl queuePackage s := by
  induction frames generalizing s with
  | nil =>
      cases hhanded
      rfl
  | cons frame frames ih =>
      rw [handAll] at hhanded
      split at hhanded
      next t htake =>
        obtain ⟨rfl, _⟩ := onPackage_more htake
        exact ih hhanded
      next => cases hhanded

theorem onPackage_of_room (bytes : List Byte)
    (hroom : s.ext.recvQueue.size < clientRecvQueueMaxAccumulateCount) :
    onPackage s bytes = .more (queuePackage s bytes) := by
  refine if_neg ?_
  rw [queuePackage_size]
  omega

/-- With room for all of them, all frames are queued. -/
theorem handAll_of_room (frames : List (List Byte)) {s : SelectClientThread}
    (hroom : s.ext.recvQueue.size + frames.length ≤ clientRecvQueueMaxAccumulateCount) :
    handAll onPackage s frames = .more (frames.foldl queuePackage s) := by
  induction frames generalizing s with
  | nil => rfl
  | cons frame frames ih =>
      rw [List.length_cons] at hroom
      rw [handAll, onPackage_of_room frame (by omega)]
      exact ih (by rw [queuePackage_size]; omega)

/-- The client was receiving and has closed. -/
def Filled (start s : SelectClientThread) : Prop :=
  ∃ last, Receiving start last ∧ s = close last

theorem Receiving.close_inv {start : SelectClientThread} (hreceiving : Receiving start s)
    (hopen : start.sock ≠ invalidSocket) : Inv (SelectClientThread.close s) := by
  obtain ⟨hclosed, _, hcounted, hidle⟩ := close_spec hreceiving.send
  refine ⟨hclosed.inv, ⟨[], ?_⟩, hcounted hreceiving.counted,
    fun _ => hidle (hreceiving.sock ▸ hopen)⟩
  rw [hclosed.retainSize, hreceiving.retainSize]
  exact Retained.nothing _

theorem Inv.recvStart (hinv : Inv s) (bytes : List Byte) :
    Receiving s (s.recvStart bytes).2 :=
  ⟨(Endpoint.SameSend.recvStart s bytes).inv hinv.send, hinv.counted, rfl, rfl, rfl,
    List.prefix_refl _⟩

theorem Receiving.visits {start t : SelectClientThread} {oRecv next : OBuffer (Memory Byte)}
    (hreceiving : Receiving start s) (hvalid : oRecv.Valid)
    (hvisits : Loop.Visits (recvPass onPackage) (oRecv, s) (next, t)) : Receiving start t := by
  have hagain : ∀ state later : OBuffer (Memory Byte) × SelectClientThread,
      state.1.Valid ∧ Receiving start state.2 → recvPass onPackage state = .again later →
      later.1.Valid ∧ Receiving start later.2 := by
    rintro ⟨o, v⟩ ⟨o', v'⟩ ⟨ho, hv⟩ hbody
    obtain ⟨count, _, _, _, htake, ho', _⟩ := recvPass_again ho hbody
    obtain ⟨rfl, _⟩ := onPackage_more htake
    exact ⟨ho', hv.queuePackage _⟩
  have hlast := Loop.Visits.invariant hagain ⟨hvalid, hreceiving⟩ hvisits
  exact hlast.2

/-- The receive loop is left with a failed assertion only at a header that is
too long. -/
theorem recvLoop_exits (hinv : Inv s) (bytes : List Byte)
    {exit : Option (RecvExit SelectClientThread)}
    (hyields : Loop.Yields (recvPass onPackage) (s.recvStart bytes) exit) :
    LeavesWith (s.recvStart bytes).1.buf (Receiving s) (Filled s) exit := by
  obtain ⟨rest, hretained⟩ := hinv.recv
  have hmore : ∀ t bytes t', Receiving s t → onPackage t bytes = .more t' →
      Receiving s t' := fun t bytes t' ht hmore =>
    (onPackage_more hmore).1 ▸ ht.queuePackage bytes
  have hfull : ∀ t bytes t', Receiving s t → onPackage t bytes = .full t' →
      Filled s t' := fun t bytes t' ht hfull =>
    ⟨_, ht.queuePackage bytes, (onPackage_full hfull).1⟩
  exact recvPass_invariant hmore hfull (hretained.behind bytes).1 (hinv.recvStart bytes) hyields

/-- How `RecvThread` returns when there is something to read. -/
theorem returns_cases (hinv : Inv s) (hopen : s.sock ≠ invalidSocket) {answer : RecvAnswer}
    {value : Int} (hcall : Returns (.readable answer) s value next) :
    answer.received s.sock (clientRecvBufferSize - s.retainSize) = [] ∧ value = -1 ∧
      next = close s ∨
    answer.received s.sock (clientRecvBufferSize - s.retainSize) ≠ [] ∧ ∃ exit,
      Loop.Yields (recvPass onPackage) (s.recvStart
        (answer.received s.sock (clientRecvBufferSize - s.retainSize))) (some exit) ∧
      ((∃ oRecv t, exit = .stopped oRecv t ∧ value = 0 ∧ next = t.recvStop oRecv) ∨
        ∃ t, exit = .full t ∧ value = -1 ∧ next = close t) := by
  obtain ⟨fuel, hcall⟩ := hcall
  rw [recvThread, if_neg hopen] at hcall
  obtain ⟨outcome, hrecv, hout⟩ := Option.map_eq_some_iff.mp hcall
  by_cases hsome : answer.received s.sock (clientRecvBufferSize - s.retainSize) = []
  · rw [processorRecv, if_pos hsome] at hrecv
    cases hrecv
    cases hout
    exact Or.inl ⟨hsome, rfl, rfl⟩
  · rw [processorRecv, if_neg hsome] at hrecv
    obtain ⟨exit, hyields, hleave⟩ := (Loop.exists_map_run_iff recvLeave _).mp ⟨fuel, hrecv⟩
    have hexit := recvLoop_exits hinv _ hyields
    cases exit with
    | none => exact hexit.elim
    | some exit =>
        cases exit with
        | stopped oRecv t =>
            cases hleave
            cases hout
            exact Or.inr ⟨hsome, _, hyields, Or.inl ⟨oRecv, t, rfl, rfl, rfl⟩⟩
        | tooLong t =>
            cases hleave
            cases hout
        | full t =>
            cases hleave
            cases hout
            exact Or.inr ⟨hsome, _, hyields, Or.inr ⟨t, rfl, rfl, rfl⟩⟩

theorem returns_of_nothing (hopen : s.sock ≠ invalidSocket) {answer : RecvAnswer}
    (hnone : answer.received s.sock (clientRecvBufferSize - s.retainSize) = []) :
    Returns (.readable answer) s (-1) (close s) := by
  refine ⟨0, ?_⟩
  simp only [recvThread, if_neg hopen, processorRecv, hnone, if_true, Option.map_some]

theorem returns_of_yields (hopen : s.sock ≠ invalidSocket) {answer : RecvAnswer}
    (hsome : answer.received s.sock (clientRecvBufferSize - s.retainSize) ≠ [])
    {exit : RecvExit SelectClientThread} {value : Int}
    (hyields : Loop.Yields (recvPass onPackage) (s.recvStart
      (answer.received s.sock (clientRecvBufferSize - s.retainSize))) (some exit))
    (hleave : recvLeave (some exit) = .returned value next) :
    Returns (.readable answer) s (if value = -1 then -1 else 0)
      (if value = -1 then close next else next) := by
  obtain ⟨fuel, hrun⟩ := hyields
  refine ⟨fuel, ?_⟩
  simp only [recvThread, if_neg hopen, processorRecv, if_neg hsome, hrun, Option.map_some, hleave]
  split
  · rfl
  · rfl

/-- What is behind the loop is retained. -/
theorem retained_of_stopped (hinv : Inv s) (bytes : List Byte) {oRecv : OBuffer (Memory Byte)}
    {t : SelectClientThread}
    (hyields : Loop.Yields (recvPass onPackage) (s.recvStart bytes) (some (.stopped oRecv t))) :
    Retained (t.recvStop oRecv).recvBuf (t.recvStop oRecv).retainSize oRecv.unread := by
  obtain ⟨_, hstop, hbuf, hpart⟩ := recvLoop_exits hinv bytes hyields
  have harray : oRecv.buf ≠ none := by
    rw [hbuf]
    exact Option.some_ne_none _
  exact Retained.of_moveDataToFront hstop harray hpart

/-- `ProcessorRecv` leaves the client ready for the next call. -/
theorem Inv.recvStop (hinv : Inv s) (hopen : s.sock ≠ invalidSocket) (bytes : List Byte)
    {oRecv : OBuffer (Memory Byte)} {t : SelectClientThread}
    (hyields : Loop.Yields (recvPass onPackage) (s.recvStart bytes) (some (.stopped oRecv t))) :
    Inv (t.recvStop oRecv) := by
  obtain ⟨hreceiving, _⟩ := recvLoop_exits hinv bytes hyields
  refine ⟨(Endpoint.SameSend.recvStop t oRecv).inv hreceiving.send,
    ⟨_, retained_of_stopped hinv bytes hyields⟩, hreceiving.counted, fun hclosed => ?_⟩
  exact absurd (hreceiving.sock.symm.trans hclosed) hopen

/-- A `RecvThread` that meets only whole messages has queued them, or closed. -/
theorem returns_frames (hinv : Inv s) (hopen : s.sock ≠ invalidSocket) {answer : RecvAnswer}
    {bytes left : List Byte} {value : Int}
    (hbytes : answer.received s.sock (clientRecvBufferSize - s.retainSize) = bytes)
    (hsome : bytes ≠ []) (hending : (headRule.parse (s.retained ++ bytes)).ending = .rest left)
    (hcall : Returns (.readable answer) s value next) :
    next.sock = invalidSocket ∨ ∃ oRecv,
      next = ((headRule.parse (s.retained ++ bytes)).frames.foldl queuePackage
        (s.recvStart bytes).2).recvStop oRecv ∧ next.retained = left := by
  subst hbytes
  obtain ⟨rest, hretained⟩ := hinv.recv
  rw [Endpoint.retained, hretained.read] at hending ⊢
  rcases returns_cases hinv hopen hcall with ⟨hnone, _⟩ | ⟨_, exit, hyields, hexit⟩
  · exact absurd hnone hsome
  rcases hexit with ⟨oRecv, t, rfl, _, rfl⟩ | ⟨t, rfl, _, rfl⟩
  · have hloop := recvPass_spec onPackage hretained
      (answer.received s.sock (clientRecvBufferSize - s.retainSize)) (s.recvStart
        (answer.received s.sock (clientRecvBufferSize - s.retainSize))).2
    simp only [hending] at hloop
    split at hloop
    next => cases hyields.unique hloop
    next t' hhanded =>
      obtain ⟨other, hyields', hleft⟩ := hloop
      cases hyields.unique hyields'
      exact Or.inr ⟨oRecv, by rw [← queuePackages_of_handAll hhanded], hleft.read⟩
  · obtain ⟨last, hreceiving, rfl⟩ := recvLoop_exits hinv _ hyields
    exact Or.inl (close_spec (close_spec hreceiving.send).1.inv).1.sock

theorem Inv.recvThread (hinv : Inv s) {answer : ReadAnswer} {value : Int}
    (hreturns : Returns answer s value next) : Inv next := by
  by_cases hopen : s.sock = invalidSocket
  · obtain ⟨fuel, hcall⟩ := hreturns
    unfold SelectClientThread.recvThread at hcall
    rw [if_pos hopen] at hcall
    cases hcall
    exact hinv
  · cases answer with
    | selectFailed =>
        obtain ⟨fuel, hcall⟩ := hreturns
        rw [SelectClientThread.recvThread, if_neg hopen] at hcall
        cases hcall
        exact hinv.close
    | notReadable =>
        obtain ⟨fuel, hcall⟩ := hreturns
        rw [SelectClientThread.recvThread, if_neg hopen] at hcall
        cases hcall
        exact hinv
    | readable answer =>
        rcases returns_cases hinv hopen hreturns with
          ⟨_, _, rfl⟩ | ⟨_, _, hyields, ⟨oRecv, t, rfl, _, rfl⟩ | ⟨t, rfl, _, rfl⟩⟩
        · exact hinv.close
        · exact hinv.recvStop hopen _ hyields
        · obtain ⟨last, hreceiving, rfl⟩ := recvLoop_exits hinv _ hyields
          exact (hreceiving.close_inv hopen).close

/-- Receiving touches neither what was sent nor what was delivered, and unless it
closes the client, nor what is to be sent. -/
structure Untouched (start s : SelectClientThread) : Prop where
  send : s.SendInv
  kernel : s.kernel = start.kernel
  delivered : s.ext.delivered = start.ext.delivered
  still : s.sock ≠ invalidSocket → s.sock = start.sock ∧ start.SameSend s

theorem Untouched.close {start : SelectClientThread} (huntouched : Untouched start s) :
    Untouched start (SelectClientThread.close s) := by
  obtain ⟨hclosed, hdelivered, _⟩ := close_spec huntouched.send
  exact ⟨hclosed.inv, hclosed.kernel.trans huntouched.kernel,
    hdelivered.trans huntouched.delivered, fun hopen => absurd hclosed.sock hopen⟩

theorem Untouched.queuePackage {start : SelectClientThread} (huntouched : Untouched start s)
    (bytes : List Byte) : Untouched start (queuePackage s bytes) := by
  have hquiet : s.SameSend (SelectClientThread.queuePackage s bytes) := ⟨rfl, rfl, rfl, rfl⟩
  refine ⟨hquiet.inv huntouched.send, huntouched.kernel, huntouched.delivered, fun hopen => ?_⟩
  obtain ⟨hsock, hsame⟩ := huntouched.still hopen
  exact ⟨hsock, hsame.sendQueue, hsame.ioSend, hsame.oMsg, hsame.kernel⟩

/-- However `RecvThread` returns, nothing was sent and nothing delivered. -/
theorem returns_untouched (hinv : Inv s) {answer : ReadAnswer} {value : Int}
    (hreturns : Returns answer s value next) : Untouched s next := by
  have hsame : Untouched s s := ⟨hinv.send, rfl, rfl, fun _ => ⟨rfl, rfl, rfl, rfl, rfl⟩⟩
  by_cases hopen : s.sock = invalidSocket
  · obtain ⟨fuel, hcall⟩ := hreturns
    unfold recvThread at hcall
    rw [if_pos hopen] at hcall
    cases hcall
    exact hsame
  cases answer with
  | selectFailed =>
      obtain ⟨fuel, hcall⟩ := hreturns
      rw [recvThread, if_neg hopen] at hcall
      cases hcall
      exact hsame.close
  | notReadable =>
      obtain ⟨fuel, hcall⟩ := hreturns
      rw [recvThread, if_neg hopen] at hcall
      cases hcall
      exact hsame
  | readable answer =>
      rcases returns_cases hinv hopen hreturns with
        ⟨_, _, rfl⟩ | ⟨_, exit, hyields, hexit⟩
      · exact hsame.close
      obtain ⟨rest, hretained⟩ := hinv.recv
      have hmore : ∀ t bytes t', Untouched s t → onPackage t bytes = .more t' → Untouched s t' :=
        fun t bytes t' ht hmore => (onPackage_more hmore).1 ▸ ht.queuePackage bytes
      have hfull : ∀ t bytes t', Untouched s t → onPackage t bytes = .full t' → Untouched s t' :=
        fun t bytes t' ht hfull => (onPackage_full hfull).1 ▸ (ht.queuePackage bytes).close
      have hstart : ∀ bytes, Untouched s (s.recvStart bytes).2 := fun bytes =>
        ⟨(Endpoint.SameSend.recvStart s bytes).inv hinv.send, rfl, rfl,
          fun _ => ⟨rfl, rfl, rfl, rfl, rfl⟩⟩
      have hleaves := recvPass_invariant hmore hfull (hretained.behind _).1 (hstart _) hyields
      rcases hexit with ⟨oRecv, t, rfl, _, rfl⟩ | ⟨t, rfl, _, rfl⟩
      · have hstop := Endpoint.SameSend.recvStop t oRecv
        refine ⟨hstop.inv hleaves.1.send, hleaves.1.kernel, hleaves.1.delivered, fun hopen => ?_⟩
        obtain ⟨hsock, hsend⟩ := hleaves.1.still hopen
        exact ⟨hsock, hsend.sendQueue, hsend.ioSend, hsend.oMsg, hsend.kernel⟩
      · exact Untouched.close hleaves

/-- What `OnRecvMsg` is shown of a package, whatever was delivered before. -/
def shown (msg : Package) : Option (List Byte) :=
  match msg.msgSize with
  | none => none
  | some size =>
      if packageMaxSize < size ∨ msg.bytes.length < size then none
      else
        let package := fillPackage (fun _ => 0) ((CharData.bytes msg).read 0 size)
        some (package.read 0 packageMaxSize)

theorem shown_congr {msg other : Package} (hbytes : msg.bytes = other.bytes) :
    shown msg = shown other := by
  obtain ⟨unit, bytes⟩ := msg
  obtain ⟨unit', bytes'⟩ := other
  subst hbytes
  rfl

/-- `msg->size` is what the first two bytes hold. -/
theorem msgSize_eq {msg : Package} (hhead : 2 ≤ msg.bytes.length) :
    msg.msgSize = some (ushort msg.bytes) := by
  have hbytes : (CharData.bytes msg).read 0 msg.bytes.length = msg.bytes :=
    Memory.read_ofList msg.bytes 0
  have htake := Memory.take_read (CharData.bytes msg) 0 msg.bytes.length 2
  rw [hbytes, Nat.min_eq_left hhead] at htake
  rw [Package.msgSize, if_pos hhead, MsgHead.load, ← htake, ushort_take (Nat.le_refl 2)]

/-- A message of the length it says is shown padded. -/
theorem shown_of_frame {msg : Package} (hhead : 2 ≤ msg.bytes.length)
    (hsize : ushort msg.bytes = msg.bytes.length) (hmax : msg.bytes.length ≤ packageMaxSize) :
    shown msg = some (padded msg.bytes) := by
  have hbytes : (CharData.bytes msg).read 0 msg.bytes.length = msg.bytes :=
    Memory.read_ofList msg.bytes 0
  simp only [shown, msgSize_eq hhead, hsize, hbytes, read_fillPackage _ hmax]
  exact if_neg (by omega)

/-- What delivering one package changes. -/
structure DeliversMsg (s : SelectClientThread) (frame : List Byte) (next : SelectClientThread) :
    Prop where
  quiet : s.SameSend next
  sock : next.sock = s.sock
  closesocket : next.closesocket = s.closesocket
  retainSize : next.retainSize = s.retainSize
  recvBuf : next.recvBuf = s.recvBuf
  queue : next.ext.recvQueue = s.ext.recvQueue.pop.2
  delivered : next.ext.delivered = s.ext.delivered ++ [frame]

/-- A package is delivered exactly if it can be shown. -/
theorem onRunMsg_spec (s : SelectClientThread) (msg : Package) :
    match shown msg with
    | none => onRunMsg s msg = none
    | some frame => ∃ next, onRunMsg s msg = some next ∧ DeliversMsg s frame next := by
  unfold shown onRunMsg
  cases msg.msgSize with
  | none => rfl
  | some size =>
      simp only
      by_cases hdefined : packageMaxSize < size ∨ msg.bytes.length < size
      · rw [if_pos hdefined, if_pos hdefined]
      · rw [if_neg hdefined, if_neg hdefined]
        refine ⟨_, rfl, ⟨rfl, rfl, rfl, rfl⟩, rfl, rfl, rfl, rfl, rfl, ?_⟩
        have hshown := read_fillPackage_congr s.package (fun _ => 0)
          ((CharData.bytes msg).read 0 size)
        exact congrArg (fun frame => s.ext.delivered ++ [frame]) hshown

theorem onRunMsg_cases {msg : Package} (hdeliver : onRunMsg s msg = some next) :
    ∃ frame, shown msg = some frame ∧ DeliversMsg s frame next := by
  have hspec := onRunMsg_spec s msg
  cases hshown : shown msg with
  | none =>
      rw [hshown, hdeliver] at hspec
      cases hspec
  | some frame =>
      rw [hshown] at hspec
      obtain ⟨_, hnext, hdelivers⟩ := hspec
      cases hnext.symm.trans hdeliver
      exact ⟨frame, rfl, hdelivers⟩

theorem Inv.onRunMsgs (hinv : Inv s) (hopen : s.sock ≠ invalidSocket) {msgs : List Package}
    (hnodes : s.ext.recvQueue.nodes = msgs) (hfold : msgs.foldlM onRunMsg s = some next) :
    Inv next := by
  induction msgs generalizing s with
  | nil => cases hfold; exact hinv
  | cons msg rest ih =>
      rw [List.foldlM_cons] at hfold
      obtain ⟨middle, hdeliver, hrest⟩ := Option.bind_eq_some_iff.mp hfold
      obtain ⟨_, _, hquiet, hsock, _, hretain, hbuf, hqueue, _⟩ := onRunMsg_cases hdeliver
      rw [MyQueue.pop_of_cons hnodes] at hqueue
      have hmiddle : Inv middle := by
        refine ⟨hquiet.inv hinv.send, ?_, ?_, fun hclosed => ?_⟩
        · rw [hbuf, hretain]
          exact hinv.recv
        · rw [hqueue]
          exact hinv.counted.pop hnodes
        · exact absurd (hsock.symm.trans hclosed) hopen
      exact ih hmiddle (hsock ▸ hopen) (by rw [hqueue]) hrest

/-- What delivering all packages changes. -/
structure DeliversAll (s : SelectClientThread) (frames : List (List Byte))
    (next : SelectClientThread) : Prop where
  quiet : s.SameSend next
  sock : next.sock = s.sock
  retainSize : next.retainSize = s.retainSize
  recvBuf : next.recvBuf = s.recvBuf
  nodes : next.ext.recvQueue.nodes = []
  delivered : next.ext.delivered = s.ext.delivered ++ frames

/-- Packages that can be shown are all delivered, in order. -/
theorem onRunMsgs_of_shown {msgs : List Package} (hnodes : s.ext.recvQueue.nodes = msgs)
    (hshown : ∀ msg ∈ msgs, shown msg = some (padded msg.bytes)) :
    ∃ next, msgs.foldlM onRunMsg s = some next ∧
      DeliversAll s ((msgs.map Package.bytes).map padded) next := by
  induction msgs generalizing s with
  | nil =>
      exact ⟨s, rfl, ⟨rfl, rfl, rfl, rfl⟩, rfl, rfl, rfl, hnodes, (List.append_nil _).symm⟩
  | cons msg msgs ih =>
      obtain ⟨hmsg, hmsgs⟩ := List.forall_mem_cons.mp hshown
      have hspec := onRunMsg_spec s msg
      rw [hmsg] at hspec
      obtain ⟨middle, hdeliver, hdelivers⟩ := hspec
      have hqueue := hdelivers.queue
      rw [MyQueue.pop_of_cons hnodes] at hqueue
      obtain ⟨next, hfold, hrest⟩ := ih (by rw [hqueue]) hmsgs
      obtain ⟨hsend, hio, hmsg, hkernel⟩ := hrest.quiet
      obtain ⟨hsend', hio', hmsg', hkernel'⟩ := hdelivers.quiet
      refine ⟨next, by rw [List.foldlM_cons, hdeliver]; exact hfold,
        ⟨hsend.trans hsend', hio.trans hio', hmsg.trans hmsg', hkernel.trans hkernel'⟩,
        hrest.sock.trans hdelivers.sock, hrest.retainSize.trans hdelivers.retainSize,
        hrest.recvBuf.trans hdelivers.recvBuf, hrest.nodes, ?_⟩
      rw [hrest.delivered, hdelivers.delivered, List.map_cons, List.map_cons, List.append_assoc,
        List.singleton_append]

/-- Only packages that can be shown are delivered. -/
theorem shown_of_onRunMsgs {msgs : List Package} (hfold : msgs.foldlM onRunMsg s = some next) :
    ∀ msg ∈ msgs, shown msg ≠ none := by
  induction msgs generalizing s with
  | nil => exact fun _ hmsg => absurd hmsg List.not_mem_nil
  | cons msg msgs ih =>
      rw [List.foldlM_cons] at hfold
      obtain ⟨middle, hdeliver, hrest⟩ := Option.bind_eq_some_iff.mp hfold
      obtain ⟨frame, hshown, _⟩ := onRunMsg_cases hdeliver
      refine List.forall_mem_cons.mpr ⟨?_, ih hrest⟩
      rw [hshown]
      exact Option.some_ne_none frame

/-- Delivering whole messages delivers all of them, padded. -/
theorem onRunMsgs_spec {msgs : List Package} (hnodes : s.ext.recvQueue.nodes = msgs)
    (hframes : ∀ msg ∈ msgs, headRule.IsFrame msg.bytes)
    (hfold : msgs.foldlM onRunMsg s = some next) :
    s.SameSend next ∧ next.sock = s.sock ∧ next.retained = s.retained ∧
      next.ext.recvQueue.nodes = [] ∧
      next.ext.delivered = s.ext.delivered ++ (msgs.map Package.bytes).map padded := by
  have hshown : ∀ msg ∈ msgs, shown msg = some (padded msg.bytes) := by
    intro msg hmsg
    obtain ⟨hhead, hsize, hmax⟩ := headRule_isFrame_iff.mp (hframes msg hmsg)
    exact shown_of_frame (Nat.le_trans (by decide) hhead) hsize hmax
  obtain ⟨_, hall, hdelivers⟩ := onRunMsgs_of_shown hnodes hshown
  cases hall.symm.trans hfold
  refine ⟨hdelivers.quiet, hdelivers.sock, ?_, hdelivers.nodes, hdelivers.delivered⟩
  rw [Endpoint.retained, Endpoint.retained, hdelivers.retainSize, hdelivers.recvBuf]

theorem Inv.onRun (hinv : Inv s) {value : Int} (hrun : onRun s = some (value, next)) :
    Inv next := by
  unfold SelectClientThread.onRun at hrun
  split at hrun
  next => cases hrun; exact hinv
  next hopen =>
    obtain ⟨last, hfold, hlast⟩ := Option.map_eq_some_iff.mp hrun
    cases hlast
    exact hinv.onRunMsgs hopen rfl hfold

theorem inv_of_reachable (hreach : machine.Reachable s) : Inv s := by
  refine Machine.Reachable.invariant ?_ ?_ hreach
  · rintro _ ⟨sendBuf, recvBuf, package, test, rfl⟩
    exact new_inv sendBuf recvBuf package test
  · intro s event next hinv hstep
    cases event with
    | sendData data dataLen => cases hstep; exact hinv.sendData data dataLen
    | sendMsg msg => cases hstep; exact hinv.sendMsg msg
    | sendThread answers =>
        obtain ⟨value, hsend⟩ := hstep
        exact hinv.sendThread hsend
    | recvThread answer =>
        obtain ⟨value, hreturns⟩ := hstep
        exact hinv.recvThread hreturns
    | onRun =>
        obtain ⟨value, hrun⟩ := hstep
        exact hinv.onRun hrun
    | connect answer => cases hstep; exact hinv.connect answer
    | close => cases hstep; exact hinv.close

end SelectClientThread

end SelectNet
