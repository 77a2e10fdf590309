import SelectNet.CommonLib.ClientTurn

/-!
# SelectServer_Thread

The main thread accepts clients and pushes them to the handlers' state queues;
each `SelectClientHandle` adopts what is in its queue and serves its clients in
a thread of its own. The steps are the accesses to what the threads share: the
unlocked test of a queue, a drain under its lock, a sweep, a push, and the stages
of `Close`. `Broadcast` from other threads is left out.
-/

namespace SelectNet

inductive EClientState where
  | leave
  | join
  deriving DecidableEq, Repr

/-- The numeric value of the enumerator. -/
def EClientState.code : EClientState → Byte
  | .leave => 0
  | .join => 1

structure QMClientState where
  type : Byte
  clientSock : Socket
  deriving DecidableEq

/-- `T()`. -/
def QMClientState.default : QMClientState := ⟨0, 0⟩

/-- Where `HandleThread` stands between its steps. -/
inductive HandlePoint where
  | test
  | drain
  | poll
  | stopped
  deriving DecidableEq, Repr

/-- A handler and its thread. `clientStateQueue` says which of the server's
queues it refers to. `adopted` records the sockets it made clients for and
`closesocket` what its deleted clients passed to `closesocket`. -/
structure SelectClientHandle where
  isRunging : Bool
  isHandleStop : Bool
  clientSockArr : List Client
  clientStateQueue : Nat
  clientHandleID : Nat
  hasChangeClient : Bool
  fdReadBackup : FdSet
  maxSock : Socket
  test : TestCounters
  testClientCount : Int
  point : HandlePoint
  adopted : List Socket
  closesocket : List Socket

/-- One client's turn as the handler meets it: its `OnMsgHandle` finds a world
that other threads may have changed meanwhile. -/
structure ClientTurn (ω : Type) where
  world : ω
  recv : RecvAnswer
  send : Nat → SendAnswer

/-- How `select` answers a handler, and then the calls for its clients in turn. -/
inductive PollAnswer (ω : Type) where
  | failed
  | ready (readable : Socket → Bool) (turns : Nat → ClientTurn ω)

/-- A step of a handler's thread. -/
inductive HandleLabel (ω : Type) where
  | test
  | drain (fresh : Nat → Fresh)
  | poll (answer : PollAnswer ω)

namespace SelectClientHandle

variable {ω : Type}

def new (handleID clientStateQueue : Nat) : SelectClientHandle where
  isRunging := true
  isHandleStop := false
  clientSockArr := []
  clientStateQueue
  clientHandleID := handleID
  hasChangeClient := true
  fdReadBackup := ∅
  maxSock := invalidSocket
  test := .zero
  testClientCount := 0
  point := .test
  adopted := []
  closesocket := []

/-- `delete pClient`: its destructor closes it. -/
def deleteClient (h : SelectClientHandle) (client : Client) : SelectClientHandle :=
  let client := ClientSocket.close (client.enter () h.test)
  { h with
    test := Client.counters client h.test
    closesocket := h.closesocket ++ client.closesocket }

def close (h : SelectClientHandle) : SelectClientHandle :=
  { h.clientSockArr.foldl deleteClient h with clientSockArr := [] }

/-! ## Draining the state queue -/

/-- `case EClientState::Join`, behind `manualSize`. -/
def onJoin (h : SelectClientHandle) (fresh : Nat → Fresh) (clientSock : Socket) :
    SelectClientHandle :=
  { h with
    testClientCount := h.testClientCount + 1
    clientSockArr := h.clientSockArr ++ [Client.new clientSock (fresh h.adopted.length) h.test]
    adopted := h.adopted ++ [clientSock] }

/-- One pass of the loop of `case EClientState::Leave`, with the position of
`it`, which nothing moves on. -/
def leavePass (clientSock : Socket) :
    Nat × SelectClientHandle → Pass (Nat × SelectClientHandle) SelectClientHandle
  | (it, h) =>
      match h.clientSockArr[it]? with
      | none => .leave h
      | some client =>
          if client.sock = clientSock then
            let h := { h with testClientCount := h.testClientCount - 1 }
            .leave { h.deleteClient client with clientSockArr := h.clientSockArr.eraseIdx it }
          else .again (it, h)

/-- The `switch` over an entry. It is `none` while the loop of `Leave` has not
ended. -/
def onState (fuel : Nat) (fresh : Nat → Fresh) (recvNode : QMClientState)
    (h : SelectClientHandle) (queue : SafeQueue QMClientState) :
    Option (SelectClientHandle × SafeQueue QMClientState) :=
  if recvNode.type = EClientState.join.code then
    some (h.onJoin fresh recvNode.clientSock, queue.manualSize (-1))
  else if recvNode.type = EClientState.leave.code then
    (Loop.run (leavePass recvNode.clientSock) fuel (0, h)).map fun h => (h, queue)
  else some (h, queue)

/-- One pass of the loop from `begin` to `end`. -/
def drainPass (fuel : Nat) (fresh : Nat → Fresh) :
    SelectClientHandle × SafeQueue QMClientState →
      Pass (SelectClientHandle × SafeQueue QMClientState)
        (Option (SelectClientHandle × SafeQueue QMClientState))
  | (h, queue) =>
      if queue.atEnd then .leave (some (h, queue))
      else match h.onState fuel fresh (queue.getVal.getD .default) queue with
        | none => .leave none
        | some (h, queue) => .again (h, queue.next)

/-- What happens between `lock` and `unlock`. -/
def drain (fuel : Nat) (fresh : Nat → Fresh) (h : SelectClientHandle)
    (queue : SafeQueue QMClientState) :
    Option (SelectClientHandle × SafeQueue QMClientState) :=
  match Loop.run (drainPass fuel fresh) fuel (h, queue.begin) with
  | some (some (h, queue)) => some ({ h with hasChangeClient := true }, queue.clear)
  | _ => none

/-! ## Serving the clients -/

/-- `if (_hasChangeClient)`: the set and the maximum made anew. -/
def rebuild (h : SelectClientHandle) : SelectClientHandle :=
  if h.hasChangeClient then
    match h.clientSockArr with
    | [] => h
    | front :: _ =>
        let (fdReadBackup, maxSock) := Client.pollSet h.clientSockArr ∅ front.sock
        { h with fdReadBackup, maxSock, hasChangeClient := false }
  else h

/-- The sweep, from the client `it` stands at on. -/
def sweep (handle : MsgHandle ω) (fuel : Nat) (fdRead : FdSet) (turns : Nat → ClientTurn ω) :
    List Client → Nat → List Client → SelectClientHandle → Option SelectClientHandle
  | [], _, done, h => some { h with clientSockArr := done }
  | client :: rest, count, done, h =>
      match ClientSocket.turn handle fuel (decide (client.sock ∈ fdRead)) (turns count).recv
          (turns count).send (client.enter (turns count).world h.test) with
      | none => none
      | some (failed, s) =>
          let h := { h with test := Client.counters s h.test }
          if failed then
            let h := { h with testClientCount := h.testClientCount - 1 }
            sweep handle fuel fdRead turns rest (count + 1) done
              { h.deleteClient (Client.leave s) with hasChangeClient := true }
          else sweep handle fuel fdRead turns rest (count + 1) (done ++ [Client.leave s]) h

/-- A pass of `HandleThread` behind the state queue. -/
def poll (handle : MsgHandle ω) (fuel : Nat) (answer : PollAnswer ω) (h : SelectClientHandle) :
    Option SelectClientHandle :=
  if h.clientSockArr.isEmpty then some h
  else
    let h := h.rebuild
    match answer with
    | .failed => some h.close
    | .ready readable turns =>
        let fdRead := h.fdReadBackup.filter fun sock => readable sock
        sweep handle fuel fdRead turns h.clientSockArr 0 [] h

/-- A step of `HandleThread`. -/
def step (handle : MsgHandle ω) (fuel : Nat) (label : HandleLabel ω) (h : SelectClientHandle)
    (queue : SafeQueue QMClientState) :
    Option (SelectClientHandle × SafeQueue QMClientState) :=
  match h.point, label with
  | .test, .test =>
      if h.isRunging = false then
        some ({ h with point := .stopped, isHandleStop := true }, queue)
      else if queue.hasData then some ({ h with point := .drain }, queue)
      else some ({ h with point := .poll }, queue)
  | .drain, .drain fresh =>
      (h.drain fuel fresh queue).map fun (h, queue) => ({ h with point := .poll }, queue)
  | .poll, .poll answer =>
      (h.poll handle fuel answer).map fun h => ({ h with point := .test }, queue)
  | _, _ => none

end SelectClientHandle

/-! ## The main thread -/

/-- Where the main thread stands: outside all calls, or inside `Close`, with the
handlers before a position deleted. -/
inductive MainPoint where
  | idle
  | closing (position : Nat)
  deriving DecidableEq, Repr

/-- The server. `queues` are the queues it has made, `none` once deleted, and
`clientStateQueueArr` says which of them the array holds. `pushed` records every
push with its queue, `released` what the deleted handlers' clients passed to
`closesocket`. -/
structure SelectServerThread where
  clientHandleThread : Int
  clientHandleArr : List SelectClientHandle
  clientStateQueueArr : List Nat
  queues : List (Option (SafeQueue QMClientState))
  serverSock : Socket
  point : MainPoint
  pushed : List (Nat × Socket)
  closesocket : List Socket
  released : List Socket

/-- How `socket` and then `bind` answer. -/
inductive BindAnswer where
  | noSocket
  | refused (sock : Socket)
  | bound (sock : Socket)

/-- What the calls of `GetClientNum` return while the handlers go on: for the
front, and for each position the one compared and the one kept. -/
structure Counts where
  front : Int
  compared : Nat → Int
  kept : Nat → Int

/-- How `select` and `accept` answer the main thread, and what it then reads. -/
inductive AcceptAnswer where
  | selectFailed
  | nothing
  | invalid
  | client (clientSock : Socket) (counts : Counts)

/-- A step of the main thread or of the handler at a position. -/
inductive ServerLabel (ω : Type) where
  | initServer (threadNum : Int)
  | bind (answer : BindAnswer)
  | listen (success : Bool)
  | onRun (answer : AcceptAnswer)
  | close
  | stopHandle
  | deleteHandle
  | deleteQueues
  | handle (position : Nat) (label : HandleLabel ω)

namespace SelectServerThread

variable {ω : Type}

def new : SelectServerThread where
  clientHandleThread := 0
  clientHandleArr := []
  clientStateQueueArr := []
  queues := []
  serverSock := invalidSocket
  point := .idle
  pushed := []
  closesocket := []
  released := []

/-- The inside of `InitServer`'s loop. -/
def initHandle (s : SelectServerThread) (i : Nat) : SelectServerThread :=
  let clientStateQueueArr := s.clientStateQueueArr ++ [s.queues.length]
  { s with
    queues := s.queues ++ [some .new]
    clientStateQueueArr
    clientHandleArr := s.clientHandleArr ++
      [.new i (clientStateQueueArr.getD i s.queues.length)] }

def initServer (threadNum : Int) (s : SelectServerThread) : Int × SelectServerThread :=
  let s := { s with clientHandleThread := threadNum }
  if threadNum < 1 then (-1, s) else (0, (List.range threadNum.toNat).foldl initHandle s)

/-- `Close` up to its first handler. -/
def closeStart (s : SelectServerThread) : SelectServerThread :=
  if s.serverSock ≠ invalidSocket then
    { s with
      closesocket := s.closesocket ++ [s.serverSock]
      serverSock := invalidSocket
      point := .closing 0 }
  else s

def bind (answer : BindAnswer) (s : SelectServerThread) : SelectServerThread :=
  match answer with
  | .noSocket => { s with serverSock := invalidSocket }
  | .refused sock => closeStart { s with serverSock := sock }
  | .bound sock => { s with serverSock := sock }

def listen (success : Bool) (s : SelectServerThread) : SelectServerThread :=
  if success then s else closeStart s

/-- The queue a handler or an entry of the array refers to, unless deleted. -/
def queue (s : SelectServerThread) (id : Nat) : Option (SafeQueue QMClientState) :=
  (s.queues[id]?).join

/-- `GetClientNum` of a handler. -/
def getClientNum (s : SelectServerThread) (h : SelectClientHandle) : Int :=
  ((s.queue h.clientStateQueue).elim 0 SafeQueue.size) + h.clientSockArr.length

/-- The loop that looks for the handler with the fewest clients. -/
def scanHandles (counts : Counts) : List SelectClientHandle → Nat → Nat → Int → Nat
  | [], _, minId, _ => minId
  | h :: rest, position, minId, minClient =>
      if counts.compared position < minClient then
        scanHandles counts rest (position + 1) h.clientHandleID (counts.kept position)
      else scanHandles counts rest (position + 1) minId minClient

/-- A new client is pushed to the queue of the handler that the scan finds.
`front` of an empty array is undefined, as is a push to a deleted queue. -/
def pushClient (clientSock : Socket) (counts : Counts) (s : SelectServerThread) :
    Option SelectServerThread :=
  if s.clientHandleArr.isEmpty then none
  else
    let minId := scanHandles counts s.clientHandleArr 0 0 counts.front
    match s.clientStateQueueArr[minId]? with
    | none => none
    | some id =>
        (s.queue id).map fun queue => { s with
          queues := s.queues.set id (some (queue.push ⟨EClientState.join.code, clientSock⟩))
          pushed := s.pushed ++ [(id, clientSock)] }

def onRun (answer : AcceptAnswer) (s : SelectServerThread) : Option SelectServerThread :=
  if s.serverSock = invalidSocket then some s
  else match answer with
    | .selectFailed => some (closeStart s)
    | .nothing | .invalid => some s
    | .client clientSock counts =>
        if clientSock = invalidSocket then some s else pushClient clientSock counts s

/-! ## The stages of `Close` -/

/-- `~SelectClientHandle` up to its wait. -/
def stopHandle (s : SelectServerThread) : Option SelectServerThread :=
  match s.point with
  | .idle => none
  | .closing position =>
      (s.clientHandleArr[position]?).map fun h => { s with
        clientHandleArr := s.clientHandleArr.set position { h with isRunging := false } }

/-- `~SelectClientHandle` behind its wait. -/
def deleteHandle (s : SelectServerThread) : Option SelectServerThread :=
  match s.point with
  | .idle => none
  | .closing position =>
      match s.clientHandleArr[position]? with
      | none => none
      | some h =>
          if h.isHandleStop then
            some { s with
              clientHandleArr := s.clientHandleArr.set position h.close
              point := .closing (position + 1) }
          else none

/-- `delete pMsgQueue`, undefined the second time. -/
def deleteQueue (queues : List (Option (SafeQueue QMClientState))) (id : Nat) :
    Option (List (Option (SafeQueue QMClientState))) :=
  match queues[id]? with
  | some (some _) => some (queues.set id none)
  | _ => none

/-- The rest of `Close`, once all handlers are deleted. The array of the queues
is not cleared, and the entries in them are dropped with them. -/
def deleteQueues (s : SelectServerThread) : Option SelectServerThread :=
  match s.point with
  | .idle => none
  | .closing position =>
      if position < s.clientHandleArr.length then none
      else (s.clientStateQueueArr.foldlM deleteQueue s.queues).map fun queues => { s with
        queues
        clientHandleArr := []
        point := .idle
        released := s.released ++ s.clientHandleArr.flatMap SelectClientHandle.closesocket }

/-- A step of the thread of the handler at a position. -/
def handleStep (handle : MsgHandle ω) (fuel : Nat) (position : Nat) (label : HandleLabel ω)
    (s : SelectServerThread) : Option SelectServerThread :=
  match s.clientHandleArr[position]? with
  | none => none
  | some h =>
      match s.queue h.clientStateQueue with
      | none => none
      | some queue =>
          (h.step handle fuel label queue).map fun (h', queue') => { s with
            clientHandleArr := s.clientHandleArr.set position h'
            queues := s.queues.set h.clientStateQueue (some queue') }

/-- A call of the main thread, which is not inside `Close`. -/
def call (s : SelectServerThread) (next : SelectServerThread → Option SelectServerThread) :
    Option SelectServerThread :=
  if s.point = .idle then next s else none

def step (handle : MsgHandle ω) (fuel : Nat) (label : ServerLabel ω) (s : SelectServerThread) :
    Option SelectServerThread :=
  match label with
  | .initServer threadNum => s.call fun s => some (initServer threadNum s).2
  | .bind answer => s.call fun s => some (bind answer s)
  | .listen success => s.call fun s => some (listen success s)
  | .onRun answer => s.call (onRun answer)
  | .close => s.call fun s => some (closeStart s)
  | .stopHandle => s.stopHandle
  | .deleteHandle => s.deleteHandle
  | .deleteQueues => s.deleteQueues
  | .handle position label => s.handleStep handle fuel position label

/-- The server's runs: any order of the steps of its threads. -/
def machine (handle : MsgHandle ω) : Machine SelectServerThread (ServerLabel ω) where
  initial s := s = new
  step s label next := ∃ fuel, step handle fuel label s = some next

/-! ## What a step can do -/

/-- The ways in which a step succeeds. -/
inductive Steps (handle : MsgHandle ω) (fuel : Nat) (s : SelectServerThread) :
    ServerLabel ω → SelectServerThread → Prop where
  | initServer (threadNum : Int) (hidle : s.point = .idle) :
      Steps handle fuel s (.initServer threadNum) (initServer threadNum s).2
  | bind (answer : BindAnswer) (hidle : s.point = .idle) :
      Steps handle fuel s (.bind answer) (bind answer s)
  | listen (success : Bool) (hidle : s.point = .idle) :
      Steps handle fuel s (.listen success) (listen success s)
  | wait (answer : AcceptAnswer) (hidle : s.point = .idle) : Steps handle fuel s (.onRun answer) s
  | selectFailed (hidle : s.point = .idle) :
      Steps handle fuel s (.onRun .selectFailed) (closeStart s)
  | pushClient {next : SelectServerThread} {clientSock : Socket} {counts : Counts}
      (hidle : s.point = .idle) (hopen : s.serverSock ≠ invalidSocket)
      (hsock : clientSock ≠ invalidSocket) (hpush : pushClient clientSock counts s = some next) :
      Steps handle fuel s (.onRun (.client clientSock counts)) next
  | close (hidle : s.point = .idle) : Steps handle fuel s .close (closeStart s)
  | stopHandle {position : Nat} {h : SelectClientHandle} (hpoint : s.point = .closing position)
      (hat : s.clientHandleArr[position]? = some h) :
      Steps handle fuel s .stopHandle { s with
        clientHandleArr := s.clientHandleArr.set position { h with isRunging := false } }
  | deleteHandle {position : Nat} {h : SelectClientHandle} (hpoint : s.point = .closing position)
      (hat : s.clientHandleArr[position]? = some h) (hstop : h.isHandleStop = true) :
      Steps handle fuel s .deleteHandle { s with
        clientHandleArr := s.clientHandleArr.set position h.close
        point := .closing (position + 1) }
  | deleteQueues {next : SelectServerThread} (hdelete : s.deleteQueues = some next) :
      Steps handle fuel s .deleteQueues next
  | handle {next : SelectServerThread} {position : Nat} {label : HandleLabel ω}
      (hmove : s.handleStep handle fuel position label = some next) :
      Steps handle fuel s (.handle position label) next

variable {handle : MsgHandle ω} {fuel : Nat} {s next : SelectServerThread}

theorem call_eq_some {run : SelectServerThread → Option SelectServerThread}
    (hcall : s.call run = some next) : s.point = .idle ∧ run s = some next :=
  Option.ite_none_right_eq_some.mp hcall

theorem onRun_cases {answer : AcceptAnswer} (hidle : s.point = .idle)
    (hrun : onRun answer s = some next) : Steps handle fuel s (.onRun answer) next := by
  unfold onRun at hrun
  split at hrun
  next =>
    cases hrun
    exact .wait answer hidle
  next hopen =>
    cases answer with
    | selectFailed =>
        cases hrun
        exact .selectFailed hidle
    | nothing =>
        cases hrun
        exact .wait .nothing hidle
    | invalid =>
        cases hrun
        exact .wait .invalid hidle
    | client clientSock counts =>
        simp only at hrun
        split at hrun
        next =>
          cases hrun
          exact .wait _ hidle
        next hsock => exact .pushClient hidle hopen hsock hrun

theorem stopHandle_cases (hstop : s.stopHandle = some next) :
    Steps handle fuel s .stopHandle next := by
  unfold stopHandle at hstop
  split at hstop
  next => cases hstop
  next position hpoint =>
    obtain ⟨h, hat, rfl⟩ := Option.map_eq_some_iff.mp hstop
    exact .stopHandle hpoint hat

theorem deleteHandle_cases (hdelete : s.deleteHandle = some next) :
    Steps handle fuel s .deleteHandle next := by
  unfold deleteHandle at hdelete
  split at hdelete
  next => cases hdelete
  next position hpoint =>
    split at hdelete
    next => cases hdelete
    next h hat =>
      split at hdelete
      next hstop =>
        cases hdelete
        exact .deleteHandle hpoint hat hstop
      next => cases hdelete

/-- Nothing else is a step. -/
theorem step_cases {label : ServerLabel ω} (hstep : step handle fuel label s = some next) :
    Steps handle fuel s label next := by
  cases label with
  | initServer threadNum =>
      rw [step] at hstep
      obtain ⟨hidle, hnext⟩ := call_eq_some hstep
      cases hnext
      exact .initServer threadNum hidle
  | bind answer =>
      rw [step] at hstep
      obtain ⟨hidle, hnext⟩ := call_eq_some hstep
      cases hnext
      exact .bind answer hidle
  | listen success =>
      rw [step] at hstep
      obtain ⟨hidle, hnext⟩ := call_eq_some hstep
      cases hnext
      exact .listen success hidle
  | onRun answer =>
      obtain ⟨hidle, hrun⟩ := call_eq_some hstep
      exact onRun_cases hidle hrun
  | close =>
      rw [step] at hstep
      obtain ⟨hidle, hnext⟩ := call_eq_some hstep
      cases hnext
      exact .close hidle
  | stopHandle => exact stopHandle_cases hstep
  | deleteHandle => exact deleteHandle_cases hstep
  | deleteQueues => exact .deleteQueues hstep
  | handle position label => exact .handle hstep

/-! ## What the histories record -/

/-- The sockets that `accept` returned, each with a push of its own. -/
def accepted (s : SelectServerThread) : List Socket := s.pushed.map Prod.snd

/-- The sockets pushed to a queue, in this order. -/
def pushedTo (s : SelectServerThread) (id : Nat) : List Socket :=
  (s.pushed.filter fun push => push.1 = id).map Prod.snd

end SelectServerThread

end SelectNet
