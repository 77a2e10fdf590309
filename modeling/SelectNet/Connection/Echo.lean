import SelectNet.CommonLib.SelectClientThread
import SelectNet.Connection.Pipe
import SelectNet.ServerTest.Server02

/-!
# The echo of a connection

A `SelectClient_Thread` and the server's `ClientSocket`, joined by two reliable
channels. Every call of either side is one step, with whatever the kernel
answers. The `Test` messages given to the client's `SendMsg` come back through
four stages, each of which keeps their order.
-/

namespace SelectNet

/-- Both ends, how many bytes each has received from the other, and the messages
handed to the client's `SendMsg`. -/
structure Connection (ω : Type) where
  client : SelectClientThread
  server : ClientSocket ω
  serverRead : Nat
  clientRead : Nat
  sent : List (List Byte)

/-- `recv` gives bytes from the front of a channel, or nothing. -/
def RecvAnswer.From (answer : RecvAnswer) (channel : List Byte) : Prop :=
  match answer with
  | .failed => True
  | .data bytes => bytes <+: channel

/-- The bytes that a look for input takes. -/
def ReadAnswer.received (answer : ReadAnswer) (sock : Socket) (asked : Int) : List Byte :=
  match answer with
  | .readable answer => answer.received sock asked
  | _ => []

def ReadAnswer.From (answer : ReadAnswer) (channel : List Byte) : Prop :=
  match answer with
  | .readable answer => answer.From channel
  | _ => True

namespace Connection

variable {ω : Type}

inductive Event where
  | sendMsg (msg : Memory Byte)
  | sendThread (answers : Nat → SendAnswer)
  | recvThread (answer : ReadAnswer)
  | onRun
  | processorRecv (answer : RecvAnswer)
  | processorSend (answers : Nat → SendAnswer)

def toServer (s : Connection ω) : List Byte := s.client.inFlight s.serverRead

def toClient (s : Connection ω) : List Byte := s.server.inFlight s.clientRead

/-- What the client is given to send. -/
structure Sendable (msg : Memory Byte) : Prop where
  min : MsgHead.sizeof ≤ (MsgHead.load msg).size
  max : (MsgHead.load msg).size ≤ packageMaxSize
  msgId : (MsgHead.load msg).msgId = MsgID.test.code

/-- A new client that has connected, and a new socket of the server. -/
def machine (otherBranches : MsgHandle ω) : Machine (Connection ω) Event where
  initial s := ∃ sock sendBuf recvBuf package test sock' world sendBuf' recvBuf' package' test',
    s = {
      client := (SelectClientThread.connect (.connected sock)
        (.new sendBuf recvBuf package test)).2
      server := ClientSocket.new sock' world sendBuf' recvBuf' package' test'
      serverRead := 0
      clientRead := 0
      sent := [] }
  step s event next :=
    match event with
    | .sendMsg msg => Sendable msg ∧ next = { s with
        client := (SelectClientThread.sendMsg s.client msg).2
        sent := s.sent ++ [Endpoint.msgBytes msg] }
    | .sendThread answers => ∃ value client,
        SelectClientThread.sendThread answers s.client = some (value, client) ∧
        next = { s with client }
    | .recvThread answer => answer.From s.toClient ∧ ∃ value client,
        SelectClientThread.Returns answer s.client value client ∧
        next = { s with
          client
          clientRead := s.clientRead + (answer.received s.client.sock
            (clientRecvBufferSize - s.client.retainSize)).length }
    | .onRun => ∃ value client, SelectClientThread.onRun s.client = some (value, client) ∧
        next = { s with client }
    | .processorRecv answer => answer.From s.toServer ∧ ∃ value server,
        ClientSocket.Returns (Server02.onMsgHandle otherBranches) answer s.server value server ∧
        next = { s with
          server
          serverRead := s.serverRead + (answer.received s.server.sock
            (serverRecvBufferSize - s.server.retainSize)).length }
    | .processorSend answers => ∃ value server,
        ClientSocket.processorSend answers s.server = some (value, server) ∧
        next = { s with server }

/-- The messages on their way: those the server has sent back, those the client
has received of them, and those it has delivered of these. -/
def Chain (s : Connection ω) : Prop :=
  ∃ echoed arrived delivered : List (List Byte),
    Pipe s.client s.server s.serverRead s.sent echoed ∧
    Pipe s.server s.client s.clientRead echoed arrived ∧
    arrived = delivered ++ s.client.ext.recvQueue.nodes.map Package.bytes ∧
    s.client.ext.delivered = delivered.map padded

/-- What holds of a connection. Nothing is promised once a side has closed. -/
structure Inv (s : Connection ω) : Prop where
  client : SelectClientThread.Inv s.client
  server : ClientSocket.Inv s.server
  tests : ∀ frame ∈ s.sent, Server02.IsTest frame
  chain : s.client.sock ≠ invalidSocket → s.server.sock ≠ invalidSocket → Chain s

variable {s next : Connection ω} {otherBranches : MsgHandle ω}

theorem Inv.frames (hinv : Inv s) : ∀ frame ∈ s.sent, headRule.IsFrame frame :=
  fun frame hframe => (hinv.tests frame hframe).isFrame

theorem Inv.sendMsg (hinv : Inv s) {msg : Memory Byte} (hmsg : Sendable msg) :
    Inv { s with
      client := (SelectClientThread.sendMsg s.client msg).2
      sent := s.sent ++ [Endpoint.msgBytes msg] } := by
  obtain ⟨hsame, _, hstream⟩ := Endpoint.sendMsg_spec hinv.client.send msg
  refine ⟨hinv.client.sendMsg msg, hinv.server, fun frame hframe => ?_, fun hopen hopen' => ?_⟩
  · rcases List.mem_append.mp hframe with hframe | hframe
    · exact hinv.tests frame hframe
    · rw [List.mem_singleton.mp hframe]
      exact Server02.isTest_msgBytes hmsg.min hmsg.max hmsg.msgId
  · have hwas : s.client.sock ≠ invalidSocket := hsame.sock ▸ hopen
    obtain ⟨echoed, arrived, delivered, hforth, hback, hwaiting, hdelivered⟩ :=
      hinv.chain hwas hopen'
    have hgrown : (Endpoint.sendMsg s.client msg).2.accepted ++
        (Endpoint.sendMsg s.client msg).2.outgoing =
        s.client.accepted ++ s.client.outgoing ++ [Endpoint.msgBytes msg].flatten := by
      rw [hstream hwas, List.flatten_singleton]
    have hkernel := Endpoint.sendMsg_kernel s.client msg
    refine ⟨echoed, arrived, delivered, hforth.grow hgrown (hkernel ▸ List.prefix_rfl),
      hback.of_retained hsame.retained, hwaiting.trans ?_, Eq.trans ?_ hdelivered⟩
    · rw [show (SelectClientThread.sendMsg s.client msg).2.ext = s.client.ext from hsame.ext]
    · rw [show (SelectClientThread.sendMsg s.client msg).2.ext = s.client.ext from hsame.ext]

/-- A send call of the client moves bytes to the kernel, or closes. -/
theorem Inv.sendThread (hinv : Inv s) {answers : Nat → SendAnswer} {value : Int}
    {client : SelectClientThread}
    (hsend : SelectClientThread.sendThread answers s.client = some (value, client)) :
    Inv { s with client } := by
  refine ⟨hinv.client.sendThread hsend, hinv.server, hinv.tests, fun hopen hopen' => ?_⟩
  by_cases hclosed : s.client.sock = invalidSocket
  · rw [SelectClientThread.sendThread, Endpoint.runSend, if_pos hclosed] at hsend
    cases hsend
    exact absurd hclosed hopen
  obtain ⟨_, t, hrun, hreturns⟩ := Endpoint.runSend_spec SelectClientThread.close
    clientSendQueueMaxAccumulateCount answers hinv.client.send hclosed
  cases hrun.symm.trans hsend
  rcases hreturns with ⟨_, hkept⟩ | ⟨_, last, hkept, rfl⟩
  · obtain ⟨echoed, arrived, delivered, hforth, hback, hwaiting, hdelivered⟩ :=
      hinv.chain hclosed hopen'
    refine ⟨echoed, arrived, delivered, hforth.keep hkept.stream hkept.grown,
      hback.of_retained hkept.same.retained, ?_, ?_⟩
    · rw [hkept.same.ext]
      exact hwaiting
    · rw [hkept.same.ext]
      exact hdelivered
  · exact absurd (SelectClientThread.close_spec hkept.inv).1.sock hopen

/-- So does a send call of the server. -/
theorem Inv.processorSend (hinv : Inv s) {answers : Nat → SendAnswer} {value : Int}
    {server : ClientSocket ω}
    (hsend : ClientSocket.processorSend answers s.server = some (value, server)) :
    Inv { s with server } := by
  refine ⟨hinv.client, hinv.server.processorSend hsend, hinv.tests, fun hopen hopen' => ?_⟩
  by_cases hclosed : s.server.sock = invalidSocket
  · rw [ClientSocket.processorSend, Endpoint.runSend, if_pos hclosed] at hsend
    cases hsend
    exact absurd hclosed hopen'
  obtain ⟨_, t, hrun, hreturns⟩ := Endpoint.runSend_spec ClientSocket.close
    serverSendQueueMaxAccumulateCount answers hinv.server.send hclosed
  cases hrun.symm.trans hsend
  rcases hreturns with ⟨_, hkept⟩ | ⟨_, last, hkept, rfl⟩
  · obtain ⟨echoed, arrived, delivered, hforth, hback, hwaiting, hdelivered⟩ :=
      hinv.chain hopen hclosed
    exact ⟨echoed, arrived, delivered, hforth.of_retained hkept.same.retained,
      hback.keep hkept.stream hkept.grown, hwaiting, hdelivered⟩
  · exact absurd (ClientSocket.close_spec hkept.inv).1.sock hopen'

/-- The frames of the second direction are among those of the first. -/
theorem Chain.frames (hinv : Inv s) {echoed arrived : List (List Byte)}
    (hforth : Pipe s.client s.server s.serverRead s.sent echoed)
    (hback : Pipe s.server s.client s.clientRead echoed arrived) :
    (∀ frame ∈ echoed, Server02.IsTest frame) ∧ ∀ frame ∈ arrived, Server02.IsTest frame := by
  have hechoed : ∀ frame ∈ echoed, Server02.IsTest frame :=
    fun frame hframe => hinv.tests frame (hforth.order.subset hframe)
  exact ⟨hechoed, fun frame hframe => hechoed frame (hback.order.subset hframe)⟩

/-- What `recv` gives lies at the front of the channel. -/
theorem received_prefix {answer : RecvAnswer} {channel : List Byte} (hfrom : answer.From channel)
    (sock : Socket) (asked : Int) : answer.received sock asked <+: channel := by
  cases answer with
  | failed => exact List.nil_prefix
  | data bytes =>
      simp only [RecvAnswer.received]
      split
      next => exact List.nil_prefix
      next => exact (List.take_prefix _ _).trans hfrom

/-- The server echoes the messages it finds and retains the rest, or closes. -/
theorem Inv.processorRecv (hinv : Inv s) {answer : RecvAnswer} (hfrom : answer.From s.toServer)
    {value : Int} {server : ClientSocket ω}
    (hcall : ClientSocket.Returns (Server02.onMsgHandle otherBranches) answer s.server value
      server) :
    Inv { s with
      server
      serverRead := s.serverRead + (answer.received s.server.sock
        (serverRecvBufferSize - s.server.retainSize)).length } := by
  refine ⟨hinv.client, hinv.server.processorRecv hcall, hinv.tests, fun hopen hopen' => ?_⟩
  obtain ⟨bytes, hbytes⟩ : ∃ bytes, answer.received s.server.sock
    (serverRecvBufferSize - s.server.retainSize) = bytes := ⟨_, rfl⟩
  have hchunk := received_prefix hfrom s.server.sock (serverRecvBufferSize - s.server.retainSize)
  rw [hbytes] at hchunk ⊢
  by_cases hnone : bytes = []
  · -- nothing received: the server closes
    obtain ⟨fuel, hcall⟩ := hcall
    rw [ClientSocket.processorRecv_of_nothing _ (hbytes.trans hnone)] at hcall
    cases hcall
    have hquiet : Endpoint.SameSend s.server (ClientSocket.countRecv s.server) :=
      ⟨rfl, rfl, rfl, rfl⟩
    exact absurd (ClientSocket.close_spec (hquiet.inv hinv.server.send)).1.sock hopen'
  have hwas : s.server.sock ≠ invalidSocket := by
    intro hclosed
    refine hnone (hbytes.symm.trans ?_)
    cases answer with
    | failed => rfl
    | data bytes => exact if_pos hclosed
  obtain ⟨echoed, arrived, delivered, hforth, hback, hwaiting, hdelivered⟩ := hinv.chain hopen hwas
  obtain ⟨hechoed, left, hending⟩ := hforth.parse_chunk hinv.frames hchunk
  obtain ⟨rest, hretained⟩ := hinv.server.recv
  have hrest : s.server.retained = rest := hretained.read
  have hspec := ClientSocket.processorRecv_spec (Server02.onMsgHandle otherBranches) hretained
    hbytes hnone
  rw [hrest] at hechoed hending
  simp only [hending] at hspec
  obtain ⟨oRecv, hreturns, hleft⟩ := hspec
  obtain ⟨_, rfl⟩ := hreturns.unique hcall
  have hquiet : Endpoint.SameSend s.server (ClientSocket.recvHead s.server bytes).2 :=
    ⟨rfl, rfl, rfl, rfl⟩
  -- all frames are test messages, so the server answers each with itself
  have hnew : ∀ frame ∈ (headRule.parse (rest ++ bytes)).frames, Server02.IsTest frame :=
    fun frame hframe => hinv.tests frame (hechoed.subset (List.mem_append_right _ hframe))
  obtain ⟨hkernel, hstream⟩ := Server02.onPackages_test otherBranches
    (hquiet.inv hinv.server.send) hwas hnew
  have hforth' := hforth.receive hinv.frames hchunk (hrest ▸ hending) hleft.read
  rw [hrest] at hforth'
  rw [hquiet.stream] at hstream
  exact ⟨_, arrived, delivered, hforth', hback.grow hstream (hkernel.symm ▸ List.prefix_rfl),
    hwaiting, hdelivered⟩

/-- The client queues the messages it finds and retains the rest, or closes. -/
theorem Inv.recvThread (hinv : Inv s) {answer : ReadAnswer} (hfrom : answer.From s.toClient)
    {value : Int} {client : SelectClientThread}
    (hcall : SelectClientThread.Returns answer s.client value client) :
    Inv { s with
      client
      clientRead := s.clientRead + (answer.received s.client.sock
        (clientRecvBufferSize - s.client.retainSize)).length } := by
  refine ⟨hinv.client.recvThread hcall, hinv.server, hinv.tests, fun hopen hopen' => ?_⟩
  have hwas : s.client.sock ≠ invalidSocket := by
    intro hclosed
    obtain ⟨fuel, hcall⟩ := hcall
    unfold SelectClientThread.recvThread at hcall
    rw [if_pos hclosed] at hcall
    cases hcall
    exact hopen hclosed
  cases answer with
  | selectFailed =>
      obtain ⟨fuel, hcall⟩ := hcall
      rw [SelectClientThread.recvThread, if_neg hwas] at hcall
      cases hcall
      exact absurd hinv.client.close_sock hopen
  | notReadable =>
      obtain ⟨fuel, hcall⟩ := hcall
      rw [SelectClientThread.recvThread, if_neg hwas] at hcall
      cases hcall
      exact hinv.chain hwas hopen'
  | readable answer =>
      obtain ⟨bytes, hbytes⟩ : ∃ bytes, answer.received s.client.sock
        (clientRecvBufferSize - s.client.retainSize) = bytes := ⟨_, rfl⟩
      have hchunk := received_prefix hfrom s.client.sock
        (clientRecvBufferSize - s.client.retainSize)
      rw [hbytes] at hchunk
      simp only [ReadAnswer.received, hbytes]
      obtain ⟨echoed, arrived, delivered, hforth, hback, hwaiting, hdelivered⟩ :=
        hinv.chain hwas hopen'
      -- what comes back has been echoed, so it is made of frames only
      obtain ⟨hechoed, _⟩ := Chain.frames hinv hforth hback
      have hframes : ∀ frame ∈ echoed, headRule.IsFrame frame :=
        fun frame hframe => (hechoed frame hframe).isFrame
      obtain ⟨_, left, hending⟩ := hback.parse_chunk hframes hchunk
      by_cases hnone : bytes = []
      · rcases SelectClientThread.returns_cases hinv.client hwas hcall with
          ⟨_, _, rfl⟩ | ⟨hsome, _⟩
        · exact absurd hinv.client.close_sock hopen
        · exact absurd (hbytes.trans hnone) hsome
      rcases SelectClientThread.returns_frames hinv.client hwas hbytes hnone hending hcall with
        hclosed | ⟨oRecv, hclient, hleft⟩
      · exact absurd hclosed hopen
      obtain ⟨hquiet, hsame, hqueue⟩ := SelectClientThread.queuePackages_spec
        (headRule.parse (s.client.retained ++ bytes)).frames (s.client.recvStart bytes).2
      have hsend : s.client.SameSend client := by
        rw [hclient]
        exact ⟨hquiet.sendQueue, hquiet.ioSend, hquiet.oMsg, hquiet.kernel⟩
      refine ⟨echoed, _, delivered, hforth.keep hsend.stream (hsend.kernel ▸ List.prefix_rfl),
        hback.receive hframes hchunk hending hleft, ?_, ?_⟩
      · rw [hclient, hwaiting, List.append_assoc]
        exact congrArg (delivered ++ ·) hqueue.symm
      · rw [hclient]
        exact hsame.trans hdelivered

/-- The client delivers everything that is waiting. -/
theorem Inv.onRun (hinv : Inv s) {value : Int} {client : SelectClientThread}
    (hrun : SelectClientThread.onRun s.client = some (value, client)) :
    Inv { s with client } := by
  refine ⟨hinv.client.onRun hrun, hinv.server, hinv.tests, fun hopen hopen' => ?_⟩
  unfold SelectClientThread.onRun at hrun
  split at hrun
  next hclosed =>
    cases hrun
    exact absurd hclosed hopen
  next hwas =>
    obtain ⟨last, hfold, hlast⟩ := Option.map_eq_some_iff.mp hrun
    cases hlast
    obtain ⟨echoed, arrived, delivered, hforth, hback, hwaiting, hdelivered⟩ :=
      hinv.chain hwas hopen'
    obtain ⟨_, harrived⟩ := Chain.frames hinv hforth hback
    -- the queue holds whole frames, so each is shown as it is
    have hqueued : ∀ msg ∈ s.client.ext.recvQueue.nodes, headRule.IsFrame msg.bytes := by
      intro msg hmsg
      refine (harrived msg.bytes ?_).isFrame
      rw [hwaiting]
      exact List.mem_append_right _ (List.mem_map_of_mem hmsg)
    obtain ⟨hquiet, _, hretained, hnone, hadded⟩ :=
      SelectClientThread.onRunMsgs_spec rfl hqueued hfold
    refine ⟨echoed, arrived, delivered ++ s.client.ext.recvQueue.nodes.map Package.bytes,
      hforth.keep hquiet.stream (hquiet.kernel ▸ List.prefix_rfl), hback.of_retained hretained,
      ?_, ?_⟩
    · rw [hnone, List.map_nil, List.append_nil]
      exact hwaiting
    · rw [hadded, hdelivered, List.map_append]

theorem inv_of_reachable (hreach : (machine otherBranches).Reachable s) : Inv s := by
  refine Machine.Reachable.invariant ?_ ?_ hreach
  · rintro _ ⟨sock, sendBuf, recvBuf, package, test, sock', world, sendBuf', recvBuf', package',
      test', rfl⟩
    have hclient := SelectClientThread.new_inv sendBuf recvBuf package test
    obtain ⟨hconnected, hidle⟩ := hclient.close.reopen hclient.close_sock sock
    obtain ⟨hsend, hidle'⟩ := Endpoint.fresh_spec
      (s := ClientSocket.new sock' world sendBuf' recvBuf' package' test')
      rfl rfl (show 0 < serverSendBufferSize by decide) rfl rfl
    refine ⟨hconnected, ClientSocket.new_inv sock' world sendBuf' recvBuf' package' test', ?_,
      fun _ _ => ⟨[], [], [], ⟨?_, rfl, Nat.le_refl 0, List.prefix_rfl⟩,
        ⟨?_, rfl, Nat.le_refl 0, List.prefix_rfl⟩, rfl, rfl⟩⟩
    · intro frame hframe
      cases hframe
    · exact hidle.outgoing_eq hconnected.send
    · exact hidle'.outgoing_eq hsend
  · intro s event next hinv hstep
    cases event with
    | sendMsg msg =>
        obtain ⟨hmsg, rfl⟩ := hstep
        exact hinv.sendMsg hmsg
    | sendThread answers =>
        obtain ⟨value, client, hsend, rfl⟩ := hstep
        exact hinv.sendThread hsend
    | recvThread answer =>
        obtain ⟨hfrom, value, client, hcall, rfl⟩ := hstep
        exact hinv.recvThread hfrom hcall
    | onRun =>
        obtain ⟨value, client, hrun, rfl⟩ := hstep
        exact hinv.onRun hrun
    | processorRecv answer =>
        obtain ⟨hfrom, value, server, hcall, rfl⟩ := hstep
        exact hinv.processorRecv hfrom hcall
    | processorSend answers =>
        obtain ⟨value, server, hsend, rfl⟩ := hstep
        exact hinv.processorSend hsend

/-- Nothing is waiting or on its way anywhere. -/
structure Empty (s : Connection ω) : Prop where
  clientQueues : s.client.sendQueue.nodes = [] ∧ s.client.ext.recvQueue.nodes = []
  clientSend : s.client.oMsg.unread = [] ∧ s.client.ioSend.unread = []
  clientRecv : s.client.retained = []
  serverQueue : s.server.sendQueue.nodes = []
  serverSend : s.server.oMsg.unread = [] ∧ s.server.ioSend.unread = []
  serverRecv : s.server.retained = []
  channels : s.toServer = [] ∧ s.toClient = []

/-- The message in a package: as many bytes as its header says. -/
def message (package : List Byte) : List Byte := package.take (ushort package)

theorem message_padded {frame : List Byte} (hframe : headRule.IsFrame frame) :
    message (padded frame) = frame := by
  obtain ⟨hhead, hsize, _⟩ := headRule_isFrame_iff.mp hframe
  rw [message, padded, ushort_append _ (Nat.le_trans (by decide) hhead), hsize, List.take_left]

end Connection

theorem Endpoint.outgoing_of_empty {ρ : Type} {s : Endpoint ρ} (hqueue : s.sendQueue.nodes = [])
    (hmsg : s.oMsg.unread = []) (hio : s.ioSend.unread = []) : s.outgoing = [] := by
  rw [outgoing, behind, hqueue, hmsg, hio]
  split
  · rfl
  · rfl

/-- At every moment before either side closes, the messages passed to
`OnRecvMsg` are the first of those handed to `SendMsg`, byte for byte; when
nothing is on its way they are all of them. -/
theorem echo_in_order {ω : Type} (otherBranches : MsgHandle ω) (s : Connection ω)
    (hreach : (Connection.machine otherBranches).Reachable s)
    (hclient : s.client.sock ≠ invalidSocket) (hserver : s.server.sock ≠ invalidSocket) :
    s.client.ext.delivered.map Connection.message <+: s.sent ∧
      (s.Empty → s.client.ext.delivered.map Connection.message = s.sent) := by
  have hinv := Connection.inv_of_reachable hreach
  obtain ⟨echoed, arrived, delivered, hforth, hback, hwaiting, hdelivered⟩ :=
    hinv.chain hclient hserver
  obtain ⟨hechoed, harrived⟩ := Connection.Chain.frames hinv hforth hback
  have hmessages : s.client.ext.delivered.map Connection.message = delivered := by
    rw [hdelivered, List.map_map]
    refine (List.map_congr_left fun frame hframe => ?_).trans (List.map_id _)
    refine Connection.message_padded (harrived frame ?_).isFrame
    rw [hwaiting]
    exact List.mem_append_left _ hframe
  rw [hmessages]
  constructor
  · have hfirst : delivered <+: arrived := hwaiting ▸ List.prefix_append _ _
    exact hfirst.trans (hback.order.trans hforth.order)
  · intro hempty
    have hall : arrived = delivered := by
      rw [hwaiting, hempty.clientQueues.2, List.map_nil, List.append_nil]
    have hsent := hforth.eq_of_empty hinv.frames
      (Endpoint.outgoing_of_empty hempty.clientQueues.1 hempty.clientSend.1 hempty.clientSend.2)
      hempty.channels.1 hempty.serverRecv
    have hreturned := hback.eq_of_empty (fun frame hframe => (hechoed frame hframe).isFrame)
      (Endpoint.outgoing_of_empty hempty.serverQueue hempty.serverSend.1 hempty.serverSend.2)
      hempty.channels.2 hempty.clientRecv
    exact hall.symm.trans (hreturned.trans hsent)

/-- One message goes all the way round. -/
theorem echo_in_order_round :
    ∃ s : Connection Unit, s.sent = [[6, 0, 8, 0, 0, 0]] ∧
      s.client.ext.delivered.map Connection.message = [[6, 0, 8, 0, 0, 0]] ∧
      s.client.ext.delivered.map Connection.message <+: s.sent ∧
      (s.Empty → s.client.ext.delivered.map Connection.message = s.sent) := by
  let machine : Machine (Connection Unit) Connection.Event :=
    Connection.machine fun world _ => (world, [])
  have hstart : machine.Reachable _ :=
    .start ⟨5, fun _ => 0, fun _ => 0, fun _ => 0, none, 7, (), fun _ => 0, fun _ => 0,
      fun _ => 0, none, rfl⟩
  have hsent := hstart.step (.sendMsg (Memory.ofList [6, 0, 8, 0, 0, 0] 0))
    ⟨⟨by decide, by decide, by decide⟩, rfl⟩
  have hforth := hsent.step (.sendThread fun _ => .writable 6) ⟨_, _, rfl, rfl⟩
  have hechoed := hforth.step (.processorRecv (.data [6, 0, 8, 0, 0, 0]))
    ⟨⟨[], rfl⟩, _, _, ⟨2, rfl⟩, rfl⟩
  have hback := hechoed.step (.processorSend fun _ => .writable 6) ⟨_, _, rfl, rfl⟩
  have hqueued := hback.step (.recvThread (.readable (.data [6, 0, 8, 0, 0, 0])))
    ⟨⟨[], rfl⟩, _, _, ⟨2, rfl⟩, rfl⟩
  have hdelivered := hqueued.step .onRun ⟨_, _, rfl, rfl⟩
  exact ⟨_, rfl, rfl, echo_in_order _ _ hdelivered (show (5 : Socket) ≠ invalidSocket by decide)
    (show (7 : Socket) ≠ invalidSocket by decide)⟩

end SelectNet
