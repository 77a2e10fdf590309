import SelectNet.Connection.Echo
import SelectNet.Server.LiveSockets

/-!
# The echo server and all its clients

A `SelectServer_Thread` with the handler of `Server02`, and a
`SelectClient_Thread` behind every descriptor it accepts. The server's threads and
the clients take steps in any order; the kernel gives each `recv` bytes from the
front of that connection's channel, and `accept` a descriptor that is not in use.
Each call of a client is one step, as of a program that makes them from one thread.
What a client sends before its `accept` nobody can see earlier, so a client takes
its steps from there on.
-/

namespace SelectNet

/-- What is behind a descriptor of the server: the client, how many bytes each side
has received from the other, and the messages handed to the client's `SendMsg`. -/
structure Link where
  client : SelectClientThread
  serverRead : Nat
  clientRead : Nat
  sent : List (List Byte)

structure EchoServer where
  server : SelectServerThread
  links : Socket → Link

/-- The two ends of a descriptor. -/
def Link.connection (link : Link) (client : Client) : Connection Unit where
  client := link.client
  server := client
  serverRead := link.serverRead
  clientRead := link.clientRead
  sent := link.sent

/-- A client that has just connected. -/
def Link.New (link : Link) : Prop :=
  ∃ sock sendBuf recvBuf package test, link =
    { client := (SelectClientThread.connect (.connected sock)
        (.new sendBuf recvBuf package test)).2
      serverRead := 0
      clientRead := 0
      sent := [] }

/-- How many bytes the handler's `recv` for a descriptor returns in a sweep. -/
def SelectClientHandle.reads {ω : Type} (h : SelectClientHandle) (readable : Socket → Bool)
    (turns : Nat → ClientTurn ω) (sock : Socket) : Nat :=
  match h.clientSockArr[h.socks.idxOf sock]? with
  | none => 0
  | some client =>
      if sock ∈ h.fdRead readable then
        ((turns (h.socks.idxOf sock)).recv.received sock
          (serverRecvBufferSize - client.retainSize)).length
      else 0

namespace EchoServer

variable {ω : Type}

inductive Event (ω : Type) where
  | accept (clientSock : Socket) (counts : Counts) (link : Link)
  | server (label : ServerLabel ω)
  | sendMsg (sock : Socket) (msg : Memory Byte)
  | sendThread (sock : Socket) (answers : Nat → SendAnswer)
  | recvThread (sock : Socket) (answer : ReadAnswer)
  | onRun (sock : Socket)

def setLink (s : EchoServer) (sock : Socket) (link : Link) : EchoServer :=
  { s with links := fun other => if other = sock then link else s.links other }

/-- What the clients have sent and the server has not received. -/
def toServer (s : EchoServer) (sock : Socket) : List Byte :=
  (s.links sock).client.inFlight (s.links sock).serverRead

/-- The server's `recv` calls in a step are given bytes of their own channels. -/
def Supplies (s : EchoServer) : ServerLabel ω → Prop
  | .handle position (.poll (.ready _ turns)) =>
      ∀ h index client, s.server.clientHandleArr[position]? = some h →
        h.clientSockArr[index]? = some client → (turns index).recv.From (s.toServer client.sock)
  | _ => True

/-- The links, once the server has taken what its `recv` calls returned. -/
def received (s : EchoServer) (label : ServerLabel ω) (sock : Socket) : Link :=
  match label with
  | .handle position (.poll (.ready readable turns)) =>
      match s.server.clientHandleArr[position]? with
      | none => s.links sock
      | some h =>
          { s.links sock with
            serverRead := (s.links sock).serverRead + h.reads readable turns sock }
  | _ => s.links sock

/-- The `recv` of a client is given bytes that its server's end has sent. Behind a
descriptor that the server has closed anything may come. -/
def Gives (s : EchoServer) (sock : Socket) (answer : ReadAnswer) : Prop :=
  (∀ client, s.server.Joined client → client.sock = sock →
    answer.From (client.inFlight (s.links sock).clientRead)) ∧
  (sock ∈ s.server.waiting → answer.From [])

def machine (otherBranches : MsgHandle ω) : Machine EchoServer (Event ω) where
  initial s := s.server = .new
  step s event next :=
    match event with
    | .accept clientSock counts link =>
        clientSock ∉ s.server.live ∧ link.New ∧ ∃ fuel server,
        s.server.step (Server02.onMsgHandle otherBranches) fuel
          (.onRun (.client clientSock counts)) = some server ∧
        next = { s.setLink clientSock link with server }
    | .server label =>
        label.accepts = [] ∧ s.Supplies label ∧ ∃ fuel server,
        s.server.step (Server02.onMsgHandle otherBranches) fuel label = some server ∧
        next = { server, links := s.received label }
    | .sendMsg sock msg => Connection.Sendable msg ∧
        next = s.setLink sock { s.links sock with
          client := (SelectClientThread.sendMsg (s.links sock).client msg).2
          sent := (s.links sock).sent ++ [Endpoint.msgBytes msg] }
    | .sendThread sock answers => ∃ value client,
        SelectClientThread.sendThread answers (s.links sock).client = some (value, client) ∧
        next = s.setLink sock { s.links sock with client }
    | .recvThread sock answer => s.Gives sock answer ∧ ∃ value client,
        SelectClientThread.Returns answer (s.links sock).client value client ∧
        next = s.setLink sock { s.links sock with
          client
          clientRead := (s.links sock).clientRead + (answer.received (s.links sock).client.sock
            (clientRecvBufferSize - (s.links sock).client.retainSize)).length }
    | .onRun sock => ∃ value client,
        SelectClientThread.onRun (s.links sock).client = some (value, client) ∧
        next = s.setLink sock { s.links sock with client }

end EchoServer

/-! ## One connection -/

namespace Connection

variable {ω : Type} {otherBranches : MsgHandle ω}

/-- What a client is lent for its turn does not matter to its connection. -/
theorem Inv.enter {link : Link} {client : Client} (hinv : Inv (link.connection client))
    (world : ω) (test : TestCounters) :
    Inv { link.connection client with server := client.enter world test } := by
  refine ⟨hinv.client, Client.enter_inv hinv.server world test, hinv.tests, fun hopen hopen' => ?_⟩
  obtain ⟨echoed, arrived, delivered, hforth, hback, hwaiting, hdelivered⟩ :=
    hinv.chain hopen hopen'
  exact ⟨echoed, arrived, delivered, ⟨hforth.sent, hforth.got, hforth.read_le, hforth.order⟩,
    ⟨hback.sent, hback.got, hback.read_le, hback.order⟩, hwaiting, hdelivered⟩

theorem Inv.leave {s : Connection ω} (hinv : Inv s) :
    Inv { s with server := Client.leave s.server } := by
  refine ⟨hinv.client, Client.leave_inv hinv.server, hinv.tests, fun hopen hopen' => ?_⟩
  obtain ⟨echoed, arrived, delivered, hforth, hback, hwaiting, hdelivered⟩ :=
    hinv.chain hopen hopen'
  exact ⟨echoed, arrived, delivered, ⟨hforth.sent, hforth.got, hforth.read_le, hforth.order⟩,
    ⟨hback.sent, hback.got, hback.read_le, hback.order⟩, hwaiting, hdelivered⟩

/-- A turn that does not fail is a call of `ProcessorRecv`, unless there is nothing
to read, and one of `ProcessorSend`. -/
theorem Inv.turn {s : Connection ω} (hinv : Inv s) {fuel : Nat} {readable : Bool}
    {answer : RecvAnswer} {answers : Nat → SendAnswer} {next : ClientSocket ω}
    (hfrom : answer.From s.toServer)
    (hturn : ClientSocket.turn (Server02.onMsgHandle otherBranches) fuel readable answer answers
      s.server = some (false, next)) :
    Inv { s with
      server := next
      serverRead := s.serverRead + if readable then
        (answer.received s.server.sock (serverRecvBufferSize - s.server.retainSize)).length
        else 0 } := by
  simp only [ClientSocket.turn] at hturn
  split at hturn
  next => cases hturn
  next => cases hturn
  next middle hrecv =>
    obtain ⟨⟨value, last⟩, hsend, hresult⟩ := Option.map_eq_some_iff.mp hturn
    obtain ⟨_, rfl⟩ := Prod.mk.inj hresult
    cases readable with
    | false =>
        cases hrecv
        exact hinv.processorSend hsend
    | true =>
        simp only [ClientSocket.recvFails, if_true] at hrecv
        split at hrecv
        next value' _ hcall =>
          obtain ⟨_, rfl⟩ := Prod.mk.inj (Option.some.inj hrecv)
          exact (hinv.processorRecv hfrom ⟨fuel, hcall⟩).processorSend hsend
        next => cases hrecv

/-- The messages that have come back are the first of those sent, in order, and all
of them when nothing is on its way. -/
theorem Inv.delivered {s : Connection ω} (hinv : Inv s) (hclient : s.client.sock ≠ invalidSocket)
    (hserver : s.server.sock ≠ invalidSocket) :
    s.client.ext.delivered.map message <+: s.sent ∧
      (s.Empty → s.client.ext.delivered.map message = s.sent) := by
  obtain ⟨echoed, arrived, delivered, hforth, hback, hwaiting, hdelivered⟩ :=
    hinv.chain hclient hserver
  obtain ⟨hechoed, harrived⟩ := Chain.frames hinv hforth hback
  have hmessages : s.client.ext.delivered.map message = delivered := by
    rw [hdelivered, List.map_map]
    refine (List.map_congr_left fun frame hframe => ?_).trans (List.map_id _)
    apply message_padded
    exact (harrived frame (hwaiting ▸ List.mem_append_left _ hframe)).isFrame
  rw [hmessages]
  refine ⟨(hwaiting ▸ List.prefix_append _ _).trans (hback.order.trans hforth.order), ?_⟩
  intro hempty
  have hsent := hforth.eq_of_empty hinv.frames
    (Endpoint.outgoing_of_empty hempty.clientQueues.1 hempty.clientSend.1 hempty.clientSend.2)
    hempty.channels.1 hempty.serverRecv
  have hreturned := hback.eq_of_empty (fun frame hframe => (hechoed frame hframe).isFrame)
    (Endpoint.outgoing_of_empty hempty.serverQueue hempty.serverSend.1 hempty.serverSend.2)
    hempty.channels.2 hempty.clientRecv
  rw [hempty.clientQueues.2, List.map_nil, List.append_nil] at hwaiting
  exact hwaiting.symm.trans (hreturned.trans hsent)

/-- A new connection, as the two processes make it. -/
theorem Inv.new {link : Link} (hnew : link.New) (sock : Socket) (own : Fresh)
    (test : TestCounters) : Inv (link.connection (Client.new sock own test)) := by
  have hreachable : (machine fun (world : Unit) _ => (world, [])).Reachable
      (link.connection (Client.new sock own test)) := by
    obtain ⟨sock', sendBuf, recvBuf, package, test', rfl⟩ := hnew
    exact .start ⟨sock', sendBuf, recvBuf, package, test', sock, (), own.sendBuf, own.recvBuf,
      own.package, some test, rfl⟩
  exact inv_of_reachable hreachable

end Connection

namespace EchoServer

variable {ω : Type} {otherBranches : MsgHandle ω} {s next : EchoServer}

theorem setLink_self (s : EchoServer) (sock : Socket) (link : Link) :
    (s.setLink sock link).links sock = link :=
  if_pos rfl

theorem setLink_of_ne (s : EchoServer) (link : Link) {sock other : Socket} (hne : other ≠ sock) :
    (s.setLink sock link).links other = s.links other :=
  if_neg hne

/-! ## The whole system -/

/-- What holds of the system. Every connection is a connection of two processes, and
one whose descriptor still waits is one for whatever client will be made for it. -/
structure Inv (s : EchoServer) : Prop where
  server : s.server.Inv
  nodup : s.server.live.Nodup
  waiting : ∀ sock ∈ s.server.waiting, ∀ own test,
    Connection.Inv ((s.links sock).connection (Client.new sock own test))
  joined : ∀ client, s.server.Joined client →
    Connection.Inv ((s.links client.sock).connection client)

/-- A step of one client changes its own connection only. -/
theorem Inv.setLink (hinv : Inv s) (sock : Socket) (link : Link)
    (hwaiting : sock ∈ s.server.waiting → ∀ own test,
      Connection.Inv ((s.links sock).connection (Client.new sock own test)) →
      Connection.Inv (link.connection (Client.new sock own test)))
    (hjoined : ∀ client, s.server.Joined client → client.sock = sock →
      Connection.Inv ((s.links sock).connection client) → Connection.Inv (link.connection client)) :
    Inv (s.setLink sock link) := by
  refine ⟨hinv.server, hinv.nodup, fun other hmem own test => ?_, fun client hclient => ?_⟩
  · have hold := hinv.waiting other hmem own test
    by_cases hsame : other = sock
    · subst hsame
      rw [setLink_self]
      exact hwaiting hmem own test hold
    · rwa [s.setLink_of_ne link hsame]
  · have hold := hinv.joined client hclient
    by_cases hsame : client.sock = sock
    · subst hsame
      rw [setLink_self]
      exact hjoined client hclient rfl hold
    · rwa [s.setLink_of_ne link hsame]

/-- A step that keeps every connection with this descriptor. -/
theorem Inv.step_client (hinv : Inv s) (sock : Socket) (link : Link)
    (hkeeps : ∀ client, Connection.Inv ((s.links sock).connection client) →
      Connection.Inv (link.connection client)) : Inv (s.setLink sock link) :=
  hinv.setLink sock link (fun _ _ _ hold => hkeeps _ hold) fun _ _ _ hold => hkeeps _ hold

theorem Inv.recvThread (hinv : Inv s) {sock : Socket} {answer : ReadAnswer}
    (hgives : s.Gives sock answer) {value : Int} {client : SelectClientThread}
    (hcall : SelectClientThread.Returns answer (s.links sock).client value client) :
    Inv (s.setLink sock { s.links sock with
      client
      clientRead := (s.links sock).clientRead + (answer.received (s.links sock).client.sock
        (clientRecvBufferSize - (s.links sock).client.retainSize)).length }) := by
  refine hinv.setLink sock _ (fun hwaiting own test hold => ?_) fun server hjoined hsock hold => ?_
  · have hnone : ((s.links sock).connection (Client.new sock own test)).toClient = [] :=
      List.drop_nil
    exact hold.recvThread (hnone ▸ hgives.2 hwaiting) hcall
  · exact hold.recvThread (hgives.1 server hjoined hsock) hcall

/-- A connection is untouched while its descriptor is not swept. -/
theorem received_of_not_mem {label : ServerLabel ω} {sock : Socket}
    (hother : ∀ position answer, label = .handle position (.poll answer) →
      ∀ h, s.server.clientHandleArr[position]? = some h → sock ∉ h.socks) :
    s.received label sock = s.links sock := by
  unfold received
  split
  next position readable turns =>
    split
    next => rfl
    next h hat =>
      have hlen : h.clientSockArr.length ≤ h.socks.idxOf sock := by
        rw [List.idxOf_eq_length (hother position _ rfl h hat), SelectClientHandle.socks,
          List.length_map]
      have hnone : h.reads readable turns sock = 0 := by
        rw [SelectClientHandle.reads, List.getElem?_eq_none hlen]
      rw [hnone]
      rfl
  next => rfl

/-- What the sweep reads for the client at a position. -/
theorem reads_eq {h : SelectClientHandle} (hnodup : h.socks.Nodup) {index : Nat} {client : Client}
    (hat : h.clientSockArr[index]? = some client) (readable : Socket → Bool)
    (turns : Nat → ClientTurn ω) :
    h.reads readable turns client.sock =
      if client.sock ∈ h.fdRead readable then
        ((turns index).recv.received client.sock
          (serverRecvBufferSize - client.retainSize)).length
      else 0 := by
  have hsocks : h.socks[index]? = some client.sock := by
    rw [SelectClientHandle.socks, List.getElem?_map, hat]
    rfl
  obtain ⟨hlt, hsock⟩ := List.getElem?_eq_some_iff.mp hsocks
  have hindex : h.socks.idxOf client.sock = index := by
    rw [← hsock]
    exact hnodup.idxOf_getElem index hlt
  rw [SelectClientHandle.reads, hindex, hat]

theorem mem_waiting_of_moves {server server' : SelectServerThread} {accepts : List Socket}
    (hmoves : server.Moves server' accepts) {sock : Socket} (hmem : sock ∈ server'.waiting) :
    sock ∈ server.waiting ∨ sock ∈ accepts := by
  have hcount := hmoves.waiting sock
  have hpos := List.count_pos_iff.mpr hmem
  rcases Nat.eq_zero_or_pos (server.waiting.count sock) with hzero | hold
  · exact Or.inr (List.count_pos_iff.mp (by omega))
  · exact Or.inl (List.count_pos_iff.mp hold)

/-- A client that survives its turn has kept its connection. -/
theorem Inv.swept (hinv : Inv s) {position index fuel : Nat} {h : SelectClientHandle}
    {before after : Client} {readable : Socket → Bool} {turns : Nat → ClientTurn ω}
    (hsupplies : s.Supplies (.handle position (.poll (.ready readable turns))))
    (hat : s.server.clientHandleArr[position]? = some h)
    (hbefore : h.clientSockArr[index]? = some before)
    (hsurvives : SelectClientHandle.Survives (Server02.onMsgHandle otherBranches) fuel
      (h.fdRead readable) (turns index) before after) :
    Connection.Inv ((s.received (.handle position (.poll (.ready readable turns)))
      after.sock).connection after) := by
  obtain ⟨test, t, hturn, rfl⟩ := hsurvives
  have hmem : before ∈ h.clientSockArr := List.mem_of_getElem? hbefore
  have hopen := (hinv.server.handles h (List.mem_of_getElem? hat)).serving.clients before hmem
  have hentered := Client.enter_inv hopen.inv (turns index).world test
  have hsock : t.sock = before.sock := by
    cases (ClientSocket.turn_spec hentered hopen.sock hturn).2 with
    | kept hsock _ => exact hsock
  have hconnected := hinv.joined before ⟨position, h, hat, hmem⟩
  have hturned := ((hconnected.enter (turns index).world test).turn
    (hsupplies h index before hat hbefore) hturn).leave
  have hlink : s.received (.handle position (.poll (.ready readable turns))) before.sock =
      { s.links before.sock with
        serverRead := (s.links before.sock).serverRead +
          h.reads readable turns before.sock } := by
    simp only [received, hat]
  rw [show (Client.leave t).sock = before.sock from hsock, hlink,
    reads_eq (SelectServerThread.socks_nodup hinv.nodup hat) hbefore]
  simp only [decide_eq_true_eq] at hturned
  exact hturned

/-- A step of the server that accepts nobody. -/
theorem Inv.serve (hinv : Inv s) {label : ServerLabel ω} (hlabel : label.accepts = [])
    (hsupplies : s.Supplies label) {fuel : Nat} {server : SelectServerThread}
    (hstep : s.server.step (Server02.onMsgHandle otherBranches) fuel label = some server) :
    Inv { server, links := s.received label } := by
  have hmoves := SelectServerThread.moves_of_step hinv.server hstep
  rw [hlabel] at hmoves
  have hnodup : server.live.Nodup := by
    rw [List.nodup_iff_count_le_one]
    intro sock
    exact Nat.le_trans (hmoves.live sock) (List.nodup_iff_count_le_one.mp hinv.nodup sock)
  -- a descriptor that waits is in no list, so no sweep touches its connection
  have hwaiting : ∀ sock ∈ server.waiting, ∀ own test,
      Connection.Inv ((s.received label sock).connection (Client.new sock own test)) := by
    intro sock hmem own test
    have hwaits : sock ∈ s.server.waiting :=
      (mem_waiting_of_moves hmoves hmem).resolve_right List.not_mem_nil
    have hsame : s.received label sock = s.links sock := by
      refine received_of_not_mem fun position answer _ h hat hsocks => ?_
      obtain ⟨other, hother, rfl⟩ := List.mem_map.mp hsocks
      exact SelectServerThread.waiting_disjoint hinv.nodup hwaits
        (SelectServerThread.mem_served hat hother)
    rw [hsame]
    exact hinv.waiting sock hwaits own test
  have hjoins : ∀ client, server.Joined client →
      Connection.Inv ((s.received label client.sock).connection client) := by
    intro client hjoined
    cases SelectServerThread.origin_of_step hinv.server hstep hjoined with
    | @kept position h hat hmem hother =>
        have hsame : s.received label client.sock = s.links client.sock := by
          refine received_of_not_mem fun other answer hpoll h' hat' hsocks => ?_
          have hposition := SelectServerThread.position_eq hinv.nodup hat hat'
            (List.mem_map_of_mem hmem) hsocks
          exact hother answer (hposition ▸ hpoll)
        rw [hsame]
        exact hinv.joined client ⟨position, h, hat, hmem⟩
    | adopted hclient hwaits hother =>
        have hsame : s.received label client.sock = s.links client.sock :=
          received_of_not_mem fun other answer hpoll => absurd hpoll (hother other answer)
        rw [hsame, hclient]
        exact hinv.waiting _ hwaits _ _
    | @swept position index h before readable turns hpoll hat hbefore hsurvives =>
        subst hpoll
        exact hinv.swept hsupplies hat hbefore hsurvives
  exact ⟨hinv.server.step hstep, hnodup, hwaiting, hjoins⟩

/-- A client behind a descriptor that was not in use. -/
theorem Inv.accept (hinv : Inv s) {clientSock : Socket} {counts : Counts} {link : Link}
    (hfree : clientSock ∉ s.server.live) (hnew : link.New) {fuel : Nat}
    {server : SelectServerThread}
    (hstep : s.server.step (Server02.onMsgHandle otherBranches) fuel
      (.onRun (.client clientSock counts)) = some server) :
    Inv { s.setLink clientSock link with server } := by
  have hmoves := SelectServerThread.moves_of_step hinv.server hstep
  rw [SelectServerThread.live, List.mem_append, not_or] at hfree
  have hnodup : server.live.Nodup := by
    rw [List.nodup_iff_count_le_one]
    intro sock
    have hmore := hmoves.live sock
    have hold := List.nodup_iff_count_le_one.mp hinv.nodup sock
    by_cases hsame : sock = clientSock
    · have hnone : s.server.live.count sock = 0 := by
        rw [hsame, List.count_eq_zero, SelectServerThread.live, List.mem_append, not_or]
        exact hfree
      have hone : [clientSock].count sock ≤ 1 := List.count_le_length
      change _ ≤ _ + [clientSock].count sock at hmore
      omega
    · have hother : [clientSock].count sock = 0 := by
        rw [List.count_eq_zero, List.mem_singleton]
        exact hsame
      change _ ≤ _ + [clientSock].count sock at hmore
      omega
  have hwaiting : ∀ sock ∈ server.waiting, ∀ own test, Connection.Inv
      (((s.setLink clientSock link).links sock).connection (Client.new sock own test)) := by
    intro sock hmem own test
    by_cases hsame : sock = clientSock
    · subst hsame
      rw [setLink_self]
      exact .new hnew sock own test
    · rw [setLink_of_ne s link hsame]
      refine hinv.waiting sock ((mem_waiting_of_moves hmoves hmem).resolve_right ?_) own test
      exact fun haccepted => hsame (List.mem_singleton.mp haccepted)
  have hjoins : ∀ client, server.Joined client → Connection.Inv
      (((s.setLink clientSock link).links client.sock).connection client) := by
    intro client hjoined
    cases SelectServerThread.origin_of_step hinv.server hstep hjoined with
    | kept hat hmem _ =>
        have hused := SelectServerThread.mem_served hat hmem
        have hother : client.sock ≠ clientSock := fun hsame => hfree.2 (hsame ▸ hused)
        rw [setLink_of_ne s link hother]
        exact hinv.joined client ⟨_, _, hat, hmem⟩
    | adopted hclient hwaits _ =>
        have hother : client.sock ≠ clientSock := fun hsame => hfree.1 (hsame ▸ hwaits)
        rw [setLink_of_ne s link hother, hclient]
        exact hinv.waiting _ hwaits _ _
    | swept hpoll _ _ _ => cases hpoll
  exact ⟨hinv.server.step hstep, hnodup, hwaiting, hjoins⟩

theorem inv_of_reachable (hreach : (machine otherBranches).Reachable s) : Inv s := by
  refine Machine.Reachable.invariant ?_ ?_ hreach
  · rintro ⟨server, links⟩ hnew
    cases hnew
    refine ⟨SelectServerThread.new_inv, List.nodup_nil, fun sock hmem => ?_, ?_⟩
    · cases hmem
    · rintro client ⟨position, h, hat, _⟩
      cases hat
  · intro s event next hinv hstep
    cases event with
    | accept clientSock counts link =>
        obtain ⟨hfree, hnew, fuel, server, hmove, rfl⟩ := hstep
        exact hinv.accept hfree hnew hmove
    | server label =>
        obtain ⟨hlabel, hsupplies, fuel, server, hmove, rfl⟩ := hstep
        exact hinv.serve hlabel hsupplies hmove
    | sendMsg sock msg =>
        obtain ⟨hmsg, rfl⟩ := hstep
        exact hinv.step_client sock _ fun _ hold => hold.sendMsg hmsg
    | sendThread sock answers =>
        obtain ⟨value, client, hsend, rfl⟩ := hstep
        exact hinv.step_client sock _ fun _ hold => hold.sendThread hsend
    | recvThread sock answer =>
        obtain ⟨hgives, value, client, hcall, rfl⟩ := hstep
        exact hinv.recvThread hgives hcall
    | onRun sock =>
        obtain ⟨value, client, hrun, rfl⟩ := hstep
        exact hinv.step_client sock _ fun _ hold => hold.onRun hrun

end EchoServer

/-- However many clients there are, and in whatever order their calls and the
server's threads come: each client that the server has is behind a descriptor of
its own, and while its own end is open it has got back the first of its own messages,
in order and byte for byte, and all of them when nothing is on its way. -/
theorem echo_to_every_client {ω : Type} (otherBranches : MsgHandle ω) (s : EchoServer)
    (hreach : (EchoServer.machine otherBranches).Reachable s) {client : Client}
    (hjoined : s.server.Joined client) :
    (∀ other, s.server.Joined other → other.sock = client.sock → other = client) ∧
      ((s.links client.sock).client.sock ≠ invalidSocket →
        (s.links client.sock).client.ext.delivered.map Connection.message <+:
          (s.links client.sock).sent ∧
        (((s.links client.sock).connection client).Empty →
          (s.links client.sock).client.ext.delivered.map Connection.message =
            (s.links client.sock).sent)) := by
  have hinv := EchoServer.inv_of_reachable hreach
  refine ⟨fun other hother hsock => hother.unique hinv.nodup hjoined hsock, fun hopen => ?_⟩
  obtain ⟨position, h, hat, hmem⟩ := hjoined
  have hserving := (hinv.server.handles h (List.mem_of_getElem? hat)).serving
  exact (hinv.joined client ⟨position, h, hat, hmem⟩).delivered hopen
    (hserving.clients client hmem).sock

/-! ## Two clients -/

namespace EchoServer

/-- A client that has just connected, with zeros in its arrays. -/
def connected (sock : Socket) : Link where
  client := (SelectClientThread.connect (.connected sock)
    (.new (fun _ => 0) (fun _ => 0) (fun _ => 0) none)).2
  serverRead := 0
  clientRead := 0
  sent := []

/-- What the arrays of a new client hold. -/
def zeros : Fresh := ⟨fun _ => 0, fun _ => 0, fun _ => 0⟩

/-- The messages of the two. -/
def message : Socket → List Byte
  | 5 => [6, 0, 8, 0, 1, 0]
  | _ => [8, 0, 8, 0, 2, 0, 104, 105]

/-- Both are readable, and the kernel takes what is sent back. -/
def bothTurns : PollAnswer Unit :=
  .ready (fun _ => true) fun index =>
    ⟨(), .data (message (if index = 0 then 5 else 6)), fun _ => .writable 8⟩

/-- One handler with two clients. -/
structure Pair (s : EchoServer) (h : SelectClientHandle) (first second : Client) : Prop where
  handles : s.server.clientHandleArr = [h]
  clients : h.clientSockArr = [first, second]
  waiting : s.server.waiting = []
  socks : first.sock = 5 ∧ second.sock = 6

section Pair

variable {s : EchoServer} {h : SelectClientHandle} {first second : Client}

theorem Pair.joined (hpair : Pair s h first second) :
    s.server.Joined first ∧ s.server.Joined second := by
  have hat : s.server.clientHandleArr[0]? = some h := by rw [hpair.handles]; rfl
  refine ⟨⟨0, h, hat, ?_⟩, 0, h, hat, ?_⟩
  · rw [hpair.clients]
    exact List.mem_cons_self
  · rw [hpair.clients]
    exact List.mem_cons_of_mem _ List.mem_cons_self

theorem Pair.supplies (hpair : Pair s h first second)
    (hfirst : s.toServer 5 = message 5) (hsecond : s.toServer 6 = message 6) :
    s.Supplies (.handle 0 (.poll bothTurns)) := by
  intro h' index client hat hclient
  rw [hpair.handles] at hat
  cases hat
  rw [hpair.clients] at hclient
  obtain _ | _ | index := index
  · cases hclient
    rw [hpair.socks.1, hfirst]
    exact List.prefix_rfl
  · cases hclient
    rw [hpair.socks.2, hsecond]
    exact List.prefix_rfl
  · cases hclient

/-- The first client's `recv` may have what its own end has sent. -/
theorem Pair.gives (hpair : Pair s h first second) {bytes : List Byte}
    (hsent : first.inFlight (s.links 5).clientRead = bytes) :
    s.Gives 5 (.readable (.data bytes)) := by
  refine ⟨?_, fun hwaits => ?_⟩
  · rintro client ⟨position, h', hat, hmem⟩ hsock
    rw [hpair.handles] at hat
    obtain _ | position := position
    · cases hat
      rw [hpair.clients, List.mem_pair] at hmem
      rcases hmem with rfl | rfl
      · rw [hsent]
        exact List.prefix_rfl
      · rw [hpair.socks.2] at hsock
        exact absurd hsock (by decide)
    · cases hat
  · rw [hpair.waiting] at hwaits
    cases hwaits

end Pair

end EchoServer

/-- Two clients of one handler send a message each, and both are served. The first
has received its message, and nothing is on its way on its connection. -/
theorem EchoServer.exists_echoed :
    ∃ (s : EchoServer) (h : SelectClientHandle) (first second : Client),
      (machine fun (world : Unit) _ => (world, [])).Reachable s ∧ Pair s h first second ∧
      (s.links 5).sent = [message 5] ∧ (s.links 6).sent = [message 6] ∧
      (s.links 5).client.sock = 5 ∧ (s.links 6).client.sock = 6 ∧
      ((s.links 5).connection first).Empty := by
  let counts : Counts := ⟨0, fun _ => 0, fun _ => 0⟩
  let machine : Machine EchoServer (Event Unit) := machine fun world _ => (world, [])
  have hnew : ∀ sock, (connected sock).New := fun sock => ⟨sock, _, _, _, _, rfl⟩
  have hstart : machine.Reachable ⟨.new, fun _ => connected 9⟩ := .start rfl
  have hinit := hstart.step (.server (.initServer 1)) ⟨rfl, trivial, 0, _, rfl, rfl⟩
  have hbind := hinit.step (.server (.bind (.bound 3))) ⟨rfl, trivial, 0, _, rfl, rfl⟩
  have hfirst := hbind.step (.accept 5 counts (connected 5)) ⟨by decide, hnew 5, 0, _, rfl, rfl⟩
  have hsecond := hfirst.step (.accept 6 counts (connected 6)) ⟨by decide, hnew 6, 0, _, rfl, rfl⟩
  have hqueued := hsecond.step (.sendMsg 5 (Memory.ofList (message 5) 0))
    ⟨⟨by decide, by decide, by decide⟩, rfl⟩
  have hqueued' := hqueued.step (.sendMsg 6 (Memory.ofList (message 6) 0))
    ⟨⟨by decide, by decide, by decide⟩, rfl⟩
  have hsent := hqueued'.step (.sendThread 5 fun _ => .writable 8) ⟨_, _, rfl, rfl⟩
  have hsent' := hsent.step (.sendThread 6 fun _ => .writable 8) ⟨_, _, rfl, rfl⟩
  have htest := hsent'.step (.server (.handle 0 .test)) ⟨rfl, trivial, 0, _, rfl, rfl⟩
  have hdrain := htest.step (.server (.handle 0 (.drain fun _ => zeros)))
    ⟨rfl, trivial, 3, _, rfl, rfl⟩
  have hpoll := hdrain.step (.server (.handle 0 (.poll bothTurns)))
    ⟨rfl, Pair.supplies ⟨rfl, rfl, rfl, rfl, rfl⟩ rfl rfl, 3, _, rfl, rfl⟩
  have hrecv := hpoll.step (.recvThread 5 (.readable (.data (message 5))))
    ⟨Pair.gives ⟨rfl, rfl, rfl, rfl, rfl⟩ rfl, _, _, ⟨2, rfl⟩, rfl⟩
  have hrun := hrecv.step (.onRun 5) ⟨_, _, rfl, rfl⟩
  exact ⟨_, _, _, _, hrun, ⟨rfl, rfl, rfl, rfl, rfl⟩, rfl, rfl, rfl, rfl,
    ⟨rfl, rfl⟩, ⟨rfl, rfl⟩, rfl, rfl, ⟨rfl, rfl⟩, rfl, rfl, rfl⟩

/-- The first client has its message back, and the second nothing of it. -/
theorem echo_to_every_client_two :
    ∃ (s : EchoServer) (first second : Client), s.server.Joined first ∧ s.server.Joined second ∧
      first.sock = 5 ∧ second.sock = 6 ∧
      (s.links 5).client.ext.delivered.map Connection.message = [EchoServer.message 5] ∧
      (s.links 6).client.ext.delivered.map Connection.message <+: [EchoServer.message 6] := by
  obtain ⟨s, h, first, second, hreach, hpair, hsent, hsent', hsock, hsock', hempty⟩ :=
    EchoServer.exists_echoed
  obtain ⟨hjoined, hjoined'⟩ := hpair.joined
  obtain ⟨hfirst, hsecond⟩ := hpair.socks
  refine ⟨s, first, second, hjoined, hjoined', hfirst, hsecond, ?_, ?_⟩
  · have hecho := (echo_to_every_client _ s hreach hjoined).2 (by rw [hfirst, hsock]; decide)
    rw [hfirst] at hecho
    rw [hecho.2 hempty, hsent]
  · have hecho := (echo_to_every_client _ s hreach hjoined').2 (by rw [hsecond, hsock']; decide)
    rw [hsecond, hsent'] at hecho
    exact hecho.1

end SelectNet
