import SelectNet.ServerTest.Speaking

/-!
# Server01 and its users

Server01 and a Client01 at the other end of every connection. The server's calls, the
clients' calls and the users' lines come in any order; the kernel gives each `recv`
bytes from the front of that connection's channel, and `accept` an address and a
descriptor that no client has. Each call of a client is one step, so calls of one
client do not overlap; a line that a user types fits into its buffer, and its strings
into their fields. All of it is one log: at every moment each user has asked for the
first of its commands that the log has of it, and has been shown the first of what the
log shows it.
-/

namespace SelectNet

namespace Guest

/-- What its client has sent and the server has not received. -/
def toServer (guest : Guest) : List Byte := guest.client.inFlight guest.serverRead

/-- A user whose client has just connected, when the server has handled this log. -/
def New (log : Log) (guest : Guest) : Prop :=
  ∃ sock sendBuf recvBuf package test, guest =
    { client := (SelectClientThread.connect (.connected sock)
        (.new sendBuf recvBuf package test)).2
      lines := []
      serverRead := 0
      clientRead := 0
      since := log.length }

end Guest

/-- The server, and who is behind the address of each of its clients. -/
structure ChatRoom where
  server : SelectServer (Locals × Log)
  guests : ClientId → Guest

namespace ChatRoom

def log (s : ChatRoom) : Log := s.server.world.2

def setGuest (s : ChatRoom) (pClient : ClientId) (guest : Guest) : ChatRoom :=
  { s with guests := fun other => if other = pClient then guest else s.guests other }

/-- The set that `OnRun` sweeps with, unless it returns at once. -/
def swept (s : ChatRoom) (answers : OnRunAnswers) : Option FdSet :=
  if s.server.serverSock = invalidSocket then none else answers.select

/-- The guests once `OnRun` has accepted. -/
def joined (s : ChatRoom) (fdRead : FdSet) (answers : OnRunAnswers) (guest : Guest)
    (pClient : ClientId) : Guest :=
  if s.server.serverSock ∈ fdRead ∧ answers.accept.map NewClient.pClient = some pClient then guest
  else s.guests pClient

/-- How many bytes `recv` returns for a client in a sweep. -/
def reads (members : List Member) (fdRead : FdSet) (turns : ClientId → ClientAnswers)
    (pClient : ClientId) : Nat :=
  match members.find? fun member => member.pClient = pClient with
  | none => 0
  | some member =>
      if member.client.sock ∈ fdRead then
        (ClientSocket.chunk (turns pClient).recv member.client).length
      else 0

/-- The guests behind `OnRun`: the server has taken what its `recv` calls returned. -/
def received (s : ChatRoom) (answers : OnRunAnswers) (guest : Guest) (pClient : ClientId) : Guest :=
  match s.swept answers with
  | none => s.guests pClient
  | some fdRead =>
      (s.joined fdRead answers guest pClient).heardBytes
        (reads (s.server.joined fdRead answers.accept).clientSockArr
          (fdRead.erase s.server.serverSock) answers.turns pClient)

/-- The server's `recv` calls are given bytes of their own channels. -/
def Supplies (s : ChatRoom) (answers : OnRunAnswers) (guest : Guest) : Prop :=
  ∀ fdRead, s.swept answers = some fdRead →
    ∀ member ∈ (s.server.joined fdRead answers.accept).clientSockArr,
      (answers.turns member.pClient).recv.From
        (s.joined fdRead answers guest member.pClient).toServer

/-- The `recv` of a client is given bytes that its server's end has sent. Behind an
address that the server has deleted anything may come. -/
def Gives (s : ChatRoom) (pClient : ClientId) (answer : ReadAnswer) : Prop :=
  ∀ member ∈ s.server.clientSockArr, member.pClient = pClient →
    answer.From (member.client.inFlight (s.guests pClient).clientRead)

/-- A call of the server besides `OnRun`, or its handler's stack moving on. Server01
calls `Broadcast` in its handler only. -/
def Between (s : ChatRoom) : SelectServer.Event (Locals × Log) → Prop
  | .onRun _ | .broadcast _ _ => False
  | .elsewhere world => world.2 = s.log
  | .bind _ | .listen _ | .close => True

inductive Event where
  | server (event : SelectServer.Event (Locals × Log))
  | onRun (answers : OnRunAnswers) (guest : Guest)
  | line (pClient : ClientId) (line : StdString) (stack : Memory Byte)
  | sendThread (pClient : ClientId) (answers : Nat → SendAnswer)
  | recvThread (pClient : ClientId) (answer : ReadAnswer)
  | clientRun (pClient : ClientId)

def machine : Machine ChatRoom Event where
  initial s := ∃ own, s.server = .new (own, [])
  step s event next :=
    match event with
    | .server event => s.Between event ∧ ∃ server,
        (SelectServer.machine Server01.recording).step s.server event server ∧
        next = { s with server }
    | .onRun answers guest => guest.New s.log ∧ s.Supplies answers guest ∧ ∃ server,
        (SelectServer.machine Server01.recording).step s.server (.onRun answers) server ∧
        next = { server, guests := s.received answers guest }
    | .line pClient line stack => Client01.Typed line ∧ ∃ value client,
        Client01.processorSend line stack (s.guests pClient).client = some (value, client) ∧
        next = s.setGuest pClient { s.guests pClient with
          client
          lines := (s.guests pClient).lines ++ [line] }
    | .sendThread pClient answers => ∃ value client,
        SelectClientThread.sendThread answers (s.guests pClient).client = some (value, client) ∧
        next = s.setGuest pClient { s.guests pClient with client }
    | .recvThread pClient answer => s.Gives pClient answer ∧ ∃ value client,
        SelectClientThread.Returns answer (s.guests pClient).client value client ∧
        next = s.setGuest pClient { s.guests pClient with
          client
          clientRead := (s.guests pClient).clientRead +
            (answer.received (s.guests pClient).client.sock
              (clientRecvBufferSize - (s.guests pClient).client.retainSize)).length }
    | .clientRun pClient => ∃ value client,
        SelectClientThread.onRun (s.guests pClient).client = some (value, client) ∧
        next = s.setGuest pClient { s.guests pClient with client }

/-! ## What holds of the room -/

/-- The log has of everybody the first of what it has asked for since it joined. -/
def Asked (log : Log) (guests : ClientId → Guest) : Prop :=
  ∀ pClient, Log.own pClient (log.drop (guests pClient).since) <+: (guests pClient).commands

theorem Asked.of_more {log : Log} {guests more : ClientId → Guest} (hasked : Asked log guests)
    (hmore : ∀ pClient, (more pClient).since = (guests pClient).since ∧
      (guests pClient).commands <+: (more pClient).commands) : Asked log more := by
  intro pClient
  rw [(hmore pClient).1]
  exact (hasked pClient).trans (hmore pClient).2

/-- One client is heard. -/
theorem Asked.spoken {log : Log} {guests : ClientId → Guest} (hasked : Asked log guests)
    {sender : ClientId} {frames : List (List Byte)} (hsince : (guests sender).since ≤ log.length)
    (hsender : Log.own sender (log.drop (guests sender).since) ++
      Log.own sender (Log.entries sender frames) <+: (guests sender).commands) :
    Asked (log ++ Log.entries sender frames) guests := by
  intro pClient
  by_cases hsame : pClient = sender
  · rw [hsame, List.drop_append_of_le_length hsince, Log.own_append]
    exact hsender
  · have hnone : Log.own pClient ((Log.entries sender frames).drop
        ((guests pClient).since - log.length)) = [] := by
      rw [Log.entries, ← List.map_drop]
      exact Log.own_entries_of_ne hsame _
    rw [List.drop_append, Log.own_append, hnone, List.append_nil]
    exact hasked pClient

/-- Every client of the server is the other end of its guest's connection. -/
structure Inv (s : ChatRoom) : Prop where
  server : s.server.Inv
  asked : Asked s.log s.guests
  seated : ∀ member ∈ s.server.clientSockArr, Seated s.log (s.guests member.pClient) member

variable {s next : ChatRoom} {handle : ServerHandle (Locals × Log)}

theorem setGuest_self (s : ChatRoom) (pClient : ClientId) (guest : Guest) :
    (s.setGuest pClient guest).guests pClient = guest :=
  if_pos rfl

theorem setGuest_of_ne (s : ChatRoom) (guest : Guest) {pClient other : ClientId}
    (hne : other ≠ pClient) : (s.setGuest pClient guest).guests other = s.guests other :=
  if_neg hne

/-- A step of one client changes its own connection only. -/
theorem Inv.setGuest (hinv : Inv s) (pClient : ClientId) {guest : Guest}
    (hsince : guest.since = (s.guests pClient).since)
    (hmore : (s.guests pClient).commands <+: guest.commands)
    (hkeeps : ∀ member ∈ s.server.clientSockArr, member.pClient = pClient →
      Seated s.log (s.guests pClient) member → Seated s.log guest member) :
    Inv (s.setGuest pClient guest) := by
  refine ⟨hinv.server, hinv.asked.of_more fun other => ?_, fun member hmember => ?_⟩
  · by_cases hsame : other = pClient
    · rw [hsame, setGuest_self]
      exact ⟨hsince, hmore⟩
    · rw [s.setGuest_of_ne guest hsame]
      exact ⟨rfl, List.prefix_rfl⟩
  have hold := hinv.seated member hmember
  by_cases hsame : member.pClient = pClient
  · subst hsame
    rw [setGuest_self]
    exact hkeeps member hmember rfl hold
  · rwa [s.setGuest_of_ne guest hsame]

/-! ## The sweep -/

/-- A new connection, as the two processes make it. -/
theorem seated_new {log : Log} {guest : Guest} (hnew : guest.New log) (new : NewClient) :
    Seated log guest ⟨new.pClient, ClientSocket.new new.sock () new.fresh.sendBuf
      new.fresh.recvBuf new.fresh.package none, []⟩ := by
  obtain ⟨sock, sendBuf, recvBuf, package, test, rfl⟩ := hnew
  have hclient := SelectClientThread.new_inv sendBuf recvBuf package test
  obtain ⟨hconnected, hidle⟩ := hclient.close.reopen hclient.close_sock sock
  have hnothing : log.drop log.length = [] := List.drop_length
  refine ⟨hconnected, Nat.le_refl _, ⟨[], [], .nil, .nil, ?_, fun _ => ?_⟩, ?_, ?_,
    ⟨[], rfl, List.prefix_rfl, fun _ => .nil⟩, List.prefix_rfl⟩
  · rw [hnothing]
    rfl
  · exact hidle.outgoing_eq hconnected.send
  · exact fun _ hone => absurd hone List.not_mem_nil
  · rw [hnothing]
    rfl

/-- What the sweep reads for a member. -/
theorem reads_eq {members : List Member} (hnames : (members.map Member.pClient).Nodup)
    {member : Member} (hmember : member ∈ members) (fdRead : FdSet)
    (turns : ClientId → ClientAnswers) : reads members fdRead turns member.pClient =
      if member.client.sock ∈ fdRead then
        (ClientSocket.chunk (turns member.pClient).recv member.client).length
      else 0 := by
  have hfind : members.find? (fun other => other.pClient = member.pClient) = some member := by
    induction members with
    | nil => exact absurd hmember List.not_mem_nil
    | cons head rest ih =>
        rw [List.map_cons, List.nodup_cons] at hnames
        rcases List.mem_cons.mp hmember with rfl | hrest
        · exact List.find?_cons_of_pos (decide_eq_true rfl)
        · have hne : head.pClient ≠ member.pClient := by
            intro hsame
            exact hnames.1 (hsame ▸ List.mem_map_of_mem hrest)
          rw [List.find?_cons_of_neg (by simpa using hne)]
          exact ih hnames.2 hrest
  rw [reads, hfind]

/-- Where a sweep stands: those who have had their turn, and those who wait for it with
what their `recv` will be given. -/
structure Swept (log : Log) (joined : ClientId → Guest) (fdRead : FdSet)
    (turns : ClientId → ClientAnswers) (count : ClientId → Nat) (before after : List Member)
    (world : Locals × Log) : Prop where
  grown : log <+: world.2
  asked : Asked world.2 joined
  done : ∀ member ∈ before,
    Seated world.2 ((joined member.pClient).heardBytes (count member.pClient)) member
  waiting : ∀ member ∈ after, Seated world.2 (joined member.pClient) member
  supplied : ∀ member ∈ after,
    (turns member.pClient).recv.From (joined member.pClient).toServer
  counted : ∀ member ∈ after, count member.pClient =
    if member.client.sock ∈ fdRead then
      (ClientSocket.chunk (turns member.pClient).recv member.client).length
    else 0

/-- Every turn of a sweep keeps it. -/
theorem swept_kept {start : SelectServer (Locals × Log)} (hstart : start.Inv) (fuel : Nat)
    (log : Log) (joined : ClientId → Guest) (fdRead : FdSet) (turns : ClientId → ClientAnswers)
    (count : ClientId → Nat) :
    SelectServer.KeptByTurns Server01.recording start fuel fdRead turns
      (Swept log joined fdRead turns count) := by
  intro before member after s failed client hsweeps hswept hturn
  have hnames : ((before ++ member :: after).map Member.pClient).Nodup := by
    have hstart := hstart.names
    rw [Member.map_pClient] at hstart ⊢
    exact hstart.sublist (hsweeps.keys.map Prod.fst)
  rw [List.map_append, List.map_cons, List.nodup_append, List.nodup_cons] at hnames
  obtain ⟨_, ⟨hnotafter, _⟩, hdisjoint⟩ := hnames
  have hfront : ∀ other ∈ before, other.pClient ≠ member.pClient := fun other hother =>
    hdisjoint _ (List.mem_map_of_mem hother) _ List.mem_cons_self
  have hback : ∀ other ∈ after, other.pClient ≠ member.pClient := fun other hother hsame =>
    hnotafter (hsame ▸ List.mem_map_of_mem hother)
  have hwaiting := hsweeps.waiting
  rw [List.forall_mem_cons] at hwaiting
  have hbefore : Sweeping.Others member.pClient before := fun other hother =>
    ⟨(hsweeps.done other hother).client.sock, hfront other hother⟩
  have hafter : Sweeping.Others member.pClient after := fun other hother =>
    ⟨(hwaiting.2 other hother).client.sock, hback other hother⟩
  have hserves : Sweeping.Serves s.broadcasts (before.map Member.key) (after.map Member.key)
      ⟨s.world, before, after, s.broadcasts, member.pushed⟩ :=
    ⟨List.prefix_rfl, hsweeps.done, hwaiting.2, rfl, rfl, hwaiting.1.recorded⟩
  obtain ⟨_, hgoes, _⟩ := hwaiting.1.turn hserves rfl hturn
  have hstream : failed = false →
      client.accepted <+: (client.ext.world.pushed.map Sent.bytes).flatten := by
    intro hfailed
    rw [← List.flatMap_def]
    exact ⟨_, (hgoes hfailed).1.carries.stream⟩
  obtain ⟨done, hlog, hshown, hshown', hasked, hstays⟩ :=
    (hswept.waiting member List.mem_cons_self).turn hwaiting.1.client hbefore hafter
      (hswept.supplied member List.mem_cons_self) hturn hstream
  have hcount := hswept.counted member List.mem_cons_self
  have hwait := hswept.waiting
  rw [List.forall_mem_cons] at hwait
  refine ⟨?_, ?_, ?_, ?_, ?_, ?_⟩
  · rw [hlog]
    exact hswept.grown.trans (List.prefix_append _ _)
  · rw [hlog]
    exact hswept.asked.spoken hwait.1.since hasked
  · rw [hlog]
    have hheard := hshown.seated (fun pClient => (joined pClient).heardBytes (count pClient))
      (fun other hother => Log.own_entries_of_ne (hfront other hother) done) hswept.done
    cases failed with
    | true => exact hheard
    | false =>
        have hstay := hstays rfl
        simp only [decide_eq_true_eq, ← hcount] at hstay
        rw [if_neg Bool.false_ne_true, List.forall_mem_append, List.forall_mem_singleton]
        exact ⟨hheard, hstay⟩
  · rw [hlog]
    exact hshown'.seated joined
      (fun other hother => Log.own_entries_of_ne (hback other hother) done) hwait.2
  · intro next hnext
    obtain ⟨other, hother, _, hsends, _⟩ := hshown'.origin hnext
    rw [hsends.pClient]
    exact hswept.supplied other (List.mem_cons_of_mem _ hother)
  · intro next hnext
    obtain ⟨other, hother, _, hsends, _⟩ := hshown'.origin hnext
    rw [hsends.pClient, ClientSocket.chunk, hsends.queues.sock, hsends.queues.retainSize]
    exact hswept.counted other (List.mem_cons_of_mem _ hother)

/-- Whom `OnRun` sweeps over: the clients there were, and a new one. -/
theorem joined_cases (server : SelectServer (Locals × Log)) (fdRead : FdSet)
    (answer : Option NewClient) :
    (server.joined fdRead answer).world = server.world ∧
      ∀ member ∈ (server.joined fdRead answer).clientSockArr, member ∈ server.clientSockArr ∨
        server.serverSock ∈ fdRead ∧ ∃ new, answer = some new ∧
          member = ⟨new.pClient, ClientSocket.new new.sock () new.fresh.sendBuf
            new.fresh.recvBuf new.fresh.package none, []⟩ := by
  obtain ⟨maxSock, fdReadBackup, hrebuild⟩ := server.rebuild_cases
  unfold SelectServer.joined
  rw [hrebuild]
  split
  next hready =>
    cases answer with
    | none => exact ⟨rfl, fun member hmember => Or.inl hmember⟩
    | some new =>
        refine ⟨rfl, fun member hmember => ?_⟩
        rcases List.mem_append.mp hmember with hold | hnew
        · exact Or.inl hold
        · exact Or.inr ⟨hready, new, rfl, List.mem_singleton.mp hnew⟩
  next => exact ⟨rfl, fun member hmember => Or.inl hmember⟩

/-- Everybody sits where `OnRun` begins to sweep. -/
theorem Inv.seatedJoined (hinv : Inv s) {answers : OnRunAnswers} {guest : Guest}
    (hnew : guest.New s.log)
    (hpossible : SelectServer.Possible s.server (.onRun answers)) (fdRead : FdSet) :
    ∀ member ∈ (s.server.joined fdRead answers.accept).clientSockArr,
      Seated s.log (s.joined fdRead answers guest member.pClient) member := by
  intro member hmember
  rcases (joined_cases s.server fdRead answers.accept).2 member hmember with
    hold | ⟨hready, new, haccept, rfl⟩
  · have hother : ¬ (s.server.serverSock ∈ fdRead ∧
        answers.accept.map NewClient.pClient = some member.pClient) := by
      rintro ⟨_, haccept⟩
      obtain ⟨new, hsome, hname⟩ := Option.map_eq_some_iff.mp haccept
      exact (hpossible new hsome).2 member hold hname.symm
    rw [ChatRoom.joined, if_neg hother]
    exact hinv.seated member hold
  · rw [ChatRoom.joined, haccept, if_pos ⟨hready, rfl⟩]
    exact seated_new hnew new

theorem Inv.askedJoined (hinv : Inv s) {guest : Guest} (hnew : guest.New s.log) (fdRead : FdSet)
    (answers : OnRunAnswers) : Asked s.log (s.joined fdRead answers guest) := by
  intro pClient
  unfold ChatRoom.joined
  split
  next =>
    obtain ⟨_, _, _, _, _, rfl⟩ := hnew
    rw [List.drop_length]
    exact List.nil_prefix
  next => exact hinv.asked pClient

/-- `OnRun` adds to the log, and everybody goes on from there. -/
theorem Inv.onRun (hinv : Inv s) {answers : OnRunAnswers} {guest : Guest} (hnew : guest.New s.log)
    (hsupplies : s.Supplies answers guest) {server : SelectServer (Locals × Log)}
    (hstep : (SelectServer.machine Server01.recording).step s.server (.onRun answers) server) :
    Inv { server, guests := s.received answers guest } ∧ s.log <+: server.world.2 := by
  obtain ⟨hpossible, fuel, value, hrun⟩ := hstep
  have hserver := hinv.server.onRun hpossible hrun
  rcases SelectServer.onRun_cases hrun with
    ⟨hclosed, rfl⟩ | ⟨hopen, hselect, rfl⟩ | ⟨hopen, fdRead, hselect, hsweep⟩
  · have hnone : s.swept answers = none := if_pos hclosed
    have hguests : s.received answers guest = s.guests := by
      funext pClient
      simp only [received, hnone]
    rw [hguests]
    exact ⟨hinv, List.prefix_rfl⟩
  · obtain ⟨maxSock, fdReadBackup, hrebuild⟩ := s.server.rebuild_cases
    have hnone : s.swept answers = none := (if_neg hopen).trans hselect
    have hguests : s.received answers guest = s.guests := by
      funext pClient
      simp only [received, hnone]
    rw [hguests]
    rcases s.server.rebuild.close_cases with ⟨_, hclosed⟩ | ⟨_, _, hclose⟩
    · rw [hrebuild] at hclosed
      exact absurd hclosed hopen
    · have hworld : s.server.rebuild.close.world = s.server.world := by
        rw [hclose, hrebuild]
      refine ⟨⟨hserver, ?_, fun member hmember => ?_⟩, ?_⟩
      · rw [log, hworld]
        exact hinv.asked
      · rw [hclose] at hmember
        exact absurd hmember List.not_mem_nil
      · rw [hworld]
        exact List.prefix_rfl
  · have hswept : s.swept answers = some fdRead := (if_neg hopen).trans hselect
    have hstart := hinv.server.joined hpossible fdRead
    have hworld := (joined_cases s.server fdRead answers.accept).1
    have hfirst : Swept s.log (s.joined fdRead answers guest) (fdRead.erase s.server.serverSock)
        answers.turns (reads (s.server.joined fdRead answers.accept).clientSockArr
          (fdRead.erase s.server.serverSock) answers.turns) []
        (s.server.joined fdRead answers.accept).clientSockArr
        (s.server.joined fdRead answers.accept).world := by
      rw [hworld]
      exact ⟨List.prefix_rfl, hinv.askedJoined hnew fdRead answers,
        fun _ hmember => absurd hmember List.not_mem_nil, hinv.seatedJoined hnew hpossible fdRead,
        hsupplies fdRead hswept, fun other hother => reads_eq hstart.names hother _ _⟩
    have hlast := (swept_kept hstart fuel _ _ _ _ _).sweep hstart.sweeps hfirst (Nat.le_refl _)
      hsweep
    have hguests : s.received answers guest = fun pClient =>
        (s.joined fdRead answers guest pClient).heardBytes
          (reads (s.server.joined fdRead answers.accept).clientSockArr
            (fdRead.erase s.server.serverSock) answers.turns pClient) := by
      funext pClient
      simp only [received, hswept]
    rw [hguests]
    exact ⟨⟨hserver, hlast.asked.of_more fun _ => ⟨rfl, List.prefix_rfl⟩, hlast.done⟩, hlast.grown⟩

/-! ## The other steps -/

/-- A call of the server besides `OnRun` sends nothing: it keeps its clients or deletes
all of them. -/
theorem between_cases {event : SelectServer.Event (Locals × Log)} (hbetween : s.Between event)
    {server : SelectServer (Locals × Log)}
    (hstep : (SelectServer.machine Server01.recording).step s.server event server)
    (hinv : s.server.Inv) : server.Inv ∧ server.world.2 = s.log ∧
      ∀ member ∈ server.clientSockArr, member ∈ s.server.clientSockArr := by
  have hclose : ∀ server : SelectServer (Locals × Log), server.close.world = server.world ∧
      ∀ member ∈ server.close.clientSockArr, member ∈ server.clientSockArr := by
    intro server
    rcases server.close_cases with ⟨hsame, _⟩ | ⟨_, _, hclose⟩
    · rw [hsame]
      exact ⟨rfl, fun _ hmember => hmember⟩
    · rw [hclose]
      exact ⟨rfl, fun _ hmember => absurd hmember List.not_mem_nil⟩
  obtain ⟨_, hmoves⟩ := hstep
  cases event with
  | bind answer =>
      subst hmoves
      refine ⟨hinv.bind answer, ?_⟩
      cases answer with
      | noSocket => exact ⟨rfl, fun _ hmember => hmember⟩
      | bound sock => exact ⟨rfl, fun _ hmember => hmember⟩
      | refused sock =>
          obtain ⟨hworld, hmembers⟩ := hclose { s.server with serverSock := sock }
          exact ⟨congrArg Prod.snd hworld, hmembers⟩
  | listen success =>
      subst hmoves
      refine ⟨hinv.listen success, ?_⟩
      cases success with
      | true => exact ⟨rfl, fun _ hmember => hmember⟩
      | false => exact ⟨congrArg Prod.snd (hclose s.server).1, (hclose s.server).2⟩
  | onRun answers => exact hbetween.elim
  | broadcast msg exclude => exact hbetween.elim
  | close =>
      subst hmoves
      exact ⟨hinv.close, congrArg Prod.snd (hclose s.server).1, (hclose s.server).2⟩
  | elsewhere world =>
      cases hmoves
      exact ⟨{ hinv with }, hbetween, fun _ hmember => hmember⟩

theorem inv_of_reachable (hreach : machine.Reachable s) : Inv s := by
  refine Machine.Reachable.invariant ?_ ?_ hreach
  · rintro s ⟨own, hstart⟩
    refine ⟨hstart ▸ SelectServer.new_inv _, fun pClient => ?_, fun member hmember => ?_⟩
    · rw [log, hstart]
      simp only [SelectServer.new, List.drop_nil]
      exact List.nil_prefix
    · rw [hstart] at hmember
      exact absurd hmember List.not_mem_nil
  · intro s event next hinv hstep
    cases event with
    | server event =>
        obtain ⟨hbetween, server, hmoves, rfl⟩ := hstep
        obtain ⟨hserver, hlog, hmembers⟩ := between_cases hbetween hmoves hinv.server
        have hsame : log { s with server } = s.log := hlog
        refine ⟨hserver, ?_, fun member hmember => ?_⟩
        · rw [hsame]
          exact hinv.asked
        · rw [hsame]
          exact hinv.seated member (hmembers member hmember)
    | onRun answers guest =>
        obtain ⟨hnew, hsupplies, server, hmoves, rfl⟩ := hstep
        exact (hinv.onRun hnew hsupplies hmoves).1
    | line pClient line stack =>
        obtain ⟨htyped, value, client, hsend, rfl⟩ := hstep
        have htypes := Guest.types_of_typed htyped hsend
        have hmore : (s.guests pClient).commands <+: Guest.commands { s.guests pClient with
            client
            lines := (s.guests pClient).lines ++ [line] } := by
          rw [Guest.commands_line]
          exact List.prefix_append _ _
        exact hinv.setGuest pClient rfl hmore fun member _ _ hseated =>
          hseated.moves (htypes.inv hseated.client) (hseated.heard.line hseated.client htypes)
            (hseated.told.line hseated.client htypes)
    | sendThread pClient answers =>
        obtain ⟨value, client, hsend, rfl⟩ := hstep
        exact hinv.setGuest pClient rfl List.prefix_rfl fun member _ _ hseated =>
          hseated.moves (hseated.client.sendThread hsend)
            (hseated.heard.sendThread hseated.client hsend)
            (hseated.told.sendThread hseated.client hsend)
    | recvThread pClient answer =>
        obtain ⟨hgives, value, client, hcall, rfl⟩ := hstep
        refine hinv.setGuest pClient rfl List.prefix_rfl fun member hmember hsame hseated => ?_
        exact hseated.moves (hseated.client.recvThread hcall)
          (hseated.heard.recvThread hseated.client hcall _)
          (hseated.told.recvThread hseated.client hseated.framesMap
            (hgives member hmember hsame) hcall)
    | clientRun pClient =>
        obtain ⟨value, client, hrun, rfl⟩ := hstep
        exact hinv.setGuest pClient rfl List.prefix_rfl fun member _ _ hseated =>
          hseated.moves (hseated.client.onRun hrun)
            (hseated.heard.onRun hseated.told hseated.framesMap hrun)
            (hseated.told.onRun hseated.framesMap hrun)

/-! ## One log for all -/

/-- Nothing is waiting or on its way between a user and the server. -/
structure Quiet (guest : Guest) (member : Member) : Prop where
  toServer : guest.client.outgoing = [] ∧ guest.toServer = [] ∧ member.client.retained = []
  toClient : member.client.outgoing = [] ∧ member.client.inFlight guest.clientRead = [] ∧
    guest.client.retained = []
  waiting : guest.client.ext.recvQueue.nodes = []

/-- A user has been shown the first of what the log shows it, and all of it when
nothing is on its way; then all it has asked for is in the log. -/
structure Follows (log : Log) (guest : Guest) (member : Member) : Prop where
  shown : guest.shown <+: Log.shownTo member.pClient log
  settled : guest.client.sock ≠ invalidSocket → Quiet guest member →
    Log.own member.pClient log = guest.commands ∧
      guest.shown = Log.shownTo member.pClient log

/-- What is delivered is shown as what was sent. -/
theorem shown_padded (frames : List (List Byte)) :
    ((frames.map padded).flatMap fun package => Client01.onRecvMsg (asPackage package)) =
      frames.flatMap fun frame => Client01.onRecvMsg (asPackage frame) := by
  simp only [List.flatMap_map, asPackage_padded]

theorem follows_of_seated {log : Log} {guest : Guest} {member : Member}
    (hseated : Seated log guest member)
    (hstream : member.client.accepted ++ member.client.outgoing =
      member.pushed.flatMap Sent.bytes) :
    Follows (log.drop guest.since) guest member := by
  have hpushed : shownOf member.pushed = (member.pushed.map Sent.bytes).flatMap fun frame =>
      Client01.onRecvMsg (asPackage frame) := by
    rw [shownOf, List.flatMap_map]
  obtain ⟨delivered, hdelivered, hfirst, hback⟩ := hseated.told
  have hshown : guest.shown = delivered.flatMap fun frame =>
      Client01.onRecvMsg (asPackage frame) := by
    rw [Guest.shown, hdelivered, shown_padded]
  refine ⟨?_, fun hopen hquiet => ⟨?_, ?_⟩⟩
  · rw [← hseated.shown, hpushed, hshown]
    exact hfirst.flatMap _
  · obtain ⟨sent, taken, hasks, hforth, htaken, hwhole⟩ := hseated.heard
    obtain ⟨hcommands, hgood⟩ := asks_all hasks
    have hframes : ∀ frame ∈ sent, headRule.IsFrame frame := by
      intro frame hframe
      obtain ⟨_, hone⟩ := hgood frame hframe
      exact hone.isFrame
    have hall := hwhole hopen
    rw [hquiet.toServer.1, List.append_nil] at hall
    have hsent := hforth.taken_eq hframes hall hquiet.toServer.2.1 hquiet.toServer.2.2
    rw [← htaken, hsent, hcommands]
  · rw [hquiet.toClient.1, List.append_nil, List.flatMap_def] at hstream
    have hall := (hback hopen).taken_eq hseated.framesMap hstream hquiet.toClient.2.1
      hquiet.toClient.2.2
    rw [hquiet.waiting, List.map_nil, List.append_nil] at hall
    rw [hshown, ← hseated.shown, hpushed, hall]

/-- In every run of whole calls, on lines that fit, the log has of everybody the first
of what it has asked for since it joined, each user is shown what the log shows it from
there on, and the log only grows. -/
theorem one_log_for_all (s : ChatRoom) (hreach : machine.Reachable s) :
    (∀ pClient, Log.own pClient (s.log.drop (s.guests pClient).since) <+:
      (s.guests pClient).commands) ∧
    (∀ member ∈ s.server.clientSockArr, Follows
      (s.log.drop (s.guests member.pClient).since) (s.guests member.pClient) member) ∧
    ∀ event next, machine.step s event next → s.log <+: next.log := by
  have hinv := inv_of_reachable hreach
  refine ⟨hinv.asked, fun member hmember => ?_, fun event next hstep => ?_⟩
  · have hserved := hinv.server.served member hmember
    exact follows_of_seated (hinv.seated member hmember) hserved.carries.stream
  · cases event with
    | server event =>
        obtain ⟨hbetween, server, hmoves, rfl⟩ := hstep
        obtain ⟨_, hlog, _⟩ := between_cases hbetween hmoves hinv.server
        exact (show ChatRoom.log { s with server } = s.log from hlog) ▸ List.prefix_rfl
    | onRun answers guest =>
        obtain ⟨hnew, hsupplies, server, hmoves, rfl⟩ := hstep
        exact (hinv.onRun hnew hsupplies hmoves).2
    | line pClient line stack =>
        obtain ⟨_, _, _, _, rfl⟩ := hstep
        exact List.prefix_rfl
    | sendThread pClient answers =>
        obtain ⟨_, _, _, rfl⟩ := hstep
        exact List.prefix_rfl
    | recvThread pClient answer =>
        obtain ⟨_, _, _, _, rfl⟩ := hstep
        exact List.prefix_rfl
    | clientRun pClient =>
        obtain ⟨_, _, _, rfl⟩ := hstep
        exact List.prefix_rfl

/-! ## Two users, one of whom broadcasts -/

section Two

/-- A user who has just connected, at descriptor 5. -/
def newGuest : Guest where
  client := (SelectClientThread.connect (.connected 5)
    (.new (fun _ => 0) (fun _ => 0) (fun _ => 0) none)).2
  lines := []
  serverRead := 0
  clientRead := 0
  since := 0

/-- What the first user types. -/
def typed : StdString := ⟨ascii "broadcast", by decide⟩

/-- What its client sends, and the server to everybody. -/
def broadcastBytes : List Byte := [20, 0, 0, 0, 0, 0] ++ ascii "TestBroadcast" ++ [0]

/-- `OnRun` with the listening socket readable. -/
def acceptGuest (sock : Socket) (pClient : ClientId) : OnRunAnswers :=
  SelectServer.acceptOnly (some ⟨sock, pClient, fun _ => 0, fun _ => 0, fun _ => 0⟩)

/-- `OnRun` with the first client readable, and a kernel that takes what is sent. -/
def hearGuest : OnRunAnswers where
  select := some {6}
  accept := none
  turns id := ⟨if id = 0 then .data broadcastBytes else .failed, fun _ => .writable 20⟩

theorem typed_sends (client : SelectClientThread) :
    Client01.processorSend typed (fun _ => 0) client =
      some (0, (client.sendMsg (MsgBroadcast.new (fun _ => 0) (ascii "TestBroadcast")).msg).2) := by
  simp only [Client01.processorSend]
  rw [if_neg (by decide), if_neg (by decide), if_neg (by decide), if_neg (by decide),
    if_neg (by decide), if_pos (by decide)]

theorem newGuest_new : newGuest.New [] := ⟨5, fun _ => 0, fun _ => 0, fun _ => 0, none, rfl⟩

/-- Both users are there, and what the first has typed is on its way. -/
theorem exists_typed : ∃ s : ChatRoom, machine.Reachable s ∧
    s.server.clientSockArr.map Member.pClient = [0, 1] ∧ s.log = [] ∧
    (s.guests 0).toServer = broadcastBytes ∧ s.guests 1 = newGuest ∧
    (SelectServer.onRun Server01.recording 2 hearGuest s.server).map (fun result =>
      (result.2.world.2, result.2.clientSockArr.map fun member =>
        (member.pClient, member.client.accepted))) =
      some ([(0, .broadcast (ascii "TestBroadcast"))],
        [(0, broadcastBytes), (1, broadcastBytes)]) := by
  have hstart : machine.Reachable ⟨.new (⟨fun _ _ => 0, []⟩, []), fun _ => newGuest⟩ :=
    .start ⟨_, rfl⟩
  have hbound := hstart.step (.server (.bind (.bound 3)))
    ⟨trivial, _, ⟨show (0 : Int) ≤ 3 by decide, rfl⟩, rfl⟩
  have hfirst := hbound.step (.onRun (acceptGuest 6 0) newGuest)
    ⟨newGuest_new, fun _ _ _ _ => trivial, _,
      ⟨SelectServer.possible_of_new (by decide) (by decide), 0, 0, rfl⟩, rfl⟩
  have hsecond := hfirst.step (.onRun (acceptGuest 7 1) newGuest)
    ⟨newGuest_new, fun _ _ _ _ => trivial, _,
      ⟨SelectServer.possible_of_new (by decide) (by decide), 0, 0, rfl⟩, rfl⟩
  have htyped : Client01.Typed typed := by
    refine ⟨by decide, by decide, ?_⟩
    rw [show Command.ofLine typed.bytes = [.broadcast (ascii "TestBroadcast")] by decide,
      List.forall_mem_singleton]
    show _ < _
    decide
  have hline := hsecond.step (.line 0 typed fun _ => 0) ⟨htyped, _, _, typed_sends _, rfl⟩
  have hsent := hline.step (.sendThread 0 fun _ => .writable 20) ⟨_, _, rfl, rfl⟩
  exact ⟨_, hsent, rfl, rfl, by decide +kernel, rfl, by decide +kernel⟩

/-- The server hears the first user, and sends to both. -/
theorem exists_heard : ∃ s : ChatRoom, machine.Reachable s ∧
    s.log = [(0, .broadcast (ascii "TestBroadcast"))] ∧
    (s.guests 1).client = newGuest.client ∧ (s.guests 1).clientRead = 0 ∧
    (s.server.clientSockArr.map fun member => (member.pClient, member.client.accepted)) =
      [(0, broadcastBytes), (1, broadcastBytes)] := by
  obtain ⟨s, hreach, hmembers, hlog, hflight, hsecond, hrun⟩ := exists_typed
  obtain ⟨⟨value, server⟩, hserver, hheard⟩ := Option.map_eq_some_iff.mp hrun
  obtain ⟨hworld, hsent⟩ := Prod.mk.inj hheard
  have hnew : newGuest.New s.log := hlog ▸ newGuest_new
  have hjoined : ∀ fdRead pClient, s.joined fdRead hearGuest newGuest pClient = s.guests pClient :=
    fun _ _ => if_neg fun haccept => by cases haccept.2
  have hsupplies : s.Supplies hearGuest newGuest := by
    intro fdRead _ member hmember
    rcases (joined_cases s.server fdRead none).2 member hmember with hold | ⟨_, _, hnone, _⟩
    · have hlisted := List.mem_map_of_mem (f := Member.pClient) hold
      rw [hmembers, List.mem_pair] at hlisted
      rw [hjoined]
      rcases hlisted with hid | hid
      · rw [hid, hflight]
        exact List.prefix_rfl
      · rw [hid]
        trivial
    · cases hnone
  have hnext : machine.step s (.onRun hearGuest newGuest)
      ⟨server, s.received hearGuest newGuest⟩ :=
    ⟨hnew, hsupplies, server, ⟨fun _ hnone => (by cases hnone), 2, value, hserver⟩, rfl⟩
  have hsame : (s.received hearGuest newGuest 1).client = (s.guests 1).client ∧
      (s.received hearGuest newGuest 1).clientRead = (s.guests 1).clientRead := by
    unfold received
    split
    · exact ⟨rfl, rfl⟩
    · rw [hjoined]
      exact ⟨rfl, rfl⟩
  rw [hsecond] at hsame
  exact ⟨_, hreach.next hnext, hworld, hsame.1, hsame.2, hsent⟩

/-- The second user is shown what the first has broadcast. -/
theorem one_log_for_all_two : ∃ s : ChatRoom, s.log = [(0, .broadcast (ascii "TestBroadcast"))] ∧
    s.server.clientSockArr.map Member.pClient = [0, 1] ∧
    (s.guests 1).shown = [.broadcast (ascii "TestBroadcast")] ∧
    ((∀ pClient, Log.own pClient (s.log.drop (s.guests pClient).since) <+:
      (s.guests pClient).commands) ∧
    (∀ member ∈ s.server.clientSockArr, Follows
      (s.log.drop (s.guests member.pClient).since) (s.guests member.pClient) member) ∧
    ∀ event next, machine.step s event next → s.log <+: next.log) := by
  obtain ⟨s, hreach, hlog, hclient, hread, hsent⟩ := exists_heard
  have hgives : s.Gives 1 (.readable (.data broadcastBytes)) := by
    intro member hmember _
    have hpair : (member.pClient, member.client.accepted) ∈
        [((0 : ClientId), broadcastBytes), (1, broadcastBytes)] :=
      hsent ▸ List.mem_map.mpr ⟨member, hmember, rfl⟩
    rw [List.mem_pair, Prod.mk.injEq, Prod.mk.injEq] at hpair
    have haccepted : member.client.accepted = broadcastBytes := hpair.elim And.right And.right
    rw [hread, Endpoint.inFlight, haccepted]
    exact List.prefix_rfl
  obtain ⟨middle, last, hrecv, hrun, hshown⟩ : ∃ middle last,
      SelectClientThread.Returns (.readable (.data broadcastBytes)) newGuest.client 0 middle ∧
      SelectClientThread.onRun middle = some (0, last) ∧
      (last.ext.delivered.flatMap fun package => Client01.onRecvMsg (asPackage package)) =
        [.broadcast (ascii "TestBroadcast")] :=
    ⟨_, _, ⟨2, rfl⟩, rfl, by decide +kernel⟩
  have hreceived := hreach.step (.recvThread 1 (.readable (.data broadcastBytes)))
    ⟨hgives, 0, middle, hclient ▸ hrecv, rfl⟩
  have hdelivered := hreceived.step (.clientRun 1) ⟨0, last, hrun, rfl⟩
  obtain ⟨next, hnext, hserver, hlast⟩ : ∃ next, machine.Reachable next ∧
      next.server = s.server ∧ (next.guests 1).client = last := ⟨_, hdelivered, rfl, rfl⟩
  refine ⟨next, ?_, ?_, ?_, one_log_for_all next hnext⟩
  · rw [log, hserver]
    exact hlog
  · rw [hserver]
    have hids := congrArg (List.map Prod.fst) hsent
    rw [List.map_map] at hids
    exact hids
  · rw [Guest.shown, hlast, hshown]

end Two
end ChatRoom

end SelectNet
