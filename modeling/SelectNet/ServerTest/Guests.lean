import SelectNet.Connection.Echo
import SelectNet.Foundation.FrameChannel
import SelectNet.Server.TurnRules
import SelectNet.ServerTest.Answers

/-!
# A user of Server01

A log of what the server has handled, in order, and a user with its client at the
other end of a connection. What the user has typed reaches the log as the first of
its commands, and what the user is shown is the first of what the log shows it.
-/

namespace SelectNet

/-- For every message handled, who sent it and what it asks for. -/
abbrev Log : Type := List (ClientId × Command)

namespace Log

/-- What a client has asked for itself. -/
def own (pClient : ClientId) (log : Log) : List Command :=
  log.flatMap fun entry => if entry.1 = pClient then [entry.2] else []

/-- What a client is shown. -/
def shownTo (pClient : ClientId) (log : Log) : List Client01.Shown :=
  log.flatMap fun entry => entry.2.shownTo (decide (pClient = entry.1))

/-- The entries of frames that one client has sent. -/
def entries (pClient : ClientId) (frames : List (List Byte)) : Log :=
  frames.map fun frame => (pClient, Command.ofPackage (asPackage frame))

variable {pClient sender : ClientId} {log more : Log} {frames : List (List Byte)}

theorem own_append (pClient : ClientId) (log more : Log) :
    own pClient (log ++ more) = own pClient log ++ own pClient more :=
  List.flatMap_append

theorem shownTo_append (pClient : ClientId) (log more : Log) :
    shownTo pClient (log ++ more) = shownTo pClient log ++ shownTo pClient more :=
  List.flatMap_append

theorem own_entries (pClient : ClientId) (frames : List (List Byte)) :
    own pClient (entries pClient frames) =
      frames.map fun frame => Command.ofPackage (asPackage frame) := by
  simp only [own, entries, List.flatMap_map, if_true]
  exact List.map_eq_flatMap.symm

theorem own_entries_of_ne (hother : pClient ≠ sender) (frames : List (List Byte)) :
    own pClient (entries sender frames) = [] := by
  simp [own, entries, List.flatMap_map, hother.symm]

theorem entries_append (pClient : ClientId) (frames more : List (List Byte)) :
    entries pClient (frames ++ more) = entries pClient frames ++ entries pClient more :=
  List.map_append

end Log

/-- A user and its client: the lines it has typed since the client connected, how
many bytes each side has received from the other, and how much of the log was
over when the server accepted the connection. -/
structure Guest where
  client : SelectClientThread
  lines : List StdString
  serverRead : Nat
  clientRead : Nat
  since : Nat

namespace Guest

/-- What the user has asked for. -/
def commands (guest : Guest) : List Command :=
  guest.lines.flatMap fun line => Command.ofLine line.bytes

/-- What the user has been shown. -/
def shown (guest : Guest) : List Client01.Shown :=
  guest.client.ext.delivered.flatMap fun package => Client01.onRecvMsg (asPackage package)

/-- The server's `recv` has returned as many bytes more. -/
def heardBytes (guest : Guest) (count : Nat) : Guest :=
  { guest with serverRead := guest.serverRead + count }

/-- What the user has asked for is on its way, and the server has taken the first of
it; while the client is open nothing is lost. -/
def Heard (guest : Guest) (kept : List Byte) (own : List Command) : Prop :=
  ∃ sent taken, List.Forall₂ Command.Asks guest.commands sent ∧
    FrameChannel guest.client.accepted kept guest.serverRead sent taken ∧
    taken.map (fun frame => Command.ofPackage (asPackage frame)) = own ∧
    (guest.client.sock ≠ invalidSocket →
      guest.client.accepted ++ guest.client.outgoing = sent.flatten)

/-- What the server has sent is on its way back, and the user has been shown the
first of it. -/
def Told (guest : Guest) (accepted : List Byte) (given : List (List Byte)) : Prop :=
  ∃ delivered, guest.client.ext.delivered = delivered.map padded ∧ delivered <+: given ∧
    (guest.client.sock ≠ invalidSocket →
      FrameChannel accepted guest.client.retained guest.clientRead given
        (delivered ++ guest.client.ext.recvQueue.nodes.map Package.bytes))

variable {guest : Guest} {kept accepted accepted' : List Byte} {own : List Command}
  {given given' : List (List Byte)} {client : SelectClientThread}

/-! ## The calls of the client -/

/-- A step of the client hands over nothing but what was on its way out. -/
theorem Heard.moves (hheard : guest.Heard kept own)
    (hgrown : guest.client.kernel <+: client.kernel)
    (hwithin : client.accepted = guest.client.accepted ∨ guest.client.sock ≠ invalidSocket ∧
      client.accepted <+: guest.client.accepted ++ guest.client.outgoing)
    (hopen : client.sock ≠ invalidSocket → guest.client.sock ≠ invalidSocket ∧
      client.accepted ++ client.outgoing = guest.client.accepted ++ guest.client.outgoing)
    (clientRead : Nat) : Heard { guest with client, clientRead } kept own := by
  obtain ⟨sent, taken, hasks, hchannel, htaken, hwhole⟩ := hheard
  have haccepted : guest.client.accepted <+: client.accepted := hgrown.flatMap _
  have hsent : client.accepted <+: sent.flatten := by
    rcases hwithin with hsame | ⟨hwas, hwithin⟩
    · rw [hsame]
      exact hchannel.sent
    · rwa [hwhole hwas] at hwithin
  refine ⟨sent, taken, hasks, hchannel.grow List.prefix_rfl haccepted hsent, htaken, ?_⟩
  intro hstill
  obtain ⟨hwas, hstream⟩ := hopen hstill
  exact hstream.trans (hwhole hwas)

/-- A step of the client that sends nothing. -/
theorem Heard.quiet (hheard : guest.Heard kept own)
    (hkernel : client.kernel = guest.client.kernel)
    (hopen : client.sock ≠ invalidSocket → guest.client.sock ≠ invalidSocket ∧
      guest.client.SameSend client) (clientRead : Nat) :
    Heard { guest with client, clientRead } kept own := by
  refine hheard.moves (hkernel ▸ List.prefix_rfl) (Or.inl ?_) ?_ clientRead
  · rw [Endpoint.accepted, hkernel]
    rfl
  · intro hstill
    obtain ⟨hwas, hsame⟩ := hopen hstill
    exact ⟨hwas, hsame.stream⟩

/-- The send loops of the client. -/
theorem Heard.sendThread (hheard : guest.Heard kept own) (hinv : guest.client.Inv)
    {answers : Nat → SendAnswer} {value : Int}
    (hsend : SelectClientThread.sendThread answers guest.client = some (value, client)) :
    Heard { guest with client } kept own := by
  by_cases hclosed : guest.client.sock = invalidSocket
  · rw [SelectClientThread.sendThread, Endpoint.runSend, if_pos hclosed] at hsend
    cases hsend
    exact hheard
  obtain ⟨_, t, hrun, hreturns⟩ := Endpoint.runSend_spec SelectClientThread.close
    clientSendQueueMaxAccumulateCount answers hinv.send hclosed
  cases hrun.symm.trans hsend
  rcases hreturns with ⟨_, hkept⟩ | ⟨_, last, hkept, rfl⟩
  · refine hheard.moves hkept.grown (Or.inr ⟨hclosed, ?_⟩) (fun _ => ⟨hclosed, hkept.stream⟩) _
    exact hkept.stream ▸ List.prefix_append _ _
  · obtain ⟨hshut, _, _, _⟩ := SelectClientThread.close_spec hkept.inv
    have hsame : (SelectClientThread.close last).accepted = last.accepted := by
      rw [Endpoint.accepted, hshut.kernel]
      rfl
    refine hheard.moves (hshut.kernel ▸ hkept.grown) (Or.inr ⟨hclosed, ?_⟩) ?_ _
    · rw [hsame]
      exact hkept.stream ▸ List.prefix_append _ _
    · exact fun hopen => absurd hshut.sock hopen

theorem Told.grow (htold : guest.Told accepted given) (hgiven : given <+: given')
    (haccepted : accepted <+: accepted') (hsent : accepted' <+: given'.flatten)
    (serverRead : Nat) : Told { guest with serverRead } accepted' given' := by
  obtain ⟨delivered, hdelivered, hfirst, hchannel⟩ := htold
  exact ⟨delivered, hdelivered, hfirst.trans hgiven,
    fun hopen => (hchannel hopen).grow hgiven haccepted hsent⟩

/-- A step of the client that receives nothing. -/
theorem Told.quiet (htold : guest.Told accepted given)
    (hdelivered : client.ext.delivered = guest.client.ext.delivered)
    (hopen : client.sock ≠ invalidSocket → guest.client.sock ≠ invalidSocket ∧
      client.retained = guest.client.retained ∧
      client.ext.recvQueue.nodes = guest.client.ext.recvQueue.nodes) (lines : List StdString) :
    Told { guest with client, lines } accepted given := by
  obtain ⟨delivered, hsame, hfirst, hchannel⟩ := htold
  refine ⟨delivered, hdelivered.trans hsame, hfirst, fun hstill => ?_⟩
  obtain ⟨hwas, hretained, hqueue⟩ := hopen hstill
  rw [hretained, hqueue]
  exact hchannel hwas

/-- The client's `recv` is given bytes of the way back, of which it queues the frames
it finds. -/
theorem Told.recvThread (htold : guest.Told accepted given) (hinv : guest.client.Inv)
    (hframes : ∀ frame ∈ given, headRule.IsFrame frame) {answer : ReadAnswer}
    (hfrom : answer.From (accepted.drop guest.clientRead)) {value : Int}
    (hcall : SelectClientThread.Returns answer guest.client value client) :
    Told { guest with
      client
      clientRead := guest.clientRead + (answer.received guest.client.sock
        (clientRecvBufferSize - guest.client.retainSize)).length } accepted given := by
  have huntouched := SelectClientThread.returns_untouched hinv hcall
  obtain ⟨delivered, hsame, hfirst, hchannel⟩ := htold
  refine ⟨delivered, huntouched.delivered.trans hsame, hfirst, fun hopen => ?_⟩
  have hwas : guest.client.sock ≠ invalidSocket := by
    intro hclosed
    obtain ⟨fuel, hcall⟩ := hcall
    unfold SelectClientThread.recvThread at hcall
    rw [if_pos hclosed] at hcall
    cases hcall
    exact hopen hclosed
  cases answer with
  | selectFailed =>
      obtain ⟨fuel, hcall⟩ := hcall
      rw [SelectClientThread.recvThread, if_neg hwas] at hcall
      cases hcall
      exact absurd hinv.close_sock hopen
  | notReadable =>
      obtain ⟨fuel, hcall⟩ := hcall
      rw [SelectClientThread.recvThread, if_neg hwas] at hcall
      cases hcall
      exact hchannel hwas
  | readable answer =>
      obtain ⟨bytes, hbytes⟩ : ∃ bytes, answer.received guest.client.sock
        (clientRecvBufferSize - guest.client.retainSize) = bytes := ⟨_, rfl⟩
      have hchunk := Connection.received_prefix hfrom guest.client.sock
        (clientRecvBufferSize - guest.client.retainSize)
      rw [hbytes] at hchunk
      simp only [ReadAnswer.received, hbytes]
      obtain ⟨_, left, hending⟩ := (hchannel hwas).parse_chunk hframes hchunk
      by_cases hnone : bytes = []
      · rcases SelectClientThread.returns_cases hinv hwas hcall with ⟨_, _, rfl⟩ | ⟨hsome, _⟩
        · exact absurd hinv.close_sock hopen
        · exact absurd (hbytes.trans hnone) hsome
      rcases SelectClientThread.returns_frames hinv hwas hbytes hnone hending hcall with
        hclosed | ⟨oRecv, hclient, hleft⟩
      · exact absurd hclosed hopen
      have hreceived := (hchannel hwas).receive hframes hchunk hending
      obtain ⟨_, _, hqueue⟩ := SelectClientThread.queuePackages_spec
        (headRule.parse (guest.client.retained ++ bytes)).frames (guest.client.recvStart bytes).2
      have hnodes : client.ext.recvQueue.nodes.map Package.bytes =
          guest.client.ext.recvQueue.nodes.map Package.bytes ++
            (headRule.parse (guest.client.retained ++ bytes)).frames := by
        rw [hclient]
        exact hqueue
      rw [hleft, hnodes, ← List.append_assoc]
      exact hreceived

/-- A receiving client keeps what it has to send. -/
theorem Heard.recvThread (hheard : guest.Heard kept own) (hinv : guest.client.Inv)
    {answer : ReadAnswer} {value : Int}
    (hcall : SelectClientThread.Returns answer guest.client value client) (clientRead : Nat) :
    Heard { guest with client, clientRead } kept own := by
  have huntouched := SelectClientThread.returns_untouched hinv hcall
  refine hheard.quiet huntouched.kernel (fun hopen => ?_) clientRead
  obtain ⟨hsock, hsame⟩ := huntouched.still hopen
  exact ⟨hsock ▸ hopen, hsame⟩

theorem Told.sendThread (htold : guest.Told accepted given) (hinv : guest.client.Inv)
    {answers : Nat → SendAnswer} {value : Int}
    (hsend : SelectClientThread.sendThread answers guest.client = some (value, client)) :
    Told { guest with client } accepted given := by
  by_cases hclosed : guest.client.sock = invalidSocket
  · rw [SelectClientThread.sendThread, Endpoint.runSend, if_pos hclosed] at hsend
    cases hsend
    exact htold
  obtain ⟨_, t, hrun, hreturns⟩ := Endpoint.runSend_spec SelectClientThread.close
    clientSendQueueMaxAccumulateCount answers hinv.send hclosed
  cases hrun.symm.trans hsend
  rcases hreturns with ⟨_, hkept⟩ | ⟨_, last, hkept, rfl⟩
  · refine htold.quiet (by rw [hkept.same.ext]) (fun _ => ?_) guest.lines
    exact ⟨hclosed, hkept.same.retained, by rw [hkept.same.ext]⟩
  · obtain ⟨hshut, hdelivered, _, _⟩ := SelectClientThread.close_spec hkept.inv
    rw [hkept.same.ext] at hdelivered
    exact htold.quiet hdelivered (fun hopen => absurd hshut.sock hopen) guest.lines

/-- What waits for `OnRun` are whole messages. -/
theorem Told.waiting (htold : guest.Told accepted given)
    (hframes : ∀ frame ∈ given, headRule.IsFrame frame)
    (hopen : guest.client.sock ≠ invalidSocket) :
    ∀ msg ∈ guest.client.ext.recvQueue.nodes, headRule.IsFrame msg.bytes := by
  obtain ⟨delivered, _, _, hchannel⟩ := htold
  intro msg hmsg
  refine hframes msg.bytes ((hchannel hopen).order.subset ?_)
  exact List.mem_append_right _ (List.mem_map_of_mem hmsg)

/-- `OnRun` shows the user all that is waiting. -/
theorem Told.onRun (htold : guest.Told accepted given)
    (hframes : ∀ frame ∈ given, headRule.IsFrame frame) {value : Int}
    (hrun : SelectClientThread.onRun guest.client = some (value, client)) :
    Told { guest with client } accepted given := by
  unfold SelectClientThread.onRun at hrun
  split at hrun
  next => cases hrun; exact htold
  next hwas =>
    obtain ⟨last, hfold, hlast⟩ := Option.map_eq_some_iff.mp hrun
    cases hlast
    obtain ⟨_, _, hretained, hnone, hadded⟩ :=
      SelectClientThread.onRunMsgs_spec rfl (htold.waiting hframes hwas) hfold
    obtain ⟨delivered, hsame, _, hchannel⟩ := htold
    refine ⟨delivered ++ guest.client.ext.recvQueue.nodes.map Package.bytes, ?_,
      (hchannel hwas).order, fun _ => ?_⟩
    · rw [hadded, hsame, List.map_append]
    · rw [hnone, List.map_nil, List.append_nil, hretained]
      exact hchannel hwas

theorem Heard.onRun (hheard : guest.Heard kept own) (htold : guest.Told accepted given)
    (hframes : ∀ frame ∈ given, headRule.IsFrame frame) {value : Int}
    (hrun : SelectClientThread.onRun guest.client = some (value, client)) :
    Heard { guest with client } kept own := by
  unfold SelectClientThread.onRun at hrun
  split at hrun
  next => cases hrun; exact hheard
  next hwas =>
    obtain ⟨last, hfold, hlast⟩ := Option.map_eq_some_iff.mp hrun
    cases hlast
    obtain ⟨hquiet, _⟩ := SelectClientThread.onRunMsgs_spec rfl (htold.waiting hframes hwas) hfold
    exact hheard.quiet hquiet.kernel (fun _ => ⟨hwas, hquiet⟩) _

/-! ## A typed line -/

/-- What a line leaves of a client: it has closed, or the messages of the line's
commands are behind what it had to send. -/
inductive Types (client : SelectClientThread) (line : StdString) (next : SelectClientThread) :
    Prop where
  | exit (hnothing : Command.ofLine line.bytes = []) (hclose : next = client.close)
  | sends (msgs : List (Memory Byte)) (hasks : List.Forall₂ Command.Asks
      (Command.ofLine line.bytes) (msgs.map Endpoint.msgBytes))
      (hsend : next = Client01.sendMsgs client msgs)

theorem types_of_typed {line : StdString} (htyped : Client01.Typed line) {stack : Memory Byte}
    {value : Int} {next : SelectClientThread}
    (hsend : Client01.processorSend line stack client = some (value, next)) :
    Types client line next := by
  rcases Client01.processorSend_sends htyped stack client with
    ⟨hexit, hnothing⟩ | ⟨msgs, hmsgs, hasks⟩
  · cases hexit.symm.trans hsend
    exact .exit hnothing rfl
  · cases hmsgs.symm.trans hsend
    exact .sends msgs (List.forall₂_map_right_iff.mpr hasks) rfl

theorem commands_line (guest : Guest) (client : SelectClientThread) (line : StdString) :
    commands { guest with client, lines := guest.lines ++ [line] } =
      guest.commands ++ Command.ofLine line.bytes := by
  simp [commands]

theorem Heard.line (hheard : guest.Heard kept own) (hinv : guest.client.Inv) {line : StdString}
    (htypes : Types guest.client line client) :
    Heard { guest with client, lines := guest.lines ++ [line] } kept own := by
  obtain ⟨sent, taken, hasks, hchannel, htaken, hwhole⟩ := hheard
  cases htypes with
  | exit hnothing hclose =>
      subst hclose
      obtain ⟨hshut, _, _, _⟩ := SelectClientThread.close_spec hinv.send
      have hsame : (SelectClientThread.close guest.client).accepted = guest.client.accepted := by
        rw [Endpoint.accepted, hshut.kernel]
        rfl
      refine ⟨sent, taken, ?_, ?_, htaken, fun hopen => absurd hshut.sock hopen⟩
      · rw [commands_line, hnothing, List.append_nil]
        exact hasks
      · simpa only [hsame] using hchannel
  | sends msgs hnew hsend =>
      subst hsend
      obtain ⟨hsame, _, hstream⟩ := Endpoint.sendMsgs_spec hinv.send msgs
      have haccepted : (Client01.sendMsgs guest.client msgs).accepted = guest.client.accepted := by
        rw [Endpoint.accepted, Client01.sendMsgs, show (msgs.foldl (fun client msg =>
          (SelectClientThread.sendMsg client msg).2) guest.client).kernel = guest.client.kernel from
            Endpoint.sendMsgs_kernel msgs guest.client]
        rfl
      have hmore : sent <+: sent ++ msgs.map Endpoint.msgBytes := List.prefix_append _ _
      refine ⟨sent ++ msgs.map Endpoint.msgBytes, taken, ?_, ?_, htaken, fun hopen => ?_⟩
      · rw [commands_line]
        exact List.rel_append hasks hnew
      · simp only [haccepted]
        exact hchannel.grow hmore List.prefix_rfl (hchannel.sent.trans hmore.flatten)
      · have hwas : guest.client.sock ≠ invalidSocket := hsame.sock ▸ hopen
        rw [List.flatten_append, ← hwhole hwas, ← List.flatMap_def]
        exact hstream hwas

theorem Told.line (htold : guest.Told accepted given) (hinv : guest.client.Inv) {line : StdString}
    (htypes : Types guest.client line client) :
    Told { guest with client, lines := guest.lines ++ [line] } accepted given := by
  cases htypes with
  | exit _ hclose =>
      subst hclose
      obtain ⟨hshut, hdelivered, _, _⟩ := SelectClientThread.close_spec hinv.send
      exact htold.quiet hdelivered (fun hopen => absurd hshut.sock hopen) _
  | sends msgs _ hsend =>
      subst hsend
      obtain ⟨hsame, _, _⟩ := Endpoint.sendMsgs_spec hinv.send msgs
      have hext : (Client01.sendMsgs guest.client msgs).ext = guest.client.ext := hsame.ext
      refine htold.quiet (by rw [hext]) (fun hopen => ?_) _
      exact ⟨hsame.sock ▸ hopen, hsame.retained, by rw [hext]⟩

theorem Types.inv (hinv : client.Inv) {line : StdString} {next : SelectClientThread}
    (htypes : Types client line next) : next.Inv := by
  cases htypes with
  | exit _ hclose => exact hclose ▸ hinv.close
  | sends msgs hasks hsend =>
      subst hsend
      clear hasks
      unfold Client01.sendMsgs
      induction msgs generalizing client with
      | nil => exact hinv
      | cons msg msgs ih => exact ih (hinv.sendMsg msg)

end Guest

/-! ## A guest and its place at the server -/

/-- What joins a guest to the entry of its connection in the server's list, when the
server has handled this log. -/
structure Seated (log : Log) (guest : Guest) (member : Member) : Prop where
  client : guest.client.Inv
  since : guest.since ≤ log.length
  heard : guest.Heard member.client.retained (Log.own member.pClient (log.drop guest.since))
  frames : ∀ one ∈ member.pushed, headRule.IsFrame one.bytes
  shown : shownOf member.pushed = Log.shownTo member.pClient (log.drop guest.since)
  told : guest.Told member.client.accepted (member.pushed.map Sent.bytes)
  sent : member.client.accepted <+: (member.pushed.map Sent.bytes).flatten

namespace Seated

variable {log entries : Log} {guest : Guest} {member next : Member} {sent : List Sent}

theorem framesMap (hseated : Seated log guest member) :
    ∀ frame ∈ member.pushed.map Sent.bytes, headRule.IsFrame frame := by
  rw [List.forall_mem_map]
  exact hseated.frames

/-- The log grows, and the client is sent what that shows it. -/
theorem grow (hseated : Seated log guest member) (hclient : next.pClient = member.pClient)
    (hpushed : next.pushed = member.pushed ++ sent)
    (hshown : SendsShown sent (Log.shownTo member.pClient entries))
    (haccepted : member.client.accepted <+: next.client.accepted)
    (hstream : next.client.accepted <+: (next.pushed.map Sent.bytes).flatten) {serverRead : Nat}
    (hheard : Guest.Heard { guest with serverRead } next.client.retained
      (Log.own member.pClient (log.drop guest.since) ++ Log.own member.pClient entries)) :
    Seated (log ++ entries) { guest with serverRead } next := by
  have hdrop : (log ++ entries).drop guest.since = log.drop guest.since ++ entries :=
    List.drop_append_of_le_length hseated.since
  refine ⟨hseated.client, ?_, ?_, ?_, ?_, ?_, hstream⟩
  · rw [List.length_append]
    exact Nat.le_trans hseated.since (Nat.le_add_right _ _)
  · rw [hclient, hdrop, Log.own_append]
    exact hheard
  · rw [hpushed, List.forall_mem_append]
    exact ⟨hseated.frames, hshown.1⟩
  · rw [hclient, hdrop, Log.shownTo_append, hpushed, shownOf, List.flatMap_append]
    exact congrArg₂ (· ++ ·) hseated.shown hshown.2
  · refine hseated.told.grow ?_ haccepted hstream serverRead
    rw [hpushed, List.map_append]
    exact List.prefix_append _ _

/-- Someone else has spoken. -/
theorem hears (hseated : Seated log guest member) (hsends : member.Sends next sent)
    (hshown : SendsShown sent (Log.shownTo member.pClient entries))
    (hother : Log.own member.pClient entries = []) : Seated (log ++ entries) guest next := by
  have haccepted : next.client.accepted = member.client.accepted := by
    rw [Endpoint.accepted, hsends.queues.kernel]
    rfl
  have hretained : next.client.retained = member.client.retained := by
    rw [Endpoint.retained, Endpoint.retained, hsends.queues.recvBuf, hsends.queues.retainSize]
  have hmore : member.pushed.map Sent.bytes <+: next.pushed.map Sent.bytes := by
    rw [hsends.pushed, List.map_append]
    exact List.prefix_append _ _
  refine hseated.grow hsends.pClient hsends.pushed hshown (haccepted ▸ List.prefix_rfl) ?_ ?_
  · rw [haccepted]
    exact hseated.sent.trans hmore.flatten
  · rw [hretained, hother, List.append_nil]
    exact hseated.heard

/-- The client itself has moved on. -/
theorem moves (hseated : Seated log guest member) {client : SelectClientThread}
    {lines : List StdString} {clientRead : Nat} (hinv : client.Inv)
    (hheard : Guest.Heard { guest with client, lines, clientRead } member.client.retained
      (Log.own member.pClient (log.drop guest.since)))
    (htold : Guest.Told { guest with client, lines, clientRead } member.client.accepted
      (member.pushed.map Sent.bytes)) :
    Seated log { guest with client, lines, clientRead } member :=
  ⟨hinv, hseated.since, hheard, hseated.frames, hseated.shown, htold, hseated.sent⟩

end Seated

end SelectNet
