import SelectNet.CommonLib.SelectServer

/-!
# What the calls of SelectServer keep

Each client's bytes are those of what it was sent, in that order, and the
broadcasts among them stand in the order in which they were made. A handler that
calls `Broadcast` during the sweep keeps this for the clients on both sides of
the sender, so the sweep keeps it, and so does every call.
-/

namespace SelectNet

/-- A record of what a client was sent: the broadcasts in it are among those
made, and stand in their order. -/
structure Recorded (broadcasts : List (List Byte)) (pushed : List Sent) : Prop where
  increasing : (pushed.filterMap Sent.origin).Pairwise (· < ·)
  made : ∀ sent ∈ pushed, ∀ number, sent.origin = some number →
    broadcasts[number]? = some sent.bytes

namespace Recorded

variable {broadcasts more : List (List Byte)} {pushed : List Sent}

theorem nil (broadcasts : List (List Byte)) : Recorded broadcasts [] :=
  ⟨List.Pairwise.nil, fun _ hsent => absurd hsent List.not_mem_nil⟩

theorem mono (hrecorded : Recorded broadcasts pushed) (hmore : broadcasts <+: more) :
    Recorded more pushed := by
  refine ⟨hrecorded.increasing, fun sent hsent number horigin => ?_⟩
  obtain ⟨rest, rfl⟩ := hmore
  have hmade := hrecorded.made sent hsent number horigin
  rwa [List.getElem?_append_left (List.getElem?_eq_some_iff.mp hmade).1]

/-- Every broadcast in the record was made before. -/
theorem lt_length (hrecorded : Recorded broadcasts pushed) {number : Nat}
    (hnumber : number ∈ pushed.filterMap Sent.origin) : number < broadcasts.length := by
  obtain ⟨sent, hsent, horigin⟩ := List.mem_filterMap.mp hnumber
  exact (List.getElem?_eq_some_iff.mp (hrecorded.made sent hsent number horigin)).1

theorem reply (hrecorded : Recorded broadcasts pushed) (bytes : List Byte) :
    Recorded broadcasts (pushed ++ [⟨none, bytes⟩]) := by
  refine ⟨by simpa using hrecorded.increasing, ?_⟩
  intro sent hsent number horigin
  rcases List.mem_append.mp hsent with hsent | hsent
  · exact hrecorded.made sent hsent number horigin
  · cases List.mem_singleton.mp hsent
    cases horigin

/-- A new broadcast has the greatest number. -/
theorem broadcast (hrecorded : Recorded broadcasts pushed) (bytes : List Byte) :
    Recorded (broadcasts ++ [bytes]) (pushed ++ [⟨some broadcasts.length, bytes⟩]) := by
  constructor
  · rw [List.filterMap_append, List.pairwise_append]
    refine ⟨hrecorded.increasing, List.pairwise_singleton _ _, ?_⟩
    intro number hnumber last hlast
    rw [List.mem_singleton.mp hlast]
    exact hrecorded.lt_length hnumber
  · intro sent hsent number horigin
    rcases List.mem_append.mp hsent with hsent | hsent
    · exact (hrecorded.mono (List.prefix_append _ _)).made sent hsent number horigin
    · cases List.mem_singleton.mp hsent
      cases horigin
      exact List.getElem?_concat_length

end Recorded

/-! ## The bytes of a client -/

namespace Endpoint

variable {ρ : Type} {s next : Endpoint ρ} {sent : List Byte}

/-- The bytes taken and on their way out, and those offered to `send`, are those
of one stream. -/
structure Carries (s : Endpoint ρ) (sent : List Byte) : Prop where
  stream : s.accepted ++ s.outgoing = sent
  offers : s.Offers sent

theorem Carries.kept (hcarries : s.Carries sent) (hkept : Kept s next) : next.Carries sent := by
  have hoffers := hcarries.offers
  rw [← hcarries.stream] at hoffers ⊢
  exact ⟨hkept.stream, hkept.offers hoffers⟩

theorem Carries.same (hcarries : s.Carries sent) (hsame : s.SameSend next) :
    next.Carries sent :=
  ⟨hsame.stream.trans hcarries.stream, hcarries.offers.congr hsame.kernel⟩

/-- Messages queued on an open socket go behind the rest of its stream. -/
theorem Carries.sendMsgs (hcarries : s.Carries sent) (hinv : s.SendInv)
    (hopen : s.sock ≠ invalidSocket) (msgs : List (Memory Byte)) :
    (msgs.foldl (fun s msg => (s.sendMsg msg).2) s).Carries (sent ++ msgs.flatMap msgBytes) := by
  obtain ⟨_, _, hstream⟩ := sendMsgs_spec hinv msgs
  have hoffers := hcarries.offers.mono (List.prefix_append sent (msgs.flatMap msgBytes))
  refine ⟨?_, hoffers.congr (sendMsgs_kernel msgs s)⟩
  rw [hstream hopen, hcarries.stream]

end Endpoint

namespace Member

variable {broadcasts : List (List Byte)} {member : Member}

/-- What names a client for its server and for the system. -/
def key (member : Member) : ClientId × Socket := (member.pClient, member.client.sock)

/-- A client in the list of a server that made these broadcasts. -/
structure Served (broadcasts : List (List Byte)) (member : Member) : Prop where
  client : member.client.Open
  carries : member.client.Carries (member.pushed.flatMap Sent.bytes)
  recorded : Recorded broadcasts member.pushed

/-- A client that its server has deleted. -/
structure Left (broadcasts : List (List Byte)) (member : Member) : Prop where
  offers : member.client.Offers (member.pushed.flatMap Sent.bytes)
  recorded : Recorded broadcasts member.pushed

theorem Served.mono {more : List (List Byte)} (hserved : member.Served broadcasts)
    (hmore : broadcasts <+: more) : member.Served more :=
  ⟨hserved.client, hserved.carries, hserved.recorded.mono hmore⟩

theorem Left.mono {more : List (List Byte)} (hleft : member.Left broadcasts)
    (hmore : broadcasts <+: more) : member.Left more :=
  ⟨hleft.offers, hleft.recorded.mono hmore⟩

/-- A client behind its destructor. -/
def deleted (member : Member) : Member := { member with client := ClientSocket.close member.client }

/-- The destructor of a client leaves its calls of `send` as they are. -/
theorem Served.deleted (hserved : member.Served broadcasts) : member.deleted.Left broadcasts := by
  obtain ⟨hclosed, _, _⟩ := ClientSocket.close_spec hserved.client.inv.send
  exact ⟨hserved.carries.offers.congr hclosed.kernel, hserved.recorded⟩

/-- A client that `accept` has just returned. -/
theorem new_served (pClient : ClientId) {sock : Socket} (hsock : 0 ≤ sock) (fresh : Fresh)
    (broadcasts : List (List Byte)) :
    Served broadcasts ⟨pClient, ClientSocket.new sock () fresh.sendBuf fresh.recvBuf
      fresh.package none, []⟩ := by
  obtain ⟨hinv, hidle⟩ := Endpoint.fresh_spec
    (s := ClientSocket.new sock () fresh.sendBuf fresh.recvBuf fresh.package none)
    rfl rfl (show 0 < serverSendBufferSize by decide) rfl rfl
  refine ⟨⟨ClientSocket.new_inv _ _ _ _ _ _, ?_, rfl⟩, ⟨hidle.outgoing_eq hinv, ?_⟩, .nil _⟩
  · rintro rfl
    exact absurd hsock (by decide)
  · intro calls call hcalls
    exact absurd (List.prefix_nil.mp hcalls) (by simp)

theorem sendMsg_of_open (hopen : member.client.sock ≠ invalidSocket) (msg : Memory Byte)
    (origin : Option Nat) :
    member.sendMsg msg origin = { member with
      client := (ClientSocket.sendMsg member.client msg).2
      pushed := member.pushed ++ [⟨origin, Endpoint.msgBytes msg⟩] } := by
  simp [sendMsg, ClientSocket.sendMsg, Endpoint.sendMsg, Endpoint.sendData, hopen]

theorem sendMsg_key (member : Member) (msg : Memory Byte) (origin : Option Nat) :
    (member.sendMsg msg origin).key = member.key := by
  simp only [sendMsg, key, ClientSocket.sendMsg, Endpoint.sendMsg, Endpoint.sendData]
  split
  · rfl
  · rfl

theorem broadcast_key (member : Member) (msg : Memory Byte) (exclude : ClientId → Bool)
    (number : Nat) : (member.broadcast msg exclude number).key = member.key := by
  unfold broadcast
  split
  · rfl
  · exact member.sendMsg_key msg _

theorem map_broadcast_key (members : List Member) (msg : Memory Byte) (exclude : ClientId → Bool)
    (number : Nat) : (members.map (broadcast msg exclude number)).map key = members.map key := by
  simp only [List.map_map, Function.comp_def, broadcast_key]

theorem map_pClient (members : List Member) :
    members.map pClient = (members.map key).map Prod.fst := by
  rw [List.map_map]
  rfl

theorem open_sendMsg {client : Client} (hopen : client.Open) (msg : Memory Byte) :
    Client.Open (ClientSocket.sendMsg client msg).2 := by
  obtain ⟨hsame, hsend, _⟩ := Endpoint.sendMsg_spec hopen.inv.send msg
  exact ⟨hopen.inv.of_same hsame hsend, hsame.sock ▸ hopen.sock,
    hsame.closesocket.trans hopen.closesocket⟩

theorem Served.broadcast (hserved : member.Served broadcasts) (msg : Memory Byte)
    (exclude : ClientId → Bool) :
    (member.broadcast msg exclude broadcasts.length).Served
      (broadcasts ++ [Endpoint.msgBytes msg]) := by
  unfold Member.broadcast
  split
  next => exact hserved.mono (List.prefix_append _ _)
  next =>
    rw [sendMsg_of_open hserved.client.sock]
    refine ⟨open_sendMsg hserved.client msg, ?_, hserved.recorded.broadcast _⟩
    have hcarries := hserved.carries.sendMsgs hserved.client.inv.send hserved.client.sock [msg]
    simpa [ClientSocket.sendMsg] using hcarries

end Member

/-! ## The handler -/

namespace Sweeping

variable {σ : Type} {sweep : Sweeping σ} {made : List (List Byte)}
  {front behind : List (ClientId × Socket)}

/-- What a turn keeps of the clients on both sides and of the sender's record. -/
structure Serves (made : List (List Byte)) (front behind : List (ClientId × Socket))
    (sweep : Sweeping σ) : Prop where
  made : made <+: sweep.broadcasts
  before : ∀ member ∈ sweep.before, member.Served sweep.broadcasts
  after : ∀ member ∈ sweep.after, member.Served sweep.broadcasts
  front : sweep.before.map Member.key = front
  behind : sweep.after.map Member.key = behind
  recorded : Recorded sweep.broadcasts sweep.pushed

/-- The messages for the sender, as they have been recorded. -/
def Replied (sent : List Byte) (state : Sweeping σ × List (Memory Byte)) : Prop :=
  state.1.pushed.flatMap Sent.bytes = sent ++ state.2.flatMap Endpoint.msgBytes

theorem forall_broadcast {members : List Member} {broadcasts : List (List Byte)}
    (hserved : ∀ member ∈ members, member.Served broadcasts) (msg : Memory Byte)
    (exclude : ClientId → Bool) :
    ∀ member ∈ members.map (Member.broadcast msg exclude broadcasts.length),
      member.Served (broadcasts ++ [Endpoint.msgBytes msg]) := by
  rw [List.forall_mem_map]
  exact fun member hmember => (hserved member hmember).broadcast msg exclude

theorem Serves.act (hserves : sweep.Serves made front behind) (sender : ClientId)
    {sent : List Byte} {replies : List (Memory Byte)} (hreplied : Replied sent (sweep, replies))
    (act : HandleAct) :
    (Sweeping.act sender (sweep, replies) act).1.Serves made front behind ∧
      Replied sent (Sweeping.act sender (sweep, replies) act) := by
  have hnext : ∀ (pushed : Sent) (msg : Memory Byte), pushed.bytes = Endpoint.msgBytes msg →
      (sweep.pushed ++ [pushed]).flatMap Sent.bytes =
        sent ++ (replies ++ [msg]).flatMap Endpoint.msgBytes := by
    intro pushed msg hbytes
    simp only [Replied] at hreplied
    simp [hreplied, hbytes]
  cases act with
  | reply msg =>
      exact ⟨{ hserves with recorded := hserves.recorded.reply _ }, hnext _ msg rfl⟩
  -- a broadcast reaches the members on both sides, and the sender if it is not left out
  | broadcast msg exclude =>
      have hmade := hserves.made.trans (List.prefix_append _ [Endpoint.msgBytes msg])
      have hbefore := forall_broadcast hserves.before msg exclude
      have hafter := forall_broadcast hserves.after msg exclude
      have hfront := (Member.map_broadcast_key sweep.before msg exclude
        sweep.broadcasts.length).trans hserves.front
      have hbehind := (Member.map_broadcast_key sweep.after msg exclude
        sweep.broadcasts.length).trans hserves.behind
      simp only [Sweeping.act]
      split
      next =>
        have hrecorded := hserves.recorded.mono (List.prefix_append _ [Endpoint.msgBytes msg])
        exact ⟨⟨hmade, hbefore, hafter, hfront, hbehind, hrecorded⟩, hreplied⟩
      next =>
        exact ⟨⟨hmade, hbefore, hafter, hfront, hbehind, hserves.recorded.broadcast _⟩,
          hnext _ msg rfl⟩

/-- All acts of a handler, one after the other. -/
theorem Serves.onMsgHandle (hserves : sweep.Serves made front behind) (handle : ServerHandle σ)
    (sender : ClientId) (msg : Memory Byte) :
    (Sweeping.onMsgHandle handle sender sweep msg).1.Serves made front behind ∧
      Replied (sweep.pushed.flatMap Sent.bytes) (Sweeping.onMsgHandle handle sender sweep msg) := by
  have hacts : ∀ (acts : List HandleAct) (state : Sweeping σ × List (Memory Byte)),
      state.1.Serves made front behind → Replied (sweep.pushed.flatMap Sent.bytes) state →
      (acts.foldl (Sweeping.act sender) state).1.Serves made front behind ∧
        Replied (sweep.pushed.flatMap Sent.bytes) (acts.foldl (Sweeping.act sender) state) := by
    intro acts
    induction acts with
    | nil => exact fun _ hstate hreplied => ⟨hstate, hreplied⟩
    | cons act acts ih =>
        rintro ⟨state, replies⟩ hstate hreplied
        obtain ⟨hnext, hmore⟩ := hstate.act sender hreplied act
        exact ih _ hnext hmore
  have hstart : Serves made front behind { sweep with own := (handle sweep.own sender msg).1 } :=
    { hserves with }
  have hnone : Replied (sweep.pushed.flatMap Sent.bytes)
      ({ sweep with own := (handle sweep.own sender msg).1 }, []) := by
    simp [Replied]
  exact hacts _ _ hstart hnone

end Sweeping

/-! ## A client's turn -/

section Turn

variable {σ : Type} {handle : ServerHandle σ} {made : List (List Byte)} {member : Member}
  {front behind : List (ClientId × Socket)} {world : Sweeping σ} {failed : Bool}

/-- A client in the middle of its turn: its stream is what was sent to it. -/
structure InTurn (made : List (List Byte)) (front behind : List (ClientId × Socket))
    (sock : Socket) (s : ClientSocket (Sweeping σ)) : Prop where
  sock : s.sock = sock
  serves : s.ext.world.Serves made front behind
  carries : s.Carries (s.ext.world.pushed.flatMap Sent.bytes)

theorem InTurn.onPackage {s : ClientSocket (Sweeping σ)} {sock : Socket}
    (hturn : InTurn made front behind sock s) (hopen : sock ≠ invalidSocket)
    (handle : ServerHandle σ)
    (sender : ClientId) {bytes : List Byte} (hinv : s.SendInv)
    (hlen : bytes.length ≤ packageMaxSize) :
    InTurn made front behind sock
      (ClientSocket.onPackage (Sweeping.onMsgHandle handle sender) s bytes) := by
  obtain ⟨hsock, _, _, hext, _, hstream⟩ :=
    ClientSocket.onPackage_spec (Sweeping.onMsgHandle handle sender) hinv hlen
  obtain ⟨hserves, hreplied⟩ :=
    hturn.serves.onMsgHandle handle sender (fillPackage s.package bytes)
  have hkernel := ClientSocket.onPackage_kernel (Sweeping.onMsgHandle handle sender) s bytes
  have hsent := hstream (hturn.sock ▸ hopen)
  rw [hturn.carries.stream, ClientSocket.handled] at hsent
  refine ⟨hsock.trans hturn.sock, by rwa [hext], ?_⟩
  rw [hext]
  simp only [Sweeping.Replied] at hreplied
  rw [ClientSocket.handled, hreplied]
  have hoffers := hturn.carries.offers.congr hkernel
  exact ⟨hsent, hoffers.mono (List.prefix_append _ _)⟩

/-- A client behind its turn, with the record that its turn has left. -/
def Member.resumed (member : Member) (client : ClientSocket (Sweeping σ)) : Member :=
  { member with client := Client.leave client, pushed := client.ext.world.pushed }

/-- What a turn leaves: the other clients served, and its own client too, unless
it has failed. -/
theorem Member.Served.turn (hserved : member.Served world.broadcasts)
    (hserves : world.Serves made front behind) (hpushed : world.pushed = member.pushed)
    {fuel : Nat} {readable : Bool} {answer : RecvAnswer} {answers : Nat → SendAnswer}
    {client : ClientSocket (Sweeping σ)}
    (hturn : ClientSocket.turn (Sweeping.onMsgHandle handle member.pClient) fuel readable answer
      answers (member.client.lend world) = some (failed, client)) :
    client.ext.world.Serves made front behind ∧
      (failed = false → (member.resumed client).Served client.ext.world.broadcasts ∧
        (member.resumed client).key = member.key) ∧
      (failed = true → (member.resumed client).deleted.Left client.ext.world.broadcasts) := by
  have hopen : (member.client.lend world).sock ≠ invalidSocket := hserved.client.sock
  have hinv := Client.lend_inv hserved.client.inv world
  have hstart : InTurn made front behind member.client.sock (member.client.lend world) := by
    refine ⟨rfl, hserves, ?_⟩
    have hcarries : Endpoint.Carries (member.client.lend world)
        (member.pushed.flatMap Sent.bytes) :=
      ⟨hserved.carries.stream, hserved.carries.offers⟩
    rwa [← hpushed] at hcarries
  obtain ⟨hnext, hsettles⟩ := ClientSocket.turn_spec hinv hopen hturn
  obtain ⟨last, hsend, hlast, hclient⟩ := ClientSocket.turn_invariant
    (fun t next hsame hsock hext hheld =>
      ⟨hsock.trans hheld.sock, hext ▸ hheld.serves, hext ▸ hheld.carries.same hsame⟩)
    (fun t bytes ht hlen hheld => hheld.onPackage hserved.client.sock handle _ ht hlen)
    (fun t next hkept hheld =>
      ⟨hkept.same.sock.trans hheld.sock, hkept.same.ext ▸ hheld.serves,
        hkept.same.ext ▸ hheld.carries.kept hkept⟩)
    hinv hopen hstart hturn
  cases failed with
  | false =>
      cases hclient
      cases hsettles with
      | kept _ hclose =>
          refine ⟨hlast.serves, fun _ => ⟨⟨⟨Client.leave_inv hnext, ?_, ?_⟩, ?_, ?_⟩, ?_⟩, ?_⟩
          · exact hlast.sock.trans_ne hserved.client.sock
          · exact hclose.trans hserved.client.closesocket
          · exact ⟨hlast.carries.stream, hlast.carries.offers⟩
          · exact hlast.serves.recorded
          · exact congrArg (Prod.mk member.pClient) hlast.sock
          · exact fun hfailed => Bool.noConfusion hfailed
  | true =>
      -- the turn has closed the client, and its destructor finds it closed
      obtain ⟨hclosed, hext, _⟩ := ClientSocket.close_spec hsend
      obtain ⟨hdeleted, _, _⟩ := ClientSocket.close_spec (Client.leave_inv hnext).send
      rw [if_pos rfl] at hclient
      rw [← hclient] at hclosed hext
      have hoffers := hlast.carries.offers.congr (hdeleted.kernel.trans hclosed.kernel)
      rw [← hext] at hoffers
      have hserves' := hlast.serves
      rw [← hext] at hserves'
      exact ⟨hserves', fun hfailed => Bool.noConfusion hfailed, fun _ =>
        ⟨hoffers, hserves'.recorded⟩⟩

end Turn

/-! ## The sweep -/

namespace SelectServer

variable {σ : Type} {handle : ServerHandle σ} {s next start : SelectServer σ}
  {before after : List Member}

/-- Where a sweep stands that began at `start`. -/
structure Sweeps (start : SelectServer σ) (before after : List Member) (s : SelectServer σ) :
    Prop where
  serverSock : s.serverSock = start.serverSock
  maxSock : s.maxSock = start.maxSock
  fdReadBackup : s.fdReadBackup = start.fdReadBackup
  made : start.broadcasts <+: s.broadcasts
  done : ∀ member ∈ before, member.Served s.broadcasts
  waiting : ∀ member ∈ after, member.Served s.broadcasts
  departed : ∃ gone, s.departed = start.departed ++ gone ∧
    ∀ member ∈ gone, member.Left s.broadcasts
  keys : ((before ++ after).map Member.key).Sublist (start.clientSockArr.map Member.key)
  unchanged : s.clientChange = false → start.clientChange = false ∧
    (before ++ after).map Member.key = start.clientSockArr.map Member.key

section Turn

variable {member : Member} {client : ClientSocket (Sweeping σ)}
  (hsweeps : Sweeps start before (member :: after) s)
  (hserves : client.ext.world.Serves s.broadcasts (before.map Member.key) (after.map Member.key))

include hsweeps hserves

theorem Sweeps.departed_mono : ∃ gone, s.departed = start.departed ++ gone ∧
    ∀ member ∈ gone, member.Left client.ext.world.broadcasts := by
  obtain ⟨gone, hdeparted, hleft⟩ := hsweeps.departed
  exact ⟨gone, hdeparted, fun member hmember => (hleft member hmember).mono hserves.made⟩

/-- The client has had its turn and stays. -/
theorem Sweeps.goOn (hkept : (member.resumed client).Served client.ext.world.broadcasts ∧
      (member.resumed client).key = member.key) :
    Sweeps start (client.ext.world.before ++ [member.resumed client]) client.ext.world.after
      { s with world := client.ext.world.own, broadcasts := client.ext.world.broadcasts } := by
  have hkeys : ((client.ext.world.before ++ [member.resumed client]) ++
      client.ext.world.after).map Member.key = (before ++ member :: after).map Member.key := by
    simp [hserves.front, hserves.behind, hkept.2]
  refine { hsweeps with
    made := hsweeps.made.trans hserves.made
    done := ?_
    waiting := hserves.after
    departed := hsweeps.departed_mono hserves
    keys := hkeys ▸ hsweeps.keys
    unchanged := fun hchange => hkeys ▸ hsweeps.unchanged hchange }
  intro other hother
  rcases List.mem_append.mp hother with hother | hother
  · exact hserves.before other hother
  · rw [List.mem_singleton.mp hother]
    exact hkept.1

/-- The client has failed in its turn and is deleted. -/
theorem Sweeps.delete
    (hfailed : (member.resumed client).deleted.Left client.ext.world.broadcasts) :
    Sweeps start client.ext.world.before client.ext.world.after
      { deleteClient { s with
          world := client.ext.world.own, broadcasts := client.ext.world.broadcasts }
        (member.resumed client) with clientChange := true } := by
  refine { hsweeps with
    made := hsweeps.made.trans hserves.made
    done := hserves.before
    waiting := hserves.after
    departed := ?_
    keys := ?_
    unchanged := fun hchange => Bool.noConfusion hchange }
  · obtain ⟨gone, hdeparted, hleft⟩ := hsweeps.departed_mono hserves
    refine ⟨gone ++ [(member.resumed client).deleted], ?_, ?_⟩
    · rw [← List.append_assoc, ← hdeparted]
      rfl
    · intro other hother
      rcases List.mem_append.mp hother with hother | hother
      · exact hleft other hother
      · rw [List.mem_singleton.mp hother]
        exact hfailed
  · have hless : ((before ++ after).map Member.key).Sublist
        ((before ++ member :: after).map Member.key) :=
      ((List.sublist_cons_self member after).append_left before).map Member.key
    rw [List.map_append, hserves.front, hserves.behind, ← List.map_append]
    exact hless.trans hsweeps.keys

end Turn

/-- A sweep ends with every client served that it has not deleted. -/
theorem Sweeps.sweep (hsweeps : Sweeps start before after s) {fuel : Nat} {fdRead : FdSet}
    {turns : ClientId → ClientAnswers} {count : Nat} (hcount : after.length ≤ count)
    (hsweep : sweep handle fuel fdRead turns count before after s = some next) :
    ∃ clientSockArr last, Sweeps start clientSockArr [] last ∧
      next = { last with clientSockArr } := by
  -- by induction on the passes left: a turn keeps how many members are waiting
  induction count generalizing before after s with
  | zero =>
      obtain rfl : after = [] := List.length_eq_zero_iff.mp (Nat.le_zero.mp hcount)
      cases hsweep
      exact ⟨before, s, hsweeps, by rw [List.append_nil]⟩
  | succ count ih =>
      cases after with
      | nil =>
          cases hsweep
          exact ⟨before, s, hsweeps, by rw [List.append_nil]⟩
      | cons member after =>
          have hwaiting := hsweeps.waiting
          rw [SelectServer.sweep] at hsweep
          simp only at hsweep
          split at hsweep
          next => cases hsweep
          next failed client hturn =>
            rw [List.forall_mem_cons] at hwaiting
            have hstart : Sweeping.Serves s.broadcasts (before.map Member.key)
                (after.map Member.key)
                ⟨s.world, before, after, s.broadcasts, member.pushed⟩ :=
              ⟨List.prefix_rfl, hsweeps.done, hwaiting.2, rfl, rfl, hwaiting.1.recorded⟩
            obtain ⟨hserves, hkept, hfailed⟩ := hwaiting.1.turn hstart rfl hturn
            have hlength : client.ext.world.after.length ≤ count := by
              have hsame := congrArg List.length hserves.behind
              simp only [List.length_map] at hsame
              simpa [hsame] using hcount
            cases failed with
            | false => exact ih (hsweeps.goOn hserves (hkept rfl)) hlength hsweep
            | true => exact ih (hsweeps.delete hserves (hfailed rfl)) hlength hsweep

/-- More passes never change how a sweep ends. -/
theorem sweep_mono {fuel more : Nat} {fdRead : FdSet} {turns : ClientId → ClientAnswers}
    {count : Nat} (hle : fuel ≤ more)
    (hsweep : sweep handle fuel fdRead turns count before after s = some next) :
    sweep handle more fdRead turns count before after s = some next := by
  induction count generalizing before after s with
  | zero => exact hsweep
  | succ count ih =>
      cases after with
      | nil => exact hsweep
      | cons member after =>
          rw [SelectServer.sweep] at hsweep ⊢
          simp only at hsweep ⊢
          split at hsweep
          next => cases hsweep
          next failed client hturn =>
            rw [ClientSocket.turn_mono hturn hle]
            cases failed with
            | true => exact ih hsweep
            | false => exact ih hsweep

/-- `OnRun` has one result. -/
theorem onRun_unique {fuel fuel' : Nat} {answers : OnRunAnswers} {value value' : Int}
    {last : SelectServer σ} (hrun : onRun handle fuel answers s = some (value, next))
    (hrun' : onRun handle fuel' answers s = some (value', last)) : next = last := by
  have hmono : ∀ {fuel value next}, onRun handle fuel answers s = some (value, next) →
      ∀ more, fuel ≤ more → onRun handle more answers s = some (value, next) := by
    intro fuel value next hrun more hle
    unfold onRun at hrun ⊢
    split at hrun
    next hclosed => rwa [if_pos hclosed]
    next hopen =>
      rw [if_neg hopen]
      simp only at hrun ⊢
      split at hrun
      next => exact hrun
      next fdRead =>
        obtain ⟨last, hsweep, hlast⟩ := Option.map_eq_some_iff.mp hrun
        exact Option.map_eq_some_iff.mpr ⟨last, sweep_mono hle hsweep, hlast⟩
  have hleft := hmono hrun _ (Nat.le_max_left fuel fuel')
  have hright := hmono hrun' _ (Nat.le_max_right fuel fuel')
  cases hleft.symm.trans hright
  rfl

/-! ## Every reachable state -/

/-- What holds between the calls. A client that the cached set leaves out has
joined since the set was made. -/
structure Inv (s : SelectServer σ) : Prop where
  served : ∀ member ∈ s.clientSockArr, member.Served s.broadcasts
  departed : ∀ member ∈ s.departed, member.Left s.broadcasts
  names : (s.clientSockArr.map Member.pClient).Nodup
  listed : s.clientChange = false → ∀ member ∈ s.clientSockArr,
    member.client.sock ∈ s.fdReadBackup ∧ member.client.sock ≤ s.maxSock

theorem new_inv (world : σ) : Inv (new world) where
  served _ hmember := absurd hmember List.not_mem_nil
  departed _ hmember := absurd hmember List.not_mem_nil
  names := List.nodup_nil
  listed hchange := Bool.noConfusion hchange

theorem deleteClients (members : List Member) (s : SelectServer σ) :
    ∃ closesocket, members.foldl deleteClient s =
      { s with departed := s.departed ++ members.map Member.deleted, closesocket } := by
  induction members generalizing s with
  | nil => exact ⟨s.closesocket, by simp⟩
  | cons member members ih =>
      obtain ⟨closesocket, hrest⟩ := ih (s.deleteClient member)
      refine ⟨closesocket, hrest.trans ?_⟩
      simp [deleteClient, Member.deleted]

/-- `Close` on an open server deletes every client. -/
theorem close_cases (s : SelectServer σ) :
    s.close = s ∧ s.serverSock = invalidSocket ∨
    s.serverSock ≠ invalidSocket ∧ ∃ closesocket, s.close = { s with
      clientSockArr := []
      departed := s.departed ++ s.clientSockArr.map Member.deleted
      closesocket
      serverSock := invalidSocket } := by
  by_cases hopen : s.serverSock = invalidSocket
  · exact Or.inl ⟨if_neg (not_not.mpr hopen), hopen⟩
  · obtain ⟨closesocket, hdeleted⟩ := deleteClients s.clientSockArr s
    refine Or.inr ⟨hopen, closesocket ++ [s.serverSock], ?_⟩
    rw [close, if_pos hopen, hdeleted]

theorem Inv.close (hinv : Inv s) : Inv s.close := by
  rcases s.close_cases with ⟨hsame, _⟩ | ⟨_, closesocket, hclose⟩
  · rwa [hsame]
  · rw [hclose]
    refine ⟨fun _ hmember => absurd hmember List.not_mem_nil, ?_, List.nodup_nil,
      fun _ _ hmember => absurd hmember List.not_mem_nil⟩
    intro member hmember
    rcases List.mem_append.mp hmember with hmember | hmember
    · exact hinv.departed member hmember
    · obtain ⟨other, hother, rfl⟩ := List.mem_map.mp hmember
      exact (hinv.served other hother).deleted

/-- Only the listening socket has changed. -/
theorem Inv.listening (hinv : Inv s) (serverSock : Socket) : Inv { s with serverSock } :=
  { hinv with }

theorem Inv.bind (hinv : Inv s) (answer : ListenAnswer) : Inv (bind answer s).2 := by
  cases answer with
  | noSocket => exact hinv.listening _
  | refused sock => exact (hinv.listening sock).close
  | bound sock => exact hinv.listening sock

theorem Inv.listen (hinv : Inv s) (success : Bool) : Inv (listen success s).2 := by
  cases success with
  | true => exact hinv
  | false => exact hinv.close

/-- After `if (_clientChange)` the cached set covers every client. -/
theorem rebuild_listed (hinv : Inv s) : ∀ member ∈ s.rebuild.clientSockArr,
    member.client.sock ∈ s.rebuild.fdReadBackup ∧ member.client.sock ≤ s.rebuild.maxSock := by
  intro member hmember
  by_cases hchange : s.clientChange = true
  · simp only [rebuild, if_pos hchange] at hmember ⊢
    have hclient := List.mem_map_of_mem (f := Member.client) hmember
    exact ⟨Client.mem_pollSet.mpr (Or.inr (List.mem_map_of_mem hclient)),
      (Client.pollSet_le.mp (Int.le_refl _)).2 _ hclient⟩
  · rw [rebuild, if_neg hchange] at hmember ⊢
    exact hinv.listed (Bool.eq_false_of_not_eq_true hchange) member hmember

theorem rebuild_cases (s : SelectServer σ) : ∃ maxSock fdReadBackup,
    s.rebuild = { s with maxSock, fdReadBackup, clientChange := false } := by
  by_cases hchange : s.clientChange = true
  · exact ⟨_, _, if_pos hchange⟩
  · refine ⟨s.maxSock, s.fdReadBackup, ?_⟩
    rw [rebuild, if_neg hchange, ← Bool.eq_false_of_not_eq_true hchange]

theorem Inv.rebuild (hinv : Inv s) : Inv s.rebuild := by
  have hlisted := rebuild_listed hinv
  obtain ⟨maxSock, fdReadBackup, hrebuild⟩ := s.rebuild_cases
  rw [hrebuild] at hlisted ⊢
  exact ⟨hinv.served, hinv.departed, hinv.names, fun _ => hlisted⟩

theorem Inv.accept (hinv : Inv s) {answer : Option NewClient}
    (hpossible : ∀ new, answer = some new →
      0 ≤ new.sock ∧ ∀ member ∈ s.clientSockArr, member.pClient ≠ new.pClient) :
    Inv (s.accept answer) := by
  cases answer with
  | none => exact hinv
  | some new =>
      obtain ⟨hsock, hnew⟩ := hpossible new rfl
      refine ⟨?_, hinv.departed, ?_, fun hchange => Bool.noConfusion hchange⟩
      · intro member hmember
        rcases List.mem_append.mp hmember with hmember | hmember
        · exact hinv.served member hmember
        · cases List.mem_singleton.mp hmember
          exact Member.new_served new.pClient hsock new.fresh s.broadcasts
      · simp only [SelectServer.accept, List.map_append, List.nodup_append]
        refine ⟨hinv.names, List.nodup_singleton _, ?_⟩
        intro name hname other hother
        obtain ⟨member, hmember, rfl⟩ := List.mem_map.mp hname
        cases List.mem_singleton.mp hother
        exact hnew member hmember

/-- What `OnRun` sweeps over, once it has accepted. -/
def joined (fdRead : FdSet) (answer : Option NewClient) (s : SelectServer σ) : SelectServer σ :=
  if s.serverSock ∈ fdRead then s.rebuild.accept answer else s.rebuild

/-- `OnRun` on an open server. -/
theorem onRun_of_open (hopen : s.serverSock ≠ invalidSocket) (fuel : Nat)
    (answers : OnRunAnswers) : onRun handle fuel answers s =
      match answers.select with
      | none => some (-1, s.rebuild.close)
      | some fdRead =>
          (sweep handle fuel (fdRead.erase s.serverSock) answers.turns
            (s.joined fdRead answers.accept).clientSockArr.length []
            (s.joined fdRead answers.accept).clientSockArr (s.joined fdRead answers.accept)).map
            fun s => (0, s) := by
  have hsock : s.rebuild.serverSock = s.serverSock := by
    obtain ⟨maxSock, fdReadBackup, hrebuild⟩ := s.rebuild_cases
    rw [hrebuild]
  rw [onRun, if_neg hopen]
  simp only [hsock]
  cases answers.select with
  | none => rfl
  | some fdRead =>
      by_cases hmem : s.serverSock ∈ fdRead
      · simp only [joined, if_pos hmem]
      · simp only [joined, if_neg hmem, Finset.erase_eq_of_notMem hmem]

/-- All that `OnRun` can do. -/
theorem onRun_cases {fuel : Nat} {answers : OnRunAnswers} {value : Int}
    (hrun : onRun handle fuel answers s = some (value, next)) :
    s.serverSock = invalidSocket ∧ next = s ∨
    s.serverSock ≠ invalidSocket ∧ answers.select = none ∧ next = s.rebuild.close ∨
    s.serverSock ≠ invalidSocket ∧ ∃ fdRead, answers.select = some fdRead ∧
      sweep handle fuel (fdRead.erase s.serverSock) answers.turns
        (s.joined fdRead answers.accept).clientSockArr.length []
        (s.joined fdRead answers.accept).clientSockArr (s.joined fdRead answers.accept) =
        some next := by
  by_cases hclosed : s.serverSock = invalidSocket
  · rw [onRun, if_pos hclosed] at hrun
    cases hrun
    exact Or.inl ⟨hclosed, rfl⟩
  · rw [onRun_of_open hclosed] at hrun
    split at hrun
    next hselect =>
      cases hrun
      exact Or.inr (Or.inl ⟨hclosed, hselect, rfl⟩)
    next fdRead hselect =>
      obtain ⟨last, hsweep, hlast⟩ := Option.map_eq_some_iff.mp hrun
      cases hlast
      exact Or.inr (Or.inr ⟨hclosed, fdRead, hselect, hsweep⟩)

theorem Inv.joined (hinv : Inv s) {answers : OnRunAnswers}
    (hpossible : Possible s (.onRun answers)) (fdRead : FdSet) :
    Inv (s.joined fdRead answers.accept) := by
  unfold SelectServer.joined
  split
  next =>
    apply hinv.rebuild.accept
    obtain ⟨maxSock, fdReadBackup, hrebuild⟩ := s.rebuild_cases
    rw [hrebuild]
    exact hpossible
  next => exact hinv.rebuild

theorem Inv.sweeps (hinv : Inv s) : Sweeps s [] s.clientSockArr s where
  serverSock := rfl
  maxSock := rfl
  fdReadBackup := rfl
  made := List.prefix_rfl
  done _ hmember := absurd hmember List.not_mem_nil
  waiting := hinv.served
  departed := ⟨[], (List.append_nil _).symm, fun _ hmember => absurd hmember List.not_mem_nil⟩
  keys := List.Sublist.refl _
  unchanged hchange := ⟨hchange, rfl⟩

theorem Inv.swept (hinv : Inv start) {clientSockArr : List Member}
    (hsweeps : Sweeps start clientSockArr [] s) : Inv { s with clientSockArr } := by
  have hkeys := hsweeps.keys
  rw [List.append_nil] at hkeys
  refine ⟨hsweeps.done, ?_, ?_, ?_⟩
  · intro member hmember
    obtain ⟨gone, hdeparted, hleft⟩ := hsweeps.departed
    rw [hdeparted] at hmember
    rcases List.mem_append.mp hmember with hmember | hmember
    · exact (hinv.departed member hmember).mono hsweeps.made
    · exact hleft member hmember
  · have hnames := hinv.names
    rw [Member.map_pClient] at hnames ⊢
    exact hnames.sublist (hkeys.map Prod.fst)
  · intro hchange member hmember
    obtain ⟨hstart, hsame⟩ := hsweeps.unchanged hchange
    rw [List.append_nil] at hsame
    have hkey := List.mem_map_of_mem (f := Member.key) hmember
    rw [hsame] at hkey
    obtain ⟨other, hother, heq⟩ := List.mem_map.mp hkey
    have hlisted := hinv.listed hstart other hother
    rw [← hsweeps.fdReadBackup, ← hsweeps.maxSock] at hlisted
    rwa [show other.client.sock = member.client.sock from congrArg Prod.snd heq] at hlisted

theorem Inv.onRun (hinv : Inv s) {fuel : Nat} {answers : OnRunAnswers} {value : Int}
    (hpossible : Possible s (.onRun answers))
    (hrun : onRun handle fuel answers s = some (value, next)) : Inv next := by
  rcases onRun_cases hrun with ⟨_, rfl⟩ | ⟨_, _, rfl⟩ | ⟨_, fdRead, _, hsweep⟩
  · exact hinv
  · exact hinv.rebuild.close
  · have hjoined := hinv.joined hpossible fdRead
    obtain ⟨clientSockArr, last, hsweeps, rfl⟩ :=
      hjoined.sweeps.sweep (Nat.le_refl _) hsweep
    exact hjoined.swept hsweeps

theorem Inv.broadcast (hinv : Inv s) (msg : Memory Byte) (exclude : ClientId → Bool) :
    Inv (s.broadcast msg exclude) := by
  unfold SelectServer.broadcast
  split
  next => exact hinv
  next =>
    have hkeys := Member.map_broadcast_key s.clientSockArr msg exclude s.broadcasts.length
    refine ⟨Sweeping.forall_broadcast hinv.served msg exclude, ?_, ?_, ?_⟩
    · exact fun member hmember => (hinv.departed member hmember).mono (List.prefix_append _ _)
    · have hnames := hinv.names
      rwa [Member.map_pClient, ← hkeys, ← Member.map_pClient] at hnames
    · intro hchange
      rw [List.forall_mem_map]
      intro member hmember
      have hsock := congrArg Prod.snd (member.broadcast_key msg exclude s.broadcasts.length)
      simp only [Member.key] at hsock
      simp only [hsock]
      exact hinv.listed hchange member hmember

theorem inv_of_reachable (hreach : (machine handle).Reachable s) : Inv s := by
  refine Machine.Reachable.invariant ?_ ?_ hreach
  · rintro _ ⟨world, rfl⟩
    exact new_inv world
  · rintro s event next hinv ⟨hpossible, hmoves⟩
    cases event with
    | bind answer => exact hmoves ▸ hinv.bind answer
    | listen success => exact hmoves ▸ hinv.listen success
    | onRun answers =>
        obtain ⟨fuel, value, hrun⟩ := hmoves
        exact hinv.onRun hpossible hrun
    | broadcast msg exclude => exact hmoves ▸ hinv.broadcast msg exclude
    | close => exact hmoves ▸ hinv.close
    | elsewhere world =>
        cases hmoves
        exact { hinv with }

/-! ## A server and its first clients -/

section First

/-- A handler of messages that does nothing. -/
def silent : ServerHandle Unit := fun _ _ _ => ((), [])

/-- A server that listens at descriptor 3. -/
def listening : SelectServer Unit := (bind (.bound 3) (new ())).2

theorem listening_step : (machine silent).step (new ()) (.bind (.bound 3)) listening :=
  ⟨show (0 : Int) ≤ 3 by decide, rfl⟩

/-- A call of `OnRun` that accepts, if anyone, and serves nobody. -/
def acceptOnly (accept : Option NewClient) : OnRunAnswers where
  select := some {3}
  accept
  turns _ := ⟨.failed, fun _ => .notWritable⟩

theorem possible_of_nobody {s : SelectServer σ} {answers : OnRunAnswers}
    (hnobody : answers.accept = none) : Possible s (.onRun answers) := by
  intro new hnew
  rw [hnobody] at hnew
  cases hnew

theorem possible_of_new {s : SelectServer σ} {new : NewClient} (hsock : 0 ≤ new.sock)
    (hfresh : new.pClient ∉ s.clientSockArr.map Member.pClient) :
    Possible s (.onRun (acceptOnly new)) := by
  intro other hother
  cases hother
  exact ⟨hsock, fun member hmember hsame => hfresh (List.mem_map.mpr ⟨member, hmember, hsame⟩)⟩

end First

end SelectServer

end SelectNet
