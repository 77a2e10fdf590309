import SelectNet.Server.Sweep

/-!
# Where a broadcast goes

`Broadcast` puts one copy of the message behind what each client has in its
queue, and touches nothing else of a client. A handler that calls it during the
sweep does the same to the clients on both sides of the sender, and to the
sender, whose turn it is. From there each client's queue, message and buffer keep
the order, so all clients see the broadcasts in the order in which they were made.
-/

namespace SelectNet

/-! ## What one client is sent -/

namespace Endpoint

variable {ρ : Type} {s next last : Endpoint ρ} {sent more : List Sent}

/-- Exactly these were put behind the queue. The buffers, and what the kernel was
offered, are as before. -/
structure Queues (s next : Endpoint ρ) (sent : List Sent) : Prop where
  entries : ∃ entries : List QMSend, next.sendQueue.nodes = s.sendQueue.nodes ++ entries ∧
    entries.map (fun entry => (entry.size, entry.data.bytes)) =
      sent.map fun one => (one.bytes.length, one.bytes)
  sock : next.sock = s.sock
  ioSend : next.ioSend = s.ioSend
  oMsg : next.oMsg = s.oMsg
  kernel : next.kernel = s.kernel
  oRecv : next.oRecv = s.oRecv
  recvBuf : next.recvBuf = s.recvBuf
  retainSize : next.retainSize = s.retainSize

theorem Queues.refl (s : Endpoint ρ) : s.Queues s [] :=
  ⟨⟨[], (List.append_nil _).symm, rfl⟩, rfl, rfl, rfl, rfl, rfl, rfl, rfl⟩

theorem Queues.trans (hfirst : s.Queues next sent) (hsecond : next.Queues last more) :
    s.Queues last (sent ++ more) := by
  obtain ⟨first, hqueue, hsent⟩ := hfirst.entries
  obtain ⟨second, hqueue', hmore⟩ := hsecond.entries
  refine ⟨⟨first ++ second, ?_, ?_⟩, hsecond.sock.trans hfirst.sock,
    hsecond.ioSend.trans hfirst.ioSend, hsecond.oMsg.trans hfirst.oMsg,
    hsecond.kernel.trans hfirst.kernel, hsecond.oRecv.trans hfirst.oRecv,
    hsecond.recvBuf.trans hfirst.recvBuf, hsecond.retainSize.trans hfirst.retainSize⟩
  · rw [hqueue', hqueue, List.append_assoc]
  · rw [List.map_append, List.map_append, hsent, hmore]

/-- `SendMsg` on an open socket queues the first `msg->size` bytes. -/
theorem Queues.sendMsg (hopen : s.sock ≠ invalidSocket) (msg : Memory Byte)
    (origin : Option Nat) : s.Queues (s.sendMsg msg).2 [⟨origin, msgBytes msg⟩] := by
  rw [Endpoint.sendMsg, if_neg hopen, sendData_of_open hopen]
  refine ⟨⟨_, rfl, ?_⟩, rfl, rfl, rfl, rfl, rfl, rfl, rfl⟩
  simp [msgBytes]

theorem Queues.sendMsgs (hopen : s.sock ≠ invalidSocket) {msgs : List (Memory Byte)}
    (hsent : sent.map Sent.bytes = msgs.map msgBytes) :
    s.Queues (msgs.foldl (fun s msg => (s.sendMsg msg).2) s) sent := by
  induction msgs generalizing s sent with
  | nil =>
      obtain rfl := List.map_eq_nil_iff.mp hsent
      exact .refl s
  | cons msg msgs ih =>
      cases sent with
      | nil => cases hsent
      | cons one sent =>
          simp only [List.map_cons, List.cons.injEq] at hsent
          have hfirst := Queues.sendMsg hopen msg one.origin
          rw [← hsent.1] at hfirst
          have hrest := ih (s := (s.sendMsg msg).2) (hfirst.sock.trans_ne hopen) hsent.2
          exact hfirst.trans hrest

end Endpoint

/-- What a client has been sent since: its queue and its record have grown by
it, and nothing else of the client has changed. -/
structure Member.Sends (member next : Member) (sent : List Sent) : Prop where
  pClient : next.pClient = member.pClient
  pushed : next.pushed = member.pushed ++ sent
  queues : member.client.Queues next.client sent
  package : next.client.package = member.client.package
  ext : next.client.ext = member.client.ext
  closesocket : next.client.closesocket = member.client.closesocket

namespace Member

variable {member next last : Member} {sent more : List Sent}

theorem Sends.refl (member : Member) : member.Sends member [] :=
  ⟨rfl, (List.append_nil _).symm, .refl _, rfl, rfl, rfl⟩

theorem Sends.trans (hfirst : member.Sends next sent) (hsecond : next.Sends last more) :
    member.Sends last (sent ++ more) := by
  refine ⟨hsecond.pClient.trans hfirst.pClient, ?_, hfirst.queues.trans hsecond.queues,
    hsecond.package.trans hfirst.package, hsecond.ext.trans hfirst.ext,
    hsecond.closesocket.trans hfirst.closesocket⟩
  rw [hsecond.pushed, hfirst.pushed, List.append_assoc]

/-- The copy that a broadcast sends to a client. -/
def copies (msg : Memory Byte) (exclude : ClientId → Bool) (number : Nat) (pClient : ClientId) :
    List Sent :=
  if exclude pClient then [] else [⟨some number, Endpoint.msgBytes msg⟩]

theorem broadcast_sends (hopen : member.client.sock ≠ invalidSocket) (msg : Memory Byte)
    (exclude : ClientId → Bool) (number : Nat) :
    member.Sends (member.broadcast msg exclude number)
      (copies msg exclude number member.pClient) := by
  unfold broadcast copies
  split
  next => exact .refl member
  next =>
    rw [sendMsg_of_open hopen]
    refine ⟨rfl, rfl, Endpoint.Queues.sendMsg hopen msg _, ?_, ?_, ?_⟩
    all_goals
      simp only [ClientSocket.sendMsg, Endpoint.sendMsg, if_neg hopen,
        Endpoint.sendData_of_open hopen]
      rfl

end Member

/-! ## What a handler sends -/

/-- What a client is sent by the acts of a handler that was called for `sender`,
when `number` broadcasts have been made before. -/
def HandleAct.sent (pClient sender : ClientId) : Nat → List HandleAct → List Sent
  | _, [] => []
  | number, .reply msg :: acts =>
      (if pClient = sender then [⟨none, Endpoint.msgBytes msg⟩] else []) ++
        sent pClient sender number acts
  | number, .broadcast msg exclude :: acts =>
      Member.copies msg exclude number pClient ++ sent pClient sender (number + 1) acts

namespace Sweeping

variable {σ : Type} {sweep : Sweeping σ}

/-- Nobody to whom the sender's replies could go, and no closed socket. -/
def Others (sender : ClientId) (members : List Member) : Prop :=
  ∀ member ∈ members, member.client.sock ≠ invalidSocket ∧ member.pClient ≠ sender

/-- Every client has been sent what `sent` says, in the same places. -/
def AllSend (sent : ClientId → List Sent) (members next : List Member) : Prop :=
  List.Forall₂ (fun member next => Member.Sends member next (sent member.pClient)) members next

theorem allSend_broadcast {members : List Member}
    (hopen : ∀ member ∈ members, member.client.sock ≠ invalidSocket) (msg : Memory Byte)
    (exclude : ClientId → Bool) (number : Nat) :
    AllSend (Member.copies msg exclude number) members
      (members.map (Member.broadcast msg exclude number)) := by
  rw [AllSend, List.forall₂_map_right_iff, List.forall₂_same]
  exact fun member hmember => Member.broadcast_sends (hopen member hmember) msg exclude number

theorem Others.broadcast {sender : ClientId} {members : List Member}
    (hothers : Others sender members) (msg : Memory Byte) (exclude : ClientId → Bool)
    (number : Nat) : Others sender (members.map (Member.broadcast msg exclude number)) := by
  rw [Others, List.forall_mem_map]
  intro member hmember
  have hkey := member.broadcast_key msg exclude number
  simp only [Member.key, Prod.mk.injEq] at hkey
  rw [hkey.1, hkey.2]
  exact hothers member hmember

variable {members middle last : List Member} {sent more : ClientId → List Sent}

theorem AllSend.refl (members : List Member) : AllSend (fun _ => []) members members :=
  List.forall₂_same.mpr fun member _ => .refl member

theorem AllSend.trans (hfirst : AllSend sent members middle) (hsecond : AllSend more middle last) :
    AllSend (fun pClient => sent pClient ++ more pClient) members last := by
  induction hfirst generalizing last with
  | nil =>
      cases hsecond
      exact .nil
  | cons hmember _ ih =>
      cases hsecond with
      | cons hnext hrest =>
          rw [hmember.pClient] at hnext
          exact .cons (hmember.trans hnext) (ih hrest)

theorem AllSend.congr (hall : AllSend sent members last)
    (hsame : ∀ member ∈ members, sent member.pClient = more member.pClient) :
    AllSend more members last := by
  induction hall with
  | nil => exact .nil
  | cons hmember _ ih =>
      rw [List.forall_mem_cons] at hsame
      exact .cons (hsame.1 ▸ hmember) (ih hsame.2)

/-- The acts of a handler send each client its copies, and the sender its own. -/
theorem acts_send (sender : ClientId) (acts : List HandleAct) (sweep : Sweeping σ)
    (replies : List (Memory Byte)) {number : Nat} (hnumber : sweep.broadcasts.length = number)
    (hbefore : Others sender sweep.before) (hafter : Others sender sweep.after) :
    AllSend (fun pClient => HandleAct.sent pClient sender number acts)
        sweep.before (acts.foldl (act sender) (sweep, replies)).1.before ∧
      AllSend (fun pClient => HandleAct.sent pClient sender number acts)
        sweep.after (acts.foldl (act sender) (sweep, replies)).1.after ∧
      (acts.foldl (act sender) (sweep, replies)).1.pushed =
        sweep.pushed ++ HandleAct.sent sender sender number acts ∧
      ∃ msgs, (acts.foldl (act sender) (sweep, replies)).2 = replies ++ msgs ∧
        (HandleAct.sent sender sender number acts).map Sent.bytes = msgs.map Endpoint.msgBytes := by
  induction acts generalizing sweep replies number with
  | nil =>
      exact ⟨.refl _, .refl _, (List.append_nil _).symm, [], (List.append_nil _).symm, rfl⟩
  | cons head acts ih =>
      cases head with
      | reply msg =>
          obtain ⟨hfront, hback, hpushed, msgs, hreplies, hsent⟩ := ih
            { sweep with pushed := sweep.pushed ++ [⟨none, Endpoint.msgBytes msg⟩] }
            (replies ++ [msg]) hnumber hbefore hafter
          have hskip : ∀ members, Others sender members → ∀ member ∈ members,
              HandleAct.sent member.pClient sender number acts =
                HandleAct.sent member.pClient sender number (.reply msg :: acts) := by
            intro members hothers member hmember
            rw [HandleAct.sent, if_neg (hothers member hmember).2, List.nil_append]
          refine ⟨hfront.congr (hskip _ hbefore), hback.congr (hskip _ hafter), ?_, msg :: msgs,
            ?_, ?_⟩
          · rw [HandleAct.sent, if_pos rfl, ← List.append_assoc]
            exact hpushed
          · exact hreplies.trans (List.append_assoc _ _ _)
          · rw [HandleAct.sent, if_pos rfl, List.map_append, hsent]
            rfl
      | broadcast msg exclude =>
          have hmore : (sweep.broadcasts ++ [Endpoint.msgBytes msg]).length = number + 1 := by
            simp [hnumber]
          have hfront := allSend_broadcast (fun member hmember => (hbefore member hmember).1)
            msg exclude number
          have hback := allSend_broadcast (fun member hmember => (hafter member hmember).1)
            msg exclude number
          simp only [List.foldl_cons, act, hnumber, HandleAct.sent]
          -- the sender is sent its copy, or is left out
          by_cases hexclude : exclude sender = true
          · obtain ⟨hrest, hrest', hpushed, hreplies⟩ := ih
              { sweep with
                before := sweep.before.map (Member.broadcast msg exclude number)
                after := sweep.after.map (Member.broadcast msg exclude number)
                broadcasts := sweep.broadcasts ++ [Endpoint.msgBytes msg] }
              replies hmore (hbefore.broadcast msg exclude number)
              (hafter.broadcast msg exclude number)
            simp only [hexclude, if_true, Member.copies, List.nil_append]
            exact ⟨hfront.trans hrest, hback.trans hrest', hpushed, hreplies⟩
          · obtain ⟨hrest, hrest', hpushed, msgs, hreplies, hsent⟩ := ih
              { sweep with
                before := sweep.before.map (Member.broadcast msg exclude number)
                after := sweep.after.map (Member.broadcast msg exclude number)
                broadcasts := sweep.broadcasts ++ [Endpoint.msgBytes msg]
                pushed := sweep.pushed ++ [⟨some number, Endpoint.msgBytes msg⟩] }
              (replies ++ [msg]) hmore (hbefore.broadcast msg exclude number)
              (hafter.broadcast msg exclude number)
            simp only [if_neg hexclude]
            refine ⟨hfront.trans hrest, hback.trans hrest', ?_, msg :: msgs, ?_, ?_⟩
            · rw [Member.copies, if_neg hexclude, ← List.append_assoc]
              exact hpushed
            · exact hreplies.trans (List.append_assoc _ _ _)
            · rw [Member.copies, if_neg hexclude, List.map_append, hsent]
              rfl

/-- A package in the middle of the sweep: what its handler sends, to the clients
in front of the sender, behind it, and to the sender. -/
structure Answered (sender : ClientId) (acts : List HandleAct)
    (s next : ClientSocket (Sweeping σ)) :
    Prop where
  before : AllSend (fun pClient =>
      HandleAct.sent pClient sender s.ext.world.broadcasts.length acts)
    s.ext.world.before next.ext.world.before
  after : AllSend (fun pClient =>
      HandleAct.sent pClient sender s.ext.world.broadcasts.length acts)
    s.ext.world.after next.ext.world.after
  own : s.Queues next (HandleAct.sent sender sender s.ext.world.broadcasts.length acts)
  pushed : next.ext.world.pushed = s.ext.world.pushed ++
    HandleAct.sent sender sender s.ext.world.broadcasts.length acts

theorem onPackage_answered (handle : ServerHandle σ) (sender : ClientId)
    {s : ClientSocket (Sweeping σ)} (hopen : s.sock ≠ invalidSocket)
    (hbefore : Others sender s.ext.world.before) (hafter : Others sender s.ext.world.after)
    (bytes : List Byte) :
    Answered sender (handle s.ext.world.own sender (fillPackage s.package bytes)).2 s
      (ClientSocket.onPackage (onMsgHandle handle sender) s bytes) := by
  let package := fillPackage s.package bytes
  let own := (handle s.ext.world.own sender package).1
  obtain ⟨hfront, hback, hpushed, msgs, hreplies, hsent⟩ := acts_send sender
    (handle s.ext.world.own sender package).2 { s.ext.world with own } [] rfl hbefore hafter
  let called : ClientSocket (Sweeping σ) :=
    { s.count fun test => { test with msgTimes := test.msgTimes + 1 } with
      package
      ext := ⟨(onMsgHandle handle sender s.ext.world package).1,
        s.ext.calls ++ [package.read 0 packageMaxSize]⟩ }
  have hcalled : s.Queues called [] :=
    ⟨⟨[], (List.append_nil _).symm, rfl⟩, rfl, rfl, rfl, rfl, rfl, rfl, rfl⟩
  -- the replies go through `SendMsg` of the sender once the handler is done
  have hresult : ClientSocket.onPackage (onMsgHandle handle sender) s bytes =
      msgs.foldl (fun s msg => (Endpoint.sendMsg s msg).2) called :=
    congrArg (fun replies : List (Memory Byte) =>
      replies.foldl (fun s msg => (Endpoint.sendMsg s msg).2) called) hreplies
  have hworld := congrArg HandleSide.world (Endpoint.sendMsgs_ext msgs called)
  rw [← hresult] at hworld
  refine ⟨?_, ?_, ?_, ?_⟩
  · rw [hworld]
    exact hfront
  · rw [hworld]
    exact hback
  · have hstill : called.sock ≠ invalidSocket := hopen
    have hqueued : called.Queues (msgs.foldl (fun s msg => (Endpoint.sendMsg s msg).2) called)
        (HandleAct.sent sender sender s.ext.world.broadcasts.length
          (handle s.ext.world.own sender package).2) := Endpoint.Queues.sendMsgs hstill hsent
    rw [hresult]
    exact hcalled.trans hqueued
  · rw [hworld]
    exact hpushed

end Sweeping

/-! ## The order in which clients see broadcasts -/

/-- Two different entries of a list stand in one order or the other. -/
theorem pair_sublist_or {α : Type} {items : List α} {first second : α} (hfirst : first ∈ items)
    (hsecond : second ∈ items) (hne : first ≠ second) :
    [first, second].Sublist items ∨ [second, first].Sublist items := by
  induction items with
  | nil => cases hfirst
  | cons head rest ih =>
      rcases List.mem_cons.mp hfirst with rfl | hfront
      · have hrest := (List.mem_cons.mp hsecond).resolve_left hne.symm
        exact Or.inl ((List.singleton_sublist.mpr hrest).cons_cons _)
      · rcases List.mem_cons.mp hsecond with rfl | hback
        · exact Or.inr ((List.singleton_sublist.mpr hfront).cons_cons _)
        · exact (ih hfront hback).imp (fun hrest => hrest.cons _) fun hrest => hrest.cons _

/-- In a record two broadcasts stand as they were made. -/
theorem Recorded.sublist_iff {broadcasts : List (List Byte)} {pushed : List Sent}
    (hrecorded : Recorded broadcasts pushed) {first second : Sent} (hfirst : first ∈ pushed)
    (hsecond : second ∈ pushed) {i j : Nat} (hi : first.origin = some i)
    (hj : second.origin = some j) : [first, second].Sublist pushed ↔ i < j := by
  have hforward : ∀ {one other : Sent} {m n : Nat}, one.origin = some m →
      other.origin = some n → [one, other].Sublist pushed → m < n := by
    intro one other m n hm hn hsublist
    have hpair := hrecorded.increasing.sublist (hsublist.filterMap Sent.origin)
    simpa [hm, hn] using hpair
  refine ⟨hforward hi hj, fun hlt => ?_⟩
  have hne : first ≠ second := by
    rintro rfl
    cases hi.symm.trans hj
    exact Nat.lt_irrefl _ hlt
  refine (pair_sublist_or hfirst hsecond hne).resolve_right fun hback => ?_
  exact Nat.lt_asymm hlt (hforward hj hi hback)

namespace SelectServer

variable {σ : Type} {s : SelectServer σ}

/-- Every client, listed or deleted, has been offered what it was sent in the
order of its record, and two broadcasts in the records of two clients stand in
the same order in both. -/
structure SameOrder (s : SelectServer σ) : Prop where
  offered : ∀ member ∈ s.clientSockArr ++ s.departed,
    member.client.Offers (member.pushed.flatMap Sent.bytes)
  agree : ∀ member ∈ s.clientSockArr ++ s.departed, ∀ other ∈ s.clientSockArr ++ s.departed,
    ∀ first second : Sent, first.origin.isSome → second.origin.isSome →
      first ∈ member.pushed → second ∈ member.pushed →
      first ∈ other.pushed → second ∈ other.pushed →
      ([first, second].Sublist member.pushed ↔ [first, second].Sublist other.pushed)

theorem Inv.recorded (hinv : s.Inv) {member : Member}
    (hmember : member ∈ s.clientSockArr ++ s.departed) :
    member.client.Offers (member.pushed.flatMap Sent.bytes) ∧
      Recorded s.broadcasts member.pushed := by
  rcases List.mem_append.mp hmember with hmember | hmember
  · have hserved := hinv.served member hmember
    exact ⟨hserved.carries.offers, hserved.recorded⟩
  · have hleft := hinv.departed member hmember
    exact ⟨hleft.offers, hleft.recorded⟩

theorem Inv.sameOrder (hinv : s.Inv) : s.SameOrder := by
  refine ⟨fun member hmember => (hinv.recorded hmember).1, ?_⟩
  intro member hmember other hother first second hfirst hsecond hin hin' hout hout'
  obtain ⟨i, hi⟩ := Option.isSome_iff_exists.mp hfirst
  obtain ⟨j, hj⟩ := Option.isSome_iff_exists.mp hsecond
  rw [(hinv.recorded hmember).2.sublist_iff hin hin' hi hj,
    (hinv.recorded hother).2.sublist_iff hout hout' hi hj]

/-- `Broadcast` on a running server. -/
structure Broadcasts (msg : Memory Byte) (exclude : ClientId → Bool) (s next : SelectServer σ) :
    Prop where
  clients : Sweeping.AllSend (Member.copies msg exclude s.broadcasts.length) s.clientSockArr
    next.clientSockArr
  numbered : next.broadcasts = s.broadcasts ++ [Endpoint.msgBytes msg]
  others : next.departed = s.departed

/-- `Broadcast` appends one copy for every client that it does not exclude and
changes nothing else of any; called by a handler during the sweep it does the same;
and all clients are offered the broadcasts in the same order. -/
theorem broadcast_in_order (handle : ServerHandle σ) :
    (∀ s, (machine handle).Reachable s → s.serverSock ≠ invalidSocket →
      ∀ (msg : Memory Byte) (exclude : ClientId → Bool),
        Broadcasts msg exclude s (s.broadcast msg exclude)) ∧
    (∀ (sender : ClientId) (client : ClientSocket (Sweeping σ)) (bytes : List Byte),
      client.sock ≠ invalidSocket → Sweeping.Others sender client.ext.world.before →
      Sweeping.Others sender client.ext.world.after →
      Sweeping.Answered sender
        (handle client.ext.world.own sender (fillPackage client.package bytes)).2 client
        (ClientSocket.onPackage (Sweeping.onMsgHandle handle sender) client bytes)) ∧
    ∀ s, (machine handle).Reachable s → s.SameOrder := by
  refine ⟨?_, ?_, fun s hreach => (inv_of_reachable hreach).sameOrder⟩
  · intro s hreach hopen msg exclude
    have hinv := inv_of_reachable hreach
    rw [broadcast, if_neg hopen]
    exact ⟨Sweeping.allSend_broadcast
      (fun member hmember => (hinv.served member hmember).client.sock) msg exclude _, rfl, rfl⟩
  · intro sender client bytes hsock hbefore hafter
    exact Sweeping.onPackage_answered handle sender hsock hbefore hafter bytes

/-! ## Three clients -/

section Three

/-- The client with an id. -/
def arriving (pClient : ClientId) : NewClient :=
  ⟨4 + pClient, pClient, fun _ => 0, fun _ => 0, fun _ => 0⟩

/-- A message without data. -/
def header : List Byte := [6, 0, 2, 0, 0, 0]

/-- A message with one byte of data. -/
def short : List Byte := [7, 0, 2, 0, 0, 0, 33]

/-- A call in which nobody is readable and the kernel takes what is sent. -/
def sendOnly : OnRunAnswers where
  select := some ∅
  accept := none
  turns _ := ⟨.failed, fun _ => .writable 100⟩

/-- The first of two broadcasts leaves out the last of the three clients. -/
theorem broadcast_to_three : ∃ s middle next : SelectServer Unit,
    s.clientSockArr.length = 3 ∧ middle.broadcasts = [header] ∧
    Broadcasts (.ofList header 0) (fun pClient => pClient == 2) s
      (s.broadcast (.ofList header 0) fun pClient => pClient == 2) ∧
    Broadcasts (.ofList short 0) (fun _ => false) middle
      (middle.broadcast (.ofList short 0) fun _ => false) ∧
    (next.clientSockArr.map fun member => (member.pClient, member.pushed)) =
      [(0, [⟨some 0, header⟩, ⟨some 1, short⟩]), (1, [⟨some 0, header⟩, ⟨some 1, short⟩]),
        (2, [⟨some 1, short⟩])] ∧
    (next.clientSockArr.map fun member => member.client.accepted) =
      [header ++ short, header ++ short, short] ∧
    next.SameOrder := by
  have hlisten : (machine silent).Reachable listening := .next (.start ⟨(), rfl⟩) listening_step
  have hfirst := hlisten.step (.onRun (acceptOnly (arriving 0)))
    ⟨possible_of_new (by decide) (by decide), 0, 0, rfl⟩
  have hsecond := hfirst.step (.onRun (acceptOnly (arriving 1)))
    ⟨possible_of_new (by decide) (by decide), 0, 0, rfl⟩
  have hthird := hsecond.step (.onRun (acceptOnly (arriving 2)))
    ⟨possible_of_new (by decide) (by decide), 0, 0, rfl⟩
  have hsome := hthird.step (.broadcast (.ofList header 0) fun pClient => pClient == 2)
    ⟨trivial, rfl⟩
  have hmiddle := hsome.step (.onRun sendOnly) ⟨possible_of_nobody rfl, 0, 0, rfl⟩
  have hevery := hmiddle.step (.broadcast (.ofList short 0) fun _ => false) ⟨trivial, rfl⟩
  have hlast := hevery.step (.onRun sendOnly) ⟨possible_of_nobody rfl, 0, 0, rfl⟩
  obtain ⟨hbroadcasts, _, hagree⟩ := broadcast_in_order silent
  exact ⟨_, _, _, rfl, rfl, hbroadcasts _ hthird (show (3 : Int) ≠ -1 by decide) _ _,
    hbroadcasts _ hmiddle (show (3 : Int) ≠ -1 by decide) _ _, rfl, rfl, hagree _ hlast⟩

end Three

end SelectServer

end SelectNet
