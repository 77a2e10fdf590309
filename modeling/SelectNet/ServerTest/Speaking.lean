import SelectNet.ServerTest.Guests

/-!
# A turn at Server01

While a client has its turn, everything it has asked for goes into the log, and every
client is sent what that shows it, the speaker among them.
-/

namespace SelectNet

open Sweeping

/-- The handler of Server01, with a log of what it was called with. -/
def Server01.recording : ServerHandle (Locals × Log) := fun (own, log) sender msg =>
  let (own, acts) := Server01.onMsgHandle own sender msg
  ((own, log ++ [(sender, Command.ofPackage msg)]), acts)

/-- Every client has been sent what shows it these entries. -/
def AllShown (entries : Log) (members next : List Member) : Prop :=
  List.Forall₂ (fun member next => ∃ sent, Member.Sends member next sent ∧
    SendsShown sent (Log.shownTo member.pClient entries)) members next

namespace AllShown

variable {entries more : Log} {members middle last : List Member}

theorem refl (members : List Member) : AllShown [] members members :=
  List.forall₂_same.mpr fun member _ => ⟨[], .refl member, .nil⟩

theorem trans (hfirst : AllShown entries members middle) (hsecond : AllShown more middle last) :
    AllShown (entries ++ more) members last := by
  induction hfirst generalizing last with
  | nil =>
      cases hsecond
      exact .nil
  | cons hmember _ ih =>
      cases hsecond with
      | cons hnext hrest =>
          refine .cons ?_ (ih hrest)
          obtain ⟨sent, hsends, hshown⟩ := hmember
          obtain ⟨sent', hsends', hshown'⟩ := hnext
          rw [hsends.pClient] at hshown'
          refine ⟨sent ++ sent', hsends.trans hsends', ?_⟩
          rw [Log.shownTo_append]
          exact hshown.append hshown'

theorem others {sender : ClientId} (hall : AllShown entries members last)
    (hothers : Others sender members) : Others sender last := by
  induction hall with
  | nil => exact hothers
  | cons hmember _ ih =>
      obtain ⟨sent, hsends, _⟩ := hmember
      simp only [Others, List.forall_mem_cons] at hothers ih ⊢
      exact ⟨⟨hsends.queues.sock.trans_ne hothers.1.1, hsends.pClient.trans_ne hothers.1.2⟩,
        ih hothers.2⟩

/-- What a handler sends, if it shows the clients one entry. -/
theorem of_allSend {sent : ClientId → List Sent} (hall : AllSend sent members last)
    (hshown : ∀ pClient, SendsShown (sent pClient) (Log.shownTo pClient entries)) :
    AllShown entries members last :=
  hall.imp fun member _ hsends => ⟨sent member.pClient, hsends, hshown member.pClient⟩

/-- Whom a client is that has been sent something. -/
theorem origin (hall : AllShown entries members last) {next : Member} (hnext : next ∈ last) :
    ∃ member ∈ members, ∃ sent, member.Sends next sent ∧
      SendsShown sent (Log.shownTo member.pClient entries) := by
  induction hall with
  | nil => exact absurd hnext List.not_mem_nil
  | cons hmember _ ih =>
      rcases List.mem_cons.mp hnext with rfl | hrest
      · exact ⟨_, List.mem_cons_self, hmember⟩
      · obtain ⟨member, hmem, hsends⟩ := ih hrest
        exact ⟨member, List.mem_cons_of_mem _ hmem, hsends⟩

/-- Those who were shown what others have asked for. -/
theorem seated {log : Log} (hall : AllShown entries members last) (guests : ClientId → Guest)
    (hothers : ∀ member ∈ members, Log.own member.pClient entries = [])
    (hseated : ∀ member ∈ members, Seated log (guests member.pClient) member) :
    ∀ next ∈ last, Seated (log ++ entries) (guests next.pClient) next := by
  intro next hnext
  obtain ⟨member, hmember, sent, hsends, hshown⟩ := hall.origin hnext
  rw [hsends.pClient]
  exact (hseated member hmember).hears hsends hshown (hothers member hmember)

end AllShown

/-- Where the turn of a client stands once it has handed over the frames `done`. -/
structure Speaks (log : Log) (before after : List Member) (member : Member)
    (done : List (List Byte)) (t : ClientSocket (Sweeping (Locals × Log))) : Prop where
  sock : t.sock = member.client.sock
  log : t.ext.world.own.2 = log ++ Log.entries member.pClient done
  before : AllShown (Log.entries member.pClient done) before t.ext.world.before
  after : AllShown (Log.entries member.pClient done) after t.ext.world.after
  pushed : ∃ sent, t.ext.world.pushed = member.pushed ++ sent ∧
    SendsShown sent (Log.shownTo member.pClient (Log.entries member.pClient done))
  grown : member.client.kernel <+: t.kernel

variable {log : Log} {before after : List Member} {member : Member} {done : List (List Byte)}
  {t next : ClientSocket (Sweeping (Locals × Log))}

theorem Speaks.same (hspeaks : Speaks log before after member done t) (hsock : next.sock = t.sock)
    (hext : next.ext = t.ext) (hgrown : t.kernel <+: next.kernel) :
    Speaks log before after member done next := by
  refine ⟨hsock.trans hspeaks.sock, ?_, ?_, ?_, ?_, hspeaks.grown.trans hgrown⟩
  · rw [hext]
    exact hspeaks.log
  · rw [hext]
    exact hspeaks.before
  · rw [hext]
    exact hspeaks.after
  · rw [hext]
    exact hspeaks.pushed

/-- One more frame that asks for something. -/
theorem Speaks.package (hspeaks : Speaks log before after member done t)
    (hopen : member.client.sock ≠ invalidSocket) (hbefore : Others member.pClient before)
    (hafter : Others member.pClient after) (hsend : t.SendInv) {frame : List Byte}
    {command : Command} (hasks : command.Asks frame) :
    Speaks log before after member (done ++ [frame])
      (ClientSocket.onPackage (onMsgHandle Server01.recording member.pClient) t frame) := by
  have hlen : frame.length ≤ packageMaxSize := (headRule_isFrame_iff.mp hasks.isFrame).2.2
  obtain ⟨hsock, _, _, hext, _, _⟩ := ClientSocket.onPackage_spec
    (onMsgHandle Server01.recording member.pClient) hsend hlen
  have hkernel := ClientSocket.onPackage_kernel
    (onMsgHandle Server01.recording member.pClient) t frame
  have hstill : t.sock ≠ invalidSocket := hspeaks.sock.trans_ne hopen
  have hanswered := onPackage_answered Server01.recording member.pClient hstill
    (hspeaks.before.others hbefore) (hspeaks.after.others hafter) frame
  have hshown : ∀ pClient, SendsShown (HandleAct.sent pClient member.pClient
      t.ext.world.broadcasts.length (Server01.recording t.ext.world.own member.pClient
        (fillPackage t.package frame)).2)
      (Log.shownTo pClient (Log.entries member.pClient [frame])) := by
    intro pClient
    have hone : Log.shownTo pClient (Log.entries member.pClient [frame]) =
        command.shownTo (decide (pClient = member.pClient)) := by
      rw [← hasks.read]
      exact List.flatMap_singleton _ _
    rw [hone]
    exact server01_sends hasks _ _ _ _ _
  obtain ⟨sent, hpushed, hsent⟩ := hspeaks.pushed
  refine ⟨hsock.trans hspeaks.sock, ?_, ?_, ?_, ?_, ?_⟩
  · obtain ⟨hown, _⟩ := onMsgHandle_forSender Server01.recording member.pClient t.ext.world
      (fillPackage t.package frame)
    have hadded : (Server01.recording t.ext.world.own member.pClient
        (fillPackage t.package frame)).1.2 =
          t.ext.world.own.2 ++ [(member.pClient, command)] := by
      rw [← hasks.ofPackage t.package]
      rfl
    rw [hext, ClientSocket.handled, hown, ServerHandle.forSender, hadded, hspeaks.log,
      List.append_assoc, Log.entries_append, ← hasks.read]
    rfl
  · rw [Log.entries_append]
    exact hspeaks.before.trans (.of_allSend hanswered.before hshown)
  · rw [Log.entries_append]
    exact hspeaks.after.trans (.of_allSend hanswered.after hshown)
  · rw [Log.entries_append, Log.shownTo_append]
    refine ⟨_, ?_, hsent.append (hshown member.pClient)⟩
    rw [hanswered.pushed, hpushed, List.append_assoc]
  · rw [hkernel]
    exact hspeaks.grown

/-- What every call in a turn keeps. -/
theorem speaks_frames (hopen : member.client.sock ≠ invalidSocket)
    (hbefore : Others member.pClient before) (hafter : Others member.pClient after) :
    ClientSocket.Frames (onMsgHandle Server01.recording member.pClient)
      (fun frame => ∃ command, Command.Asks command frame) (Speaks log before after member) where
  quiet _ _ _ hsame hsock hext hspeaks :=
    hspeaks.same hsock hext (hsame.kernel ▸ List.prefix_rfl)
  package _ _ _ hsend hgood hspeaks := by
    obtain ⟨command, hasks⟩ := hgood
    exact hspeaks.package hopen hbefore hafter hsend hasks
  kept _ _ _ hkept hspeaks := hspeaks.same hkept.same.sock hkept.same.ext hkept.grown

/-- Each of the frames asks for its command. -/
theorem asks_all {commands : List Command} {sent : List (List Byte)}
    (hasks : List.Forall₂ Command.Asks commands sent) :
    sent.map (fun frame => Command.ofPackage (asPackage frame)) = commands ∧
      ∀ frame ∈ sent, ∃ command, Command.Asks command frame := by
  induction hasks with
  | nil => exact ⟨rfl, fun _ hframe => absurd hframe List.not_mem_nil⟩
  | cons hone _ ih =>
      rw [List.map_cons, hone.read, ih.1, List.forall_mem_cons]
      exact ⟨rfl, ⟨_, hone⟩, ih.2⟩

/-- What the turn of a client leaves of it and of the others. -/
theorem Seated.turn {guest : Guest} (hseated : Seated log guest member)
    (hclient : member.client.Open) (hbefore : Others member.pClient before)
    (hafter : Others member.pClient after) {own : Locals} {broadcasts : List (List Byte)}
    {fuel : Nat} {readable failed : Bool} {answer : RecvAnswer} {answers : Nat → SendAnswer}
    {client : ClientSocket (Sweeping (Locals × Log))}
    (hfrom : answer.From (guest.client.inFlight guest.serverRead))
    (hturn : ClientSocket.turn (onMsgHandle Server01.recording member.pClient) fuel readable answer
      answers (member.client.lend ⟨(own, log), before, after, broadcasts, member.pushed⟩) =
        some (failed, client))
    (hstream : failed = false →
      client.accepted <+: (client.ext.world.pushed.map Sent.bytes).flatten) :
    ∃ done, client.ext.world.own.2 = log ++ Log.entries member.pClient done ∧
      AllShown (Log.entries member.pClient done) before client.ext.world.before ∧
      AllShown (Log.entries member.pClient done) after client.ext.world.after ∧
      Log.own member.pClient (log.drop guest.since) ++
        Log.own member.pClient (Log.entries member.pClient done) <+: guest.commands ∧
      (failed = false → Seated (log ++ Log.entries member.pClient done)
        (guest.heardBytes
          (if readable then (ClientSocket.chunk answer member.client).length else 0))
        (member.resumed client)) := by
  obtain ⟨sent, taken, hasks, hchannel, htaken, hwhole⟩ := hseated.heard
  obtain ⟨hcommands, hgood⟩ := asks_all hasks
  have hframes : ∀ frame ∈ sent, headRule.IsFrame frame := by
    intro frame hframe
    obtain ⟨_, hone⟩ := hgood frame hframe
    exact hone.isFrame
  have hchunk : ClientSocket.chunk answer member.client <+:
      guest.client.accepted.drop guest.serverRead :=
    Connection.received_prefix hfrom _ _
  obtain ⟨hfound, left, hending⟩ := hchannel.parse_chunk hframes hchunk
  have hstart : Speaks log before after member []
      (member.client.lend ⟨(own, log), before, after, broadcasts, member.pushed⟩) :=
    ⟨rfl, (List.append_nil _).symm, .refl _, .refl _, ⟨[], (List.append_nil _).symm, .nil⟩,
      List.prefix_rfl⟩
  obtain ⟨done, last, hsend, hspeaks, hlast, hfirst, hdone⟩ :=
    (speaks_frames hclient.sock hbefore hafter).turn (Client.lend_inv hclient.inv _) hclient.sock
      hstart (fun frame hframe => hgood frame (hfound.subset (List.mem_append_right _ hframe)))
      hending hturn
  have hext : client.ext = last.ext := by
    rw [hlast]
    split
    · exact (ClientSocket.close_spec hsend).2.1
    · rfl
  refine ⟨done, ?_, ?_, ?_, ?_, fun hfailed => ?_⟩
  · rw [hext]
    exact hspeaks.log
  · rw [hext]
    exact hspeaks.before
  · rw [hext]
    exact hspeaks.after
  · have htakes : taken ++ done <+: sent := by
      cases readable with
      | false =>
          rw [List.prefix_nil.mp hfirst, List.append_nil]
          exact hchannel.order
      | true => exact ((List.prefix_append_right_inj taken).mpr hfirst).trans hfound
    rw [Log.own_entries, ← htaken, ← List.map_append, ← hcommands]
    exact htakes.map _
  subst hfailed
  cases hlast
  obtain ⟨rfl, hleft⟩ := hdone rfl
  obtain ⟨more, hpushed, hshown⟩ := hspeaks.pushed
  have hsame : (member.resumed last).pClient = member.pClient := rfl
  have hkept : (member.resumed last).client.retained = last.retained := rfl
  refine hseated.grow hsame hpushed hshown (hspeaks.grown.flatMap _) (hstream rfl) ?_
  rw [Log.own_entries, hkept, hleft, ← htaken, ← List.map_append]
  cases readable with
  | false => exact ⟨sent, taken, hasks, hchannel, by simp, hwhole⟩
  | true =>
      have hreceived := hchannel.receive hframes hchunk hending
      exact ⟨sent, _, hasks, hreceived, rfl, hwhole⟩

end SelectNet
