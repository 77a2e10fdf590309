import SelectNet.CommonLib.ClientWorld
import SelectNet.Server.Sweep

/-!
# Clients do not see each other

With a handler that only answers the sender, a turn depends on its own client
and on what the system answers it. So a run keeps, for every other client, what
it does when some clients never join: the same messages, bytes and removals.
-/

namespace SelectNet

variable {σ : Type} {handle : ServerHandle σ} {reply : ClientId → Memory Byte → List (Memory Byte)}
  {member : Member} {failed : Bool}

/-- The handler does nothing but answer the sender, by what the message says. -/
def RepliesOnly (handle : ServerHandle σ) (reply : ClientId → Memory Byte → List (Memory Byte)) :
    Prop :=
  ∀ own sender msg, (handle own sender msg).2 = (reply sender msg).map .reply

/-! ## One turn -/

/-- Such a handler as its client sees it: its world is the record of its answers. -/
def answer (reply : ClientId → Memory Byte → List (Memory Byte)) (sender : ClientId) :
    MsgHandle (List Sent) :=
  fun pushed msg =>
    (pushed ++ (reply sender msg).map fun msg => ⟨none, Endpoint.msgBytes msg⟩, reply sender msg)

theorem RepliesOnly.onMsgHandle (hreply : RepliesOnly handle reply) (sender : ClientId)
    (sweep : Sweeping σ) (msg : Memory Byte) :
    Sweeping.onMsgHandle handle sender sweep msg =
      ({ sweep with
        own := (handle sweep.own sender msg).1
        pushed := (answer reply sender sweep.pushed msg).1 }, reply sender msg) := by
  have hacts : ∀ (msgs : List (Memory Byte)) (state : Sweeping σ) (replies : List (Memory Byte)),
      (msgs.map HandleAct.reply).foldl (Sweeping.act sender) (state, replies) =
        ({ state with
          pushed := state.pushed ++ msgs.map fun msg => ⟨none, Endpoint.msgBytes msg⟩ },
          replies ++ msgs) := by
    intro msgs
    induction msgs with
    | nil => simp
    | cons msg msgs ih =>
        intro state replies
        simp only [List.map_cons, List.foldl_cons, Sweeping.act, ih, List.append_assoc,
          List.singleton_append]
  have hfold := congrArg (fun acts : List HandleAct => acts.foldl (Sweeping.act sender)
    ({ sweep with own := (handle sweep.own sender msg).1 }, [])) (hreply sweep.own sender msg)
  exact hfold.trans (hacts (reply sender msg) _ [])

theorem RepliesOnly.actsAlike (hreply : RepliesOnly handle reply) (sender : ClientId) :
    ClientSocket.ActsAlike Sweeping.pushed (Sweeping.onMsgHandle handle sender)
      (answer reply sender) := by
  intro world msg
  rw [hreply.onMsgHandle]
  rfl

/-- Two sweeps with the same other clients and broadcasts. -/
def Sweeping.SameRest (sweep other : Sweeping σ) : Prop :=
  sweep.before = other.before ∧ sweep.after = other.after ∧ sweep.broadcasts = other.broadcasts

theorem RepliesOnly.sameRest (hreply : RepliesOnly handle reply) (sender : ClientId)
    (sweep : Sweeping σ) (msg : Memory Byte) :
    (Sweeping.onMsgHandle handle sender sweep msg).1.SameRest sweep := by
  rw [hreply.onMsgHandle]
  exact ⟨rfl, rfl, rfl⟩

/-- The other clients and the broadcasts are not touched by a turn. -/
theorem RepliesOnly.turn_frame (hreply : RepliesOnly handle reply) (hopen : member.client.Open)
    {world : Sweeping σ} {fuel : Nat} {readable : Bool} {recv : RecvAnswer}
    {send : Nat → SendAnswer} {client : ClientSocket (Sweeping σ)}
    (hturn : ClientSocket.turn (Sweeping.onMsgHandle handle member.pClient) fuel readable recv send
      (member.client.lend world) = some (failed, client)) :
    client.ext.world.before = world.before ∧ client.ext.world.after = world.after ∧
      client.ext.world.broadcasts = world.broadcasts := by
  have hpackage : ∀ (t : ClientSocket (Sweeping σ)) (bytes : List Byte), t.SendInv →
      bytes.length ≤ packageMaxSize → t.ext.world.SameRest world →
      (ClientSocket.onPackage (Sweeping.onMsgHandle handle member.pClient)
        t bytes).ext.world.SameRest
        world := by
    intro t bytes ht hlen ⟨hbefore, hafter, hbroadcasts⟩
    obtain ⟨_, _, _, hext, _⟩ := ClientSocket.onPackage_spec
      (Sweeping.onMsgHandle handle member.pClient) ht hlen
    rw [hext]
    obtain ⟨hbefore', hafter', hbroadcasts'⟩ :=
      hreply.sameRest member.pClient t.ext.world (fillPackage t.package bytes)
    exact ⟨hbefore'.trans hbefore, hafter'.trans hafter, hbroadcasts'.trans hbroadcasts⟩
  have hstart : (member.client.lend world).ext.world.SameRest world := ⟨rfl, rfl, rfl⟩
  obtain ⟨last, hsend, hrest, hclient⟩ := ClientSocket.turn_invariant
    (fun _ _ _ _ hext hrest => hext ▸ hrest) hpackage
      (fun _ _ hkept hrest => hkept.same.ext ▸ hrest)
    (Client.lend_inv hopen.inv world) hopen.sock hstart hturn
  -- a client that has failed is closed on top, which leaves the world
  have hworld : client.ext.world = last.ext.world := by
    obtain ⟨_, hext, _⟩ := ClientSocket.close_spec hsend
    rw [hclient]
    split
    · rw [hext]
    · rfl
  rw [hworld]
  exact hrest

/-- A turn is the same whoever else is in the list. -/
theorem RepliesOnly.turn_alike (hreply : RepliesOnly handle reply) {world world' : Sweeping σ}
    (hpushed : world'.pushed = world.pushed) {fuel : Nat} {readable : Bool} {recv : RecvAnswer}
    {send : Nat → SendAnswer} {client : ClientSocket (Sweeping σ)}
    (hturn : ClientSocket.turn (Sweeping.onMsgHandle handle member.pClient) fuel readable recv send
      (member.client.lend world) = some (failed, client)) :
    ∃ client', ClientSocket.turn (Sweeping.onMsgHandle handle member.pClient)
      fuel readable recv send
        (member.client.lend world') = some (failed, client') ∧
      member.resumed client' = member.resumed client := by
  have hacts := hreply.actsAlike member.pClient
  have himage := ClientSocket.turn_mapWorld Sweeping.pushed hacts fuel readable recv send
    (member.client.lend world)
  have himage' := ClientSocket.turn_mapWorld Sweeping.pushed hacts fuel readable recv send
    (member.client.lend world')
  have hsame : (member.client.lend world').mapWorld Sweeping.pushed =
      (member.client.lend world).mapWorld Sweeping.pushed :=
    congrArg (Client.lend member.client) hpushed
  rw [hsame, himage, hturn] at himage'
  obtain ⟨⟨failed', client'⟩, hturn', hresult⟩ := Option.map_eq_some_iff.mp himage'.symm
  simp only [Prod.mk.injEq] at hresult
  obtain ⟨rfl, hclient⟩ := hresult
  refine ⟨client', hturn', ?_⟩
  exact congrArg (fun s : ClientSocket (List Sent) =>
    ({ member with client := Client.leave s, pushed := s.ext.world } : Member)) hclient

/-! ## One sweep -/

/-- The clients that both runs have. -/
def shown (hidden : List ClientId) (members : List Member) : List Member :=
  members.filter fun member => decide (member.pClient ∉ hidden)

section Shown

variable {hidden : List ClientId} {before after : List Member}

theorem shown_append (members more : List Member) :
    shown hidden (members ++ more) = shown hidden members ++ shown hidden more :=
  List.filter_append _ _

theorem shown_of_hidden (hmem : member.pClient ∈ hidden) (members : List Member) :
    shown hidden (member :: members) = shown hidden members :=
  List.filter_cons_of_neg (by simpa using hmem)

theorem shown_of_not_hidden (hnot : member.pClient ∉ hidden) (members : List Member) :
    shown hidden (member :: members) = member :: shown hidden members :=
  List.filter_cons_of_pos (by simpa using hnot)

theorem mem_shown {members : List Member} :
    member ∈ shown hidden members ↔ member ∈ members ∧ member.pClient ∉ hidden := by
  simp [shown]

end Shown

namespace SelectServer

variable {hidden : List ClientId} {s s' next next' : SelectServer σ}

/-- Where the calls of the two runs leave them: the same clients are listed, and
the same were deleted on the way, up to those that are hidden. -/
structure SameShown (hidden : List ClientId) (s s' next next' : SelectServer σ) : Prop where
  listed : next'.clientSockArr = shown hidden next.clientSockArr
  gone : ∃ gone, next.departed = s.departed ++ gone ∧
    next'.departed = s'.departed ++ shown hidden gone
  serverSock : next.serverSock = s.serverSock ∧ next'.serverSock = s'.serverSock
  broadcasts : next.broadcasts = s.broadcasts ∧ next'.broadcasts = s'.broadcasts

/-- The system answers the clients that both runs have alike. -/
def AnswersAlike (hidden : List ClientId) (fdRead fdRead' : FdSet)
    (turns turns' : ClientId → ClientAnswers) (members : List Member) : Prop :=
  ∀ member ∈ members, member.pClient ∉ hidden →
    (member.client.sock ∈ fdRead' ↔ member.client.sock ∈ fdRead) ∧
      turns' member.pClient = turns member.pClient

/-- What came before only adds to those deleted. -/
theorem SameShown.behind {middle middle' : SelectServer σ}
    (hsame : SameShown hidden middle middle' next next') {gone : List Member}
    (hgone : middle.departed = s.departed ++ gone)
    (hgone' : middle'.departed = s'.departed ++ shown hidden gone)
    (hserver : middle.serverSock = s.serverSock ∧ middle'.serverSock = s'.serverSock)
    (hbroadcasts : middle.broadcasts = s.broadcasts ∧ middle'.broadcasts = s'.broadcasts) :
    SameShown hidden s s' next next' := by
  obtain ⟨more, hmore, hmore'⟩ := hsame.gone
  refine ⟨hsame.listed, ⟨gone ++ more, ?_, ?_⟩, ?_, ?_⟩
  · rw [hmore, hgone, List.append_assoc]
  · rw [hmore', hgone', shown_append, List.append_assoc]
  · exact ⟨hsame.serverSock.1.trans hserver.1, hsame.serverSock.2.trans hserver.2⟩
  · exact ⟨hsame.broadcasts.1.trans hbroadcasts.1, hsame.broadcasts.2.trans hbroadcasts.2⟩

theorem sweep_nil (fuel : Nat) (fdRead : FdSet) (turns : ClientId → ClientAnswers) (count : Nat)
    (before : List Member) (s : SelectServer σ) :
    sweep handle fuel fdRead turns count before [] s = some { s with clientSockArr := before } := by
  cases count <;> simp [sweep]

/-- The server behind a turn. -/
def behindTurn (s : SelectServer σ) (own : σ) (failed : Bool) (member : Member) : SelectServer σ :=
  if failed then { deleteClient { s with world := own } member with clientChange := true }
  else { s with world := own }

theorem behindTurn_fields (s : SelectServer σ) (own : σ) (failed : Bool) (member : Member) :
    (s.behindTurn own failed member).departed =
        s.departed ++ (if failed then [member.deleted] else []) ∧
      (s.behindTurn own failed member).serverSock = s.serverSock ∧
      (s.behindTurn own failed member).broadcasts = s.broadcasts := by
  cases failed with
  | true => exact ⟨rfl, rfl, rfl⟩
  | false => exact ⟨(List.append_nil _).symm, rfl, rfl⟩

/-- The sweep gives the first client its turn and goes on behind it. -/
theorem sweep_cons (hreply : RepliesOnly handle reply) (hopen : member.client.Open) {fuel : Nat}
    {fdRead : FdSet} {turns : ClientId → ClientAnswers} {count : Nat} {before after : List Member}
    {client : ClientSocket (Sweeping σ)}
    (hturn : ClientSocket.turn (Sweeping.onMsgHandle handle member.pClient) fuel
      (decide (member.client.sock ∈ fdRead)) (turns member.pClient).recv (turns member.pClient).send
      (member.client.lend ⟨s.world, before, after, s.broadcasts, member.pushed⟩) =
        some (failed, client)) :
    sweep handle fuel fdRead turns (count + 1) before (member :: after) s =
      sweep handle fuel fdRead turns count
        (before ++ if failed then [] else [member.resumed client]) after
        (s.behindTurn client.ext.world.own failed (member.resumed client)) := by
  obtain ⟨hbefore, hafter, hbroadcasts⟩ := hreply.turn_frame hopen hturn
  rw [SelectServer.sweep]
  simp only [hturn, hbefore, hafter, hbroadcasts]
  cases failed with
  | true =>
      rw [if_pos rfl, if_pos rfl, List.append_nil]
      rfl
  | false => rfl

/-- The sweep over the clients that both runs have does the same to them. -/
theorem sweep_shown (hreply : RepliesOnly handle reply) {fuel : Nat} {fdRead fdRead' : FdSet}
    {turns turns' : ClientId → ClientAnswers} {count count' : Nat} {before after : List Member}
    (hcount : after.length ≤ count) (hcount' : (shown hidden after).length ≤ count')
    (hopen : ∀ member ∈ after, member.client.Open)
    (halike : AnswersAlike hidden fdRead fdRead' turns turns' after)
    (hsweep : sweep handle fuel fdRead turns count before after s = some next) :
    ∃ next', sweep handle fuel fdRead' turns' count' (shown hidden before) (shown hidden after) s' =
        some next' ∧ SameShown hidden s s' next next' := by
  induction after generalizing before s s' count count' with
  | nil =>
      rw [sweep_nil] at hsweep
      cases hsweep
      refine ⟨_, sweep_nil fuel fdRead' turns' count' _ s', ?_⟩
      exact ⟨rfl, ⟨[], (List.append_nil _).symm, (List.append_nil _).symm⟩, ⟨rfl, rfl⟩, ⟨rfl, rfl⟩⟩
  | cons member after ih =>
      cases count with
      | zero => cases hcount
      | succ count =>
          rw [List.forall_mem_cons] at hopen
          rw [AnswersAlike, List.forall_mem_cons] at halike
          have hlength : after.length ≤ count := Nat.le_of_succ_le_succ hcount
          obtain ⟨failed, client, hturn⟩ : ∃ failed client, ClientSocket.turn
              (Sweeping.onMsgHandle handle member.pClient) fuel
              (decide (member.client.sock ∈ fdRead)) (turns member.pClient).recv
              (turns member.pClient).send
              (member.client.lend ⟨s.world, before, after, s.broadcasts, member.pushed⟩) =
                some (failed, client) := by
            rw [SelectServer.sweep] at hsweep
            simp only at hsweep
            split at hsweep
            next => cases hsweep
            next failed client hturn => exact ⟨failed, client, hturn⟩
          rw [sweep_cons hreply hopen.1 hturn] at hsweep
          obtain ⟨hdeparted, hserver, hbroadcasts⟩ :=
            s.behindTurn_fields client.ext.world.own failed (member.resumed client)
          by_cases hmem : member.pClient ∈ hidden
          · -- the other run does not have this client
            have hkept : shown hidden (if failed then [] else [member.resumed client]) = [] := by
              cases failed with
              | true => rfl
              | false =>
                  exact shown_of_hidden (show (member.resumed client).pClient ∈ _ from hmem) []
            have hgone : shown hidden (if failed then [(member.resumed client).deleted] else []) =
                [] := by
              cases failed with
              | true =>
                  exact shown_of_hidden
                    (show (member.resumed client).deleted.pClient ∈ _ from hmem) []
              | false => rfl
            rw [shown_of_hidden hmem] at hcount' ⊢
            obtain ⟨next', hsweep', hsame⟩ := ih hlength hcount' hopen.2 halike.2 hsweep
            rw [shown_append, hkept, List.append_nil] at hsweep'
            refine ⟨next', hsweep', hsame.behind hdeparted ?_ ⟨hserver, rfl⟩ ⟨hbroadcasts, rfl⟩⟩
            rw [hgone, List.append_nil]
          · -- it has its turn in the other run too
            rw [shown_of_not_hidden hmem] at hcount' ⊢
            obtain ⟨count', rfl⟩ : ∃ n, count' = n + 1 :=
              Nat.exists_eq_succ_of_ne_zero
                (Nat.ne_of_gt (Nat.lt_of_lt_of_le (Nat.succ_pos _) hcount'))
            have hlength' : (shown hidden after).length ≤ count' := Nat.le_of_succ_le_succ hcount'
            obtain ⟨hreadable, hturns⟩ := halike.1 hmem
            have hrecord : (Sweeping.mk s'.world (shown hidden before) (shown hidden after)
                s'.broadcasts member.pushed).pushed =
              (Sweeping.mk s.world before after s.broadcasts member.pushed).pushed := rfl
            obtain ⟨client', hturn', hresumed⟩ := hreply.turn_alike hrecord hturn
            rw [← hturns, ← decide_eq_decide.mpr hreadable] at hturn'
            obtain ⟨hdeparted', hserver', hbroadcasts'⟩ :=
              s'.behindTurn_fields client'.ext.world.own failed (member.resumed client')
            have hkept : shown hidden (if failed then [] else [member.resumed client]) =
                if failed then [] else [member.resumed client'] := by
              rw [hresumed]
              cases failed with
              | true => rfl
              | false =>
                  exact shown_of_not_hidden (show (member.resumed client).pClient ∉ _ from hmem) []
            have hgone : shown hidden (if failed then [(member.resumed client).deleted] else []) =
                if failed then [(member.resumed client').deleted] else [] := by
              rw [hresumed]
              cases failed with
              | true =>
                  exact shown_of_not_hidden
                    (show (member.resumed client).deleted.pClient ∉ _ from hmem) []
              | false => rfl
            obtain ⟨next', hsweep', hsame⟩ := ih hlength hlength' hopen.2 halike.2 hsweep
            rw [shown_append, hkept] at hsweep'
            rw [sweep_cons hreply hopen.1 hturn']
            refine ⟨next', hsweep', hsame.behind hdeparted ?_ ⟨hserver, hserver'⟩
              ⟨hbroadcasts, hbroadcasts'⟩⟩
            rw [hgone]
            exact hdeparted'

/-! ## Two runs -/

/-- `accept` in the two runs: the same client in both, or one that only the first
run has, and that is hidden from then on. -/
inductive Accepts (hidden : List ClientId) :
    Option NewClient → Option NewClient → List ClientId → Prop where
  | both (answer : Option NewClient) : Accepts hidden answer answer hidden
  | first (new : NewClient) : Accepts hidden (some new) none (new.pClient :: hidden)

theorem Accepts.of_some {hidden more : List ClientId} {answer : Option NewClient} {new : NewClient}
    (haccept : Accepts hidden answer (some new) more) : answer = some new := by
  cases haccept with
  | both => rfl

/-- `select` in the two runs: it fails in both, or finds the same readable of what
both have. -/
def Selects (hidden : List ClientId) (s : SelectServer σ)
    (answers answers' : OnRunAnswers) : Prop :=
  match answers.select, answers'.select with
  | none, none => True
  | some fdRead, some fdRead' =>
      (answers'.accept = answers.accept → (s.serverSock ∈ fdRead' ↔ s.serverSock ∈ fdRead)) ∧
        AnswersAlike hidden fdRead fdRead' answers.turns answers'.turns
          (s.joined fdRead answers.accept).clientSockArr
  | _, _ => False

/-- The events of the two runs. -/
inductive Events (hidden : List ClientId) (s : SelectServer σ) :
    Event σ → Event σ → List ClientId → Prop where
  | bind (answer : ListenAnswer) : Events hidden s (.bind answer) (.bind answer) hidden
  | listen (success : Bool) : Events hidden s (.listen success) (.listen success) hidden
  | onRun {answers answers' : OnRunAnswers} {more : List ClientId}
      (haccept : Accepts hidden answers.accept answers'.accept more)
      (hselect : Selects more s answers answers') :
      Events hidden s (.onRun answers) (.onRun answers') more
  | broadcast (msg : Memory Byte) (exclude : ClientId → Bool) :
      Events hidden s (.broadcast msg exclude) (.broadcast msg exclude) hidden
  | close : Events hidden s .close .close hidden
  | elsewhere (world world' : σ) : Events hidden s (.elsewhere world) (.elsewhere world') hidden

/-- The hidden clients that are still there. -/
def stillHidden (hidden : List ClientId) (s : SelectServer σ) : List ClientId :=
  hidden.filter fun id => decide (id ∈ s.clientSockArr.map Member.pClient)

/-- A run, and the run in which some of its clients never join. -/
inductive Apart (handle : ServerHandle σ) :
    List ClientId → SelectServer σ → SelectServer σ → Prop where
  | start (world world' : σ) : Apart handle [] (new world) (new world')
  | next {hidden more : List ClientId} {s s' next next' : SelectServer σ} {event event' : Event σ}
      (hapart : Apart handle hidden s s') (hevents : Events hidden s event event' more)
      (hstep : (machine handle).step s event next)
      (hstep' : (machine handle).step s' event' next') :
      Apart handle (stillHidden more next) next next'

/-- What the two runs have in common: all clients but the hidden ones, with all
that they have received, sent and been offered, and of those deleted all but the
ones that were hidden. -/
structure SeenAlike (hidden : List ClientId) (s s' : SelectServer σ) : Prop where
  listed : s'.clientSockArr = shown hidden s.clientSockArr
  hidden : ∀ id ∈ hidden, id ∈ s.clientSockArr.map Member.pClient
  departed : ∃ record : List (Member × Bool), s.departed = record.map Prod.fst ∧
    s'.departed = (record.filter Prod.snd).map Prod.fst
  serverSock : s'.serverSock = s.serverSock
  broadcasts : s'.broadcasts = s.broadcasts

theorem shown_stillHidden (hidden : List ClientId) (s : SelectServer σ) :
    shown (stillHidden hidden s) s.clientSockArr = shown hidden s.clientSockArr := by
  apply List.filter_congr
  intro member hmember
  have hlisted := List.mem_map_of_mem (f := Member.pClient) hmember
  simp only [stillHidden, List.mem_filter, hlisted, decide_true, and_true]

theorem shown_map {hidden : List ClientId} {f : Member → Member}
    (hname : ∀ member, (f member).pClient = member.pClient) (members : List Member) :
    shown hidden (members.map f) = (shown hidden members).map f := by
  simp only [shown, List.filter_map, Function.comp_def, hname]

theorem SeenAlike.departed_append (halike : SeenAlike hidden s s') (more : List ClientId)
    (gone : List Member) : ∃ record : List (Member × Bool),
      s.departed ++ gone = record.map Prod.fst ∧
        s'.departed ++ shown more gone = (record.filter Prod.snd).map Prod.fst := by
  obtain ⟨record, hrecord, hrecord'⟩ := halike.departed
  refine ⟨record ++ gone.map fun member => (member, decide (member.pClient ∉ more)), ?_, ?_⟩
  · rw [hrecord, List.map_append, List.map_map]
    simp [Function.comp_def]
  · rw [hrecord', List.filter_append, List.map_append, List.filter_map, List.map_map]
    simp [shown, Function.comp_def]

/-- What a call leaves of clients that were listed alike. -/
theorem SameShown.seenAlike {more : List ClientId} (hsame : SameShown more s s' next next')
    (halike : SeenAlike hidden s s') : SeenAlike (stillHidden more next) next next' where
  listed := by rw [shown_stillHidden, hsame.listed]
  hidden id hid := by
    rw [stillHidden, List.mem_filter, decide_eq_true_eq] at hid
    exact hid.2
  departed := by
    obtain ⟨gone, hgone, hgone'⟩ := hsame.gone
    rw [hgone, hgone']
    exact halike.departed_append more gone
  serverSock := by rw [hsame.serverSock.2, hsame.serverSock.1, halike.serverSock]
  broadcasts := by rw [hsame.broadcasts.2, hsame.broadcasts.1, halike.broadcasts]

/-- All hidden clients are still listed. -/
theorem SeenAlike.still (halike : SeenAlike hidden s s') :
    SeenAlike (stillHidden hidden s) s s' := by
  have hall : stillHidden hidden s = hidden :=
    List.filter_eq_self.mpr fun id hid => decide_eq_true (halike.hidden id hid)
  rwa [hall]

theorem SeenAlike.listening (halike : SeenAlike hidden s s') (serverSock : Socket) :
    SeenAlike hidden { s with serverSock } { s' with serverSock } :=
  { halike with serverSock := rfl }

theorem SeenAlike.close (halike : SeenAlike hidden s s') :
    SeenAlike (stillHidden hidden s.close) s.close s'.close := by
  rcases s.close_cases with ⟨hsame, hclosed⟩ | ⟨hopen, closesocket, hclose⟩
  · have hclosed' : s'.close = s' := if_neg (not_not.mpr (halike.serverSock.trans hclosed))
    rw [hsame, hclosed']
    exact halike.still
  · rcases s'.close_cases with ⟨_, hclosed'⟩ | ⟨_, closesocket', hclose'⟩
    · exact absurd (halike.serverSock.symm.trans hclosed') hopen
    · have hgone := halike.departed_append hidden (s.clientSockArr.map Member.deleted)
      have hname : ∀ member : Member, member.deleted.pClient = member.pClient := fun _ => rfl
      rw [shown_map hname, ← halike.listed] at hgone
      rw [hclose, hclose']
      refine ⟨rfl, ?_, hgone, rfl, halike.broadcasts⟩
      intro id hid
      rw [stillHidden, List.mem_filter, decide_eq_true_eq] at hid
      exact hid.2

theorem SeenAlike.broadcast (halike : SeenAlike hidden s s') (msg : Memory Byte)
    (exclude : ClientId → Bool) :
    SeenAlike hidden (s.broadcast msg exclude) (s'.broadcast msg exclude) := by
  by_cases hclosed : s.serverSock = invalidSocket
  · rw [SelectServer.broadcast, SelectServer.broadcast, if_pos hclosed,
      if_pos (halike.serverSock.trans hclosed)]
    exact halike
  · rw [SelectServer.broadcast, SelectServer.broadcast, if_neg hclosed,
      if_neg (halike.serverSock.trans_ne hclosed)]
    have hname : ∀ member : Member,
        (member.broadcast msg exclude s.broadcasts.length).pClient = member.pClient :=
      fun member => congrArg Prod.fst (member.broadcast_key msg exclude _)
    refine ⟨?_, ?_, halike.departed, halike.serverSock, ?_⟩
    · rw [halike.broadcasts, halike.listed, shown_map hname]
    · intro id hid
      rw [List.map_map]
      simpa only [Function.comp_def, hname] using halike.hidden id hid
    · rw [halike.broadcasts]

/-- A name that no client has hides none. -/
theorem Accepts.shown_eq {more : List ClientId} {answer answer' : Option NewClient}
    (haccept : Accepts hidden answer answer' more) {members : List Member}
    (hfresh : ∀ new, answer = some new → ∀ member ∈ members, member.pClient ≠ new.pClient) :
    shown more members = shown hidden members := by
  cases haccept with
  | both => rfl
  | first new =>
      apply List.filter_congr
      intro member hmember
      simp [hfresh new rfl member hmember]

/-- The entry for a client that has just joined. -/
def joining (new : NewClient) : Member :=
  ⟨new.pClient, ClientSocket.new new.sock () new.fresh.sendBuf new.fresh.recvBuf new.fresh.package
    none, []⟩

theorem joined_clients (s : SelectServer σ) (fdRead : FdSet) (answer : Option NewClient) :
    (s.joined fdRead answer).clientSockArr =
      s.clientSockArr ++ if s.serverSock ∈ fdRead then (answer.map joining).toList else [] := by
  obtain ⟨maxSock, fdReadBackup, hrebuild⟩ := s.rebuild_cases
  rw [joined, hrebuild]
  split
  · cases answer with
    | none => exact (List.append_nil _).symm
    | some new => rfl
  · exact (List.append_nil _).symm

/-- The two sweeps start from lists that are alike. -/
theorem SeenAlike.joined (halike : SeenAlike hidden s s') {more : List ClientId}
    {answers answers' : OnRunAnswers} (haccept : Accepts hidden answers.accept answers'.accept more)
    (hpossible : Possible s (.onRun answers)) {fdRead fdRead' : FdSet}
    (hserver : answers'.accept = answers.accept →
      (s.serverSock ∈ fdRead' ↔ s.serverSock ∈ fdRead)) :
    (s'.joined fdRead' answers'.accept).clientSockArr =
      shown more (s.joined fdRead answers.accept).clientSockArr := by
  rw [joined_clients, joined_clients, shown_append, halike.listed, halike.serverSock]
  generalize hfirst : answers.accept = answer at haccept hserver
  generalize hsecond : answers'.accept = answer' at haccept hserver
  -- no client has the name of the one that joins
  have hfresh : ∀ new, answer = some new → ∀ member ∈ s.clientSockArr,
      member.pClient ≠ new.pClient :=
    fun new hnew => (hpossible new (hfirst.trans hnew)).2
  cases haccept with
  | both =>
      simp only [hserver rfl]
      congr 1
      split
      · cases answer with
        | none => rfl
        | some new =>
            have hnot : new.pClient ∉ hidden := by
              intro hmem
              obtain ⟨member, hmember, hname⟩ := List.mem_map.mp (halike.hidden _ hmem)
              exact hfresh new rfl member hmember hname
            exact (shown_of_not_hidden (show (joining new).pClient ∉ hidden from hnot) []).symm
      · rfl
  | first new =>
      have hnone : (if s.serverSock ∈ fdRead' then
          ((none : Option NewClient).map joining).toList else []) = [] := by
        split
        · rfl
        · rfl
      have hhidden : shown (new.pClient :: hidden) (if s.serverSock ∈ fdRead then
          ((some new).map joining).toList else []) = [] := by
        split
        · exact shown_of_hidden (show (joining new).pClient ∈ _ from List.mem_cons_self) []
        · rfl
      rw [hnone, hhidden, List.append_nil, List.append_nil]
      exact ((Accepts.first new).shown_eq hfresh).symm

theorem joined_fields (s : SelectServer σ) (fdRead : FdSet) (answer : Option NewClient) :
    (s.joined fdRead answer).departed = s.departed ∧
      (s.joined fdRead answer).serverSock = s.serverSock ∧
      (s.joined fdRead answer).broadcasts = s.broadcasts := by
  obtain ⟨maxSock, fdReadBackup, hrebuild⟩ := s.rebuild_cases
  rw [joined, hrebuild]
  split
  · cases answer with
    | none => exact ⟨rfl, rfl, rfl⟩
    | some new => exact ⟨rfl, rfl, rfl⟩
  · exact ⟨rfl, rfl, rfl⟩

/-- A call of `OnRun` in both runs. -/
theorem SeenAlike.onRun (hreply : RepliesOnly handle reply) (halike : SeenAlike hidden s s')
    (hinv : s.Inv) {more : List ClientId} {answers answers' : OnRunAnswers}
    (haccept : Accepts hidden answers.accept answers'.accept more)
    (hselect : Selects more s answers answers') (hpossible : Possible s (.onRun answers))
    {fuel : Nat} {value : Int} (hrun : onRun handle fuel answers s = some (value, next)) :
    ∃ next', onRun handle fuel answers' s' = some (value, next') ∧
      SeenAlike (stillHidden more next) next next' := by
  obtain ⟨maxSock, fdReadBackup, hrebuild⟩ := s.rebuild_cases
  obtain ⟨maxSock', fdReadBackup', hrebuild'⟩ := s'.rebuild_cases
  have hshown := haccept.shown_eq fun new hnew => (hpossible new hnew).2
  by_cases hclosed : s.serverSock = invalidSocket
  · have hsame : SameShown more s s' s s' := ⟨halike.listed.trans hshown.symm,
      ⟨[], (List.append_nil _).symm, (List.append_nil _).symm⟩, ⟨rfl, rfl⟩, ⟨rfl, rfl⟩⟩
    rw [SelectServer.onRun, if_pos hclosed] at hrun
    cases hrun
    exact ⟨s', if_pos (halike.serverSock.trans hclosed), hsame.seenAlike halike⟩
  · have hopen' : s'.serverSock ≠ invalidSocket := halike.serverSock.trans_ne hclosed
    rw [onRun_of_open hclosed] at hrun
    rw [onRun_of_open hopen']
    cases hfirst : answers.select with
    | none =>
        cases hsecond : answers'.select with
        | some fdRead' => simp only [Selects, hfirst, hsecond] at hselect
        | none =>
            rw [hfirst] at hrun
            cases hrun
            have hmade : SeenAlike hidden s.rebuild s'.rebuild := by
              rw [hrebuild, hrebuild']
              exact { halike with }
            -- all clients are gone, so none is hidden any more
            have hnone : s.rebuild.close.clientSockArr = [] := by
              rcases s.rebuild.close_cases with ⟨_, hsock⟩ | ⟨_, closesocket, hclose⟩
              · rw [hrebuild] at hsock
                exact absurd hsock hclosed
              · rw [hclose]
            have hstill : stillHidden more s.rebuild.close =
                stillHidden hidden s.rebuild.close := by
              simp [stillHidden, hnone]
            exact ⟨s'.rebuild.close, rfl, hstill ▸ hmade.close⟩
    | some fdRead =>
        cases hsecond : answers'.select with
        | none => simp only [Selects, hfirst, hsecond] at hselect
        | some fdRead' =>
            simp only [Selects, hfirst, hsecond] at hselect
            rw [hfirst] at hrun
            obtain ⟨last, hsweep, hlast⟩ := Option.map_eq_some_iff.mp hrun
            cases hlast
            have hjoined := halike.joined haccept hpossible hselect.1
            have hopen : ∀ member ∈ (s.joined fdRead answers.accept).clientSockArr,
                member.client.Open :=
              fun member hmember => ((hinv.joined hpossible fdRead).served member hmember).client
            have hanswers : AnswersAlike more (fdRead.erase s.serverSock)
                (fdRead'.erase s'.serverSock) answers.turns answers'.turns
                (s.joined fdRead answers.accept).clientSockArr := by
              intro member hmember hnot
              obtain ⟨hreadable, hturns⟩ := hselect.2 member hmember hnot
              rw [halike.serverSock, Finset.mem_erase, Finset.mem_erase, hreadable]
              exact ⟨Iff.rfl, hturns⟩
            obtain ⟨next', hsweep', hsame⟩ : ∃ next', sweep handle fuel
                (fdRead'.erase s'.serverSock) answers'.turns
                (s'.joined fdRead' answers'.accept).clientSockArr.length []
                (shown more (s.joined fdRead answers.accept).clientSockArr)
                (s'.joined fdRead' answers'.accept) = some next' ∧
                  SameShown more (s.joined fdRead answers.accept)
                    (s'.joined fdRead' answers'.accept) next next' :=
              sweep_shown hreply (Nat.le_refl _) (Nat.le_of_eq (congrArg List.length hjoined.symm))
                hopen hanswers hsweep
            rw [← hjoined] at hsweep'
            obtain ⟨hdeparted, hserver, hbroadcasts⟩ := s.joined_fields fdRead answers.accept
            obtain ⟨hdeparted', hserver', hbroadcasts'⟩ :=
              s'.joined_fields fdRead' answers'.accept
            refine ⟨next', Option.map_eq_some_iff.mpr ⟨next', hsweep', rfl⟩, ?_⟩
            refine SameShown.seenAlike (hsame.behind (hdeparted.trans (List.append_nil _).symm)
              (hdeparted'.trans (List.append_nil _).symm) ⟨hserver, hserver'⟩
              ⟨hbroadcasts, hbroadcasts'⟩) halike

theorem step_unique {event : Event σ} {last : SelectServer σ}
    (hstep : (machine handle).step s event next) (hstep' : (machine handle).step s event last) :
    next = last := by
  obtain ⟨_, hmoves⟩ := hstep
  obtain ⟨_, hmoves'⟩ := hstep'
  cases event with
  | onRun answers =>
      obtain ⟨_, _, hrun⟩ := hmoves
      obtain ⟨_, _, hrun'⟩ := hmoves'
      exact onRun_unique hrun hrun'
  | bind answer => exact Eq.trans hmoves (Eq.symm hmoves')
  | listen success => exact Eq.trans hmoves (Eq.symm hmoves')
  | broadcast msg exclude => exact Eq.trans hmoves (Eq.symm hmoves')
  | close => exact Eq.trans hmoves (Eq.symm hmoves')
  | elsewhere world => exact Eq.trans hmoves (Eq.symm hmoves')

/-- The second run can follow each step of the first, and then it is as the first
one for all clients that are not hidden. -/
theorem SeenAlike.step (hreply : RepliesOnly handle reply) (halike : SeenAlike hidden s s')
    (hinv : s.Inv) {more : List ClientId} {event event' : Event σ}
    (hevents : Events hidden s event event' more) (hstep : (machine handle).step s event next) :
    ∃ next', (machine handle).step s' event' next' ∧
      SeenAlike (stillHidden more next) next next' := by
  obtain ⟨hpossible, hmoves⟩ := hstep
  cases hevents with
  | bind answer =>
      cases hmoves
      cases answer with
      | noSocket => exact ⟨_, ⟨trivial, rfl⟩, (halike.listening invalidSocket).still⟩
      | refused sock => exact ⟨_, ⟨hpossible, rfl⟩, (halike.listening sock).close⟩
      | bound sock => exact ⟨_, ⟨hpossible, rfl⟩, (halike.listening sock).still⟩
  | listen success =>
      cases hmoves
      cases success with
      | true => exact ⟨_, ⟨trivial, rfl⟩, halike.still⟩
      | false => exact ⟨_, ⟨trivial, rfl⟩, halike.close⟩
  | @onRun answers answers' more haccept hselect =>
      obtain ⟨fuel, value, hrun⟩ := hmoves
      -- a name that nobody has is one that nobody shown has
      have hpossible' : Possible s' (.onRun answers') := by
        intro new hnew
        obtain ⟨hsock, hfresh⟩ := hpossible new (hnew ▸ haccept).of_some
        refine ⟨hsock, fun member hmember => hfresh member ?_⟩
        rw [halike.listed] at hmember
        exact (mem_shown.mp hmember).1
      obtain ⟨next', hrun', hnext⟩ := halike.onRun hreply hinv haccept hselect hpossible hrun
      exact ⟨next', ⟨hpossible', fuel, value, hrun'⟩, hnext⟩
  | broadcast msg exclude =>
      cases hmoves
      exact ⟨_, ⟨trivial, rfl⟩, (halike.broadcast msg exclude).still⟩
  | close =>
      cases hmoves
      exact ⟨_, ⟨trivial, rfl⟩, halike.close⟩
  | elsewhere world world' =>
      cases hmoves
      have hnext : SeenAlike hidden { s with world } { s' with world := world' } := { halike with }
      exact ⟨_, ⟨trivial, rfl⟩, hnext.still⟩

theorem Apart.seenAlike (hreply : RepliesOnly handle reply) (hapart : Apart handle hidden s s') :
    (machine handle).Reachable s ∧ SeenAlike hidden s s' := by
  induction hapart with
  | start world world' =>
      refine ⟨.start ⟨world, rfl⟩, rfl, ?_, ⟨[], rfl, rfl⟩, rfl, rfl⟩
      exact fun id hid => absurd hid List.not_mem_nil
  | next _ hevents hstep hstep' ih =>
      obtain ⟨hreach, halike⟩ := ih
      obtain ⟨next', hfollow, hnext⟩ :=
        halike.step hreply (inv_of_reachable hreach) hevents hstep
      cases step_unique hfollow hstep'
      exact ⟨hreach.next hstep, hnext⟩

section Two

end Two

end SelectServer

end SelectNet
