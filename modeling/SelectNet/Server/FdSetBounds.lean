import SelectNet.Server.Adoption
import SelectNet.Server.FdSetCalls
import SelectNet.Server.Isolation

/-!
# FD_SET and the size of the sets

Nothing in the servers compares a descriptor or a number of clients with
`FD_SETSIZE`. What is put into the sets fits as long as the system gives out only
descriptors that have a bit, and on Windows as long as clients are few enough.
-/

namespace SelectNet

/-! ## Sending -/

namespace Endpoint

variable {ρ : Type} {close : Endpoint ρ → Endpoint ρ} {limit : Nat} {answers : Nat → SendAnswer}
  {s t : Endpoint ρ}

/-- What `SendToKernelBuf` is called on is what the call began with, but for what is
on its way out. -/
theorem Attempts.kept (hinv : s.SendInv) (hattempt : Attempts close limit answers s t) :
    Kept s t := by
  have hvisited : ∀ state, Loop.Visits (sendPass close limit answers) (s, 0) state →
      Kept s state.1 := by
    intro state hvisits
    have hstart : Kept s ((s, 0) : Endpoint ρ × Nat).1 := hinv.kept
    exact Kept.visits close limit answers hstart hvisits
  cases hattempt with
  | full hvisits _ => exact hvisited _ hvisits
  | rest hdrained _ =>
      obtain ⟨⟨u, calls⟩, hvisits, hlast⟩ := hdrained.visits
      have hkept : Kept s u := hvisited _ hvisits
      rcases sendPass_spec close limit answers hkept.inv calls with
        ⟨value, v, hleave, _⟩ | ⟨v, n, hleave, hnext⟩ | ⟨v, n, hgoes, _⟩
      · cases hleave.symm.trans hlast
      · cases hleave.symm.trans hlast
        exact hkept.trans hnext
      · cases hgoes.symm.trans hlast

end Endpoint

theorem ClientSocket.Attempts.sock {ω : Type} {handle : MsgHandle ω} {fuel : Nat} {readable : Bool}
    {answer : RecvAnswer} {answers : Nat → SendAnswer} {s t : ClientSocket ω} (hinv : Inv s)
    (hopen : s.sock ≠ invalidSocket)
    (hattempt : ClientSocket.Attempts handle fuel readable answer answers s t) :
    t.sock = s.sock := by
  obtain ⟨middle, hrecv, _, hsend⟩ := hattempt
  obtain ⟨hmiddle, hsettles⟩ := recvFails_spec hinv hopen hrecv
  cases hsettles with
  | kept hsock _ => exact (hsend.kept hmiddle.send).same.sock.trans hsock

/-! ## The loop over the clients -/

namespace Client

variable {clients : List Client} {set : FdSet} {call : FdSetCall}

/-- The loop calls `FD_SET` for the clients. -/
theorem map_fdSetCalls (clients : List Client) (set : FdSet) :
    (fdSetCalls clients set).map FdSetCall.sock = clients.map Endpoint.sock := by
  induction clients generalizing set with
  | nil => rfl
  | cons client clients ih => rw [fdSetCalls, List.map_cons, List.map_cons, ih]

/-- A call finds what the set held before and the clients in front. -/
theorem card_lt_of_mem_fdSetCalls (hcall : call ∈ fdSetCalls clients set) :
    call.set.card < set.card + clients.length := by
  induction clients generalizing set with
  | nil => exact absurd hcall List.not_mem_nil
  | cons client clients ih =>
      rw [List.length_cons]
      rcases List.mem_cons.mp hcall with rfl | hlater
      · exact Nat.lt_add_of_pos_right (Nat.succ_pos _)
      · have hrest := ih hlater
        have hgrown := Finset.card_insert_le client.sock set
        omega

end Client

/-! ## SelectServer -/

namespace SelectServer

variable {σ : Type} {handle : ServerHandle σ} {s next start : SelectServer σ} {platform : Platform}
  {event : Event σ} {call : FdSetCall}

/-- The client that a call of `OnRun` accepts. -/
def accepts (s : SelectServer σ) (answers : OnRunAnswers) : Option NewClient :=
  if s.serverSock = invalidSocket then none
  else answers.select.bind fun fdRead => if s.serverSock ∈ fdRead then answers.accept else none

/-- On Unix the descriptors from `socket` and `accept` have a bit. On Windows a client
is accepted only while there is room for it beside the listening socket. -/
def Meets (platform : Platform) (s : SelectServer σ) (event : Event σ) : Prop :=
  match platform, event with
  | .unix fdSetSize, .bind (.bound sock) => sock < fdSetSize
  | .unix fdSetSize, .onRun answers => ∀ new, s.accepts answers = some new → new.sock < fdSetSize
  | .windows, .onRun answers =>
      s.accepts answers ≠ none → s.clientSockArr.length + 1 < windowsFdSetSize
  | _, _ => True

/-- What the sets are made of fits. -/
def Admitted (s : SelectServer σ) : Platform → Prop
  | .unix fdSetSize => (s.serverSock ≠ invalidSocket → HasBit fdSetSize s.serverSock) ∧
      ∀ member ∈ s.clientSockArr, HasBit fdSetSize member.client.sock
  | .windows => s.clientSockArr.length < windowsFdSetSize

/-- A server with fewer clients, and the listening socket as it is or closed. -/
theorem Admitted.of_keys (hadmitted : s.Admitted platform)
    (hkeys : (next.clientSockArr.map Member.key).Sublist (s.clientSockArr.map Member.key))
    (hsock : next.serverSock = s.serverSock ∨ next.serverSock = invalidSocket) :
    next.Admitted platform := by
  cases platform with
  | unix fdSetSize =>
      refine ⟨fun hopen => ?_, fun member hmember => ?_⟩
      · have hsame := hsock.resolve_right hopen
        rw [hsame] at hopen ⊢
        exact hadmitted.1 hopen
      · obtain ⟨other, hother, hkey⟩ := List.mem_map.mp (hkeys.subset (List.mem_map_of_mem hmember))
        have hsame : other.client.sock = member.client.sock := congrArg Prod.snd hkey
        exact hsame ▸ hadmitted.2 other hother
  | windows =>
      have hless := hkeys.length_le
      rw [List.length_map, List.length_map] at hless
      exact Nat.lt_of_le_of_lt hless hadmitted

/-- `Close`, whatever the listening socket is by then. -/
theorem Admitted.close (hadmitted : s.Admitted platform) (serverSock : Socket) :
    (SelectServer.close { s with serverSock }).Admitted platform := by
  rcases close_cases { s with serverSock } with ⟨hsame, hclosed⟩ | ⟨_, closesocket, hclose⟩
  · rw [hsame]
    exact hadmitted.of_keys (List.Sublist.refl _) (.inr hclosed)
  · rw [hclose]
    exact hadmitted.of_keys (List.nil_sublist _) (.inr rfl)

theorem joined_serverSock (s : SelectServer σ) (fdRead : FdSet) (answer : Option NewClient) :
    (s.joined fdRead answer).serverSock = s.serverSock := by
  obtain ⟨maxSock, fdReadBackup, hrebuild⟩ := s.rebuild_cases
  rw [joined, hrebuild]
  split
  · cases answer with
    | none => rfl
    | some new => rfl
  · rfl

/-- What is swept over, with the client that was accepted. -/
theorem Admitted.joined (hadmitted : s.Admitted platform) (hopen : s.serverSock ≠ invalidSocket)
    {answers : OnRunAnswers} {fdRead : FdSet} (hselect : answers.select = some fdRead)
    (hpossible : Possible s (.onRun answers)) (hmeets : s.Meets platform (.onRun answers)) :
    (s.joined fdRead answers.accept).Admitted platform := by
  have haccepts : s.accepts answers = if s.serverSock ∈ fdRead then answers.accept else none := by
    rw [accepts, if_neg hopen, hselect, Option.bind_some]
  have hclients := joined_clients s fdRead answers.accept
  have hjoin : (if s.serverSock ∈ fdRead then (answers.accept.map joining).toList else []) =
      ((s.accepts answers).map joining).toList := by
    rw [haccepts]
    split
    · rfl
    · rfl
  rw [hjoin] at hclients
  cases platform with
  | unix fdSetSize =>
      refine ⟨fun _ => ?_, fun member hmember => ?_⟩
      · rw [joined_serverSock]
        exact hadmitted.1 hopen
      · rw [hclients, List.mem_append, Option.mem_toList,
          Option.map_eq_some_iff] at hmember
        rcases hmember with hold | ⟨new, hnew, rfl⟩
        · exact hadmitted.2 member hold
        · have hmade : answers.accept = some new := by
            rw [haccepts] at hnew
            exact (Option.ite_none_right_eq_some.mp hnew).2
          exact ⟨(hpossible new hmade).1, hmeets new hnew⟩
  | windows =>
      rw [Admitted, hclients, List.length_append]
      cases hnew : s.accepts answers with
      | none => exact hadmitted
      | some new => exact hmeets (by rw [hnew]; exact Option.some_ne_none new)

theorem Admitted.moves (hinv : Inv s) (hadmitted : s.Admitted platform)
    (hpossible : Possible s event) (hmeets : s.Meets platform event)
    (hmoves : Moves handle s event next) : next.Admitted platform := by
  have hlistening : ∀ sock, (sock ≠ invalidSocket → ∀ fdSetSize, platform = .unix fdSetSize →
      HasBit fdSetSize sock) → Admitted { s with serverSock := sock } platform := by
    intro sock hbit
    cases platform with
    | unix fdSetSize => exact ⟨fun hsock => hbit hsock fdSetSize rfl, hadmitted.2⟩
    | windows => exact hadmitted
  cases event with
  | bind answer =>
      cases hmoves
      cases answer with
      | noSocket => exact hlistening invalidSocket fun hsock => absurd rfl hsock
      | refused sock => exact hadmitted.close sock
      | bound sock =>
          refine hlistening sock fun _ fdSetSize hunix => ⟨hpossible, ?_⟩
          subst hunix
          exact hmeets
  | listen success =>
      cases hmoves
      cases success with
      | true => exact hadmitted
      | false => exact hadmitted.close s.serverSock
  | onRun answers =>
      obtain ⟨fuel, value, hrun⟩ := hmoves
      rcases onRun_cases hrun with ⟨_, rfl⟩ | ⟨_, _, rfl⟩ | ⟨hopen, fdRead, hselect, hsweep⟩
      · exact hadmitted
      · obtain ⟨maxSock, fdReadBackup, hrebuild⟩ := s.rebuild_cases
        rw [hrebuild]
        have hrebuilt : Admitted { s with maxSock, fdReadBackup, clientChange := false } platform :=
          hadmitted.of_keys (List.Sublist.refl _) (.inl rfl)
        exact hrebuilt.close s.serverSock
      · have hjoined := hadmitted.joined hopen hselect hpossible hmeets
        obtain ⟨clientSockArr, last, hsweeps, rfl⟩ :=
          (hinv.joined hpossible fdRead).sweeps.sweep (Nat.le_refl _) hsweep
        refine hjoined.of_keys ?_ (.inl hsweeps.serverSock)
        simpa using hsweeps.keys
  | broadcast msg exclude =>
      cases hmoves
      refine hadmitted.of_keys ?_ (.inl ?_)
      · unfold SelectServer.broadcast
        split
        · exact List.Sublist.refl _
        · rw [Member.map_broadcast_key]
      · unfold SelectServer.broadcast
        split
        · rfl
        · rfl
  | close =>
      cases hmoves
      exact hadmitted.close s.serverSock
  | elsewhere world =>
      cases hmoves
      exact hadmitted.of_keys (List.Sublist.refl _) (.inl rfl)

/-- A client that a sweep comes to is open, and was there when the sweep began. -/
theorem Sweeps.sweepTurn {before after : List Member} (hsweeps : Sweeps start before after s)
    {fuel : Nat} {fdRead : FdSet} {turns : ClientId → ClientAnswers} {member : Member}
    {world : Sweeping σ}
    (hturn : SweepTurn handle fuel fdRead turns before after s member world) :
    member.client.Open ∧ ∃ other ∈ start.clientSockArr, other.client.sock = member.client.sock := by
  induction hturn with
  | @now before after member s =>
      refine ⟨(hsweeps.waiting member List.mem_cons_self).client, ?_⟩
      have hmem : member.key ∈ (before ++ member :: after).map Member.key :=
        List.mem_map_of_mem (List.mem_append_right before List.mem_cons_self)
      obtain ⟨other, hother, hkey⟩ := List.mem_map.mp (hsweeps.keys.subset hmem)
      exact ⟨other, hother, congrArg Prod.snd hkey⟩
  | @later before after member other s failed client world hturn _ ih =>
      have hwaiting := hsweeps.waiting
      rw [List.forall_mem_cons] at hwaiting
      have hstart : Sweeping.Serves s.broadcasts (before.map Member.key) (after.map Member.key)
          ⟨s.world, before, after, s.broadcasts, member.pushed⟩ :=
        ⟨List.prefix_rfl, hsweeps.done, hwaiting.2, rfl, rfl, hwaiting.1.recorded⟩
      obtain ⟨hserves, hkept, hfailed⟩ := hwaiting.1.turn hstart rfl hturn
      cases failed with
      | false => exact ih (hsweeps.goOn hserves (hkept rfl))
      | true => exact ih (hsweeps.delete hserves (hfailed rfl))

/-- On Unix the set can be made anew just when everything in it has a bit. -/
theorem rebuildCalls_fit_unix (hchange : s.clientChange = true) (fdSetSize : Nat) :
    (∀ call ∈ s.rebuildCalls, call.Fits (.unix fdSetSize)) ↔
      HasBit fdSetSize s.serverSock ∧
        ∀ member ∈ s.clientSockArr, HasBit fdSetSize member.client.sock := by
  have hsocks := Client.map_fdSetCalls (s.clientSockArr.map Member.client) {s.serverSock}
  rw [rebuildCalls, if_pos hchange, List.forall_mem_cons]
  refine and_congr_right fun _ => ?_
  have hcalls : (∀ call ∈ Client.fdSetCalls (s.clientSockArr.map Member.client) {s.serverSock},
      call.Fits (.unix fdSetSize)) ↔
      ∀ sock ∈ (s.clientSockArr.map Member.client).map Endpoint.sock, HasBit fdSetSize sock := by
    rw [← hsocks, List.forall_mem_map]
    rfl
  rw [hcalls, List.forall_mem_map, List.forall_mem_map]

theorem Admitted.rebuildCalls_fit (hadmitted : s.Admitted platform)
    (hopen : s.serverSock ≠ invalidSocket) (hcall : call ∈ s.rebuildCalls) :
    call.Fits platform := by
  by_cases hchange : s.clientChange = true
  · cases platform with
    | unix fdSetSize =>
        exact (rebuildCalls_fit_unix hchange fdSetSize).mpr
          ⟨hadmitted.1 hopen, hadmitted.2⟩ call hcall
    | windows =>
        rw [rebuildCalls, if_pos hchange] at hcall
        rcases List.mem_cons.mp hcall with rfl | hcall
        · exact Nat.succ_pos _
        · have hless := Client.card_lt_of_mem_fdSetCalls hcall
          rw [Finset.card_singleton, List.length_map] at hless
          have hroom : s.clientSockArr.length < windowsFdSetSize := hadmitted
          exact Nat.lt_of_lt_of_le hless (by omega)
  · rw [rebuildCalls, if_neg hchange] at hcall
    exact absurd hcall List.not_mem_nil

theorem Admitted.call_fits (hinv : Inv s) (hadmitted : s.Admitted platform) {fuel : Nat}
    (hpossible : Possible s event) (hmeets : s.Meets platform event)
    (hcall : s.FdSets handle fuel event call) : call.Fits platform := by
  cases hcall with
  | rebuild hopen hcall => exact hadmitted.rebuildCalls_fit hopen hcall
  | @send answers fdRead member world t hopen hselect hturn hattempt =>
      have hjoined := hadmitted.joined hopen hselect hpossible hmeets
      obtain ⟨hclient, other, hother, hsame⟩ :=
        (hinv.joined hpossible fdRead).sweeps.sweepTurn hturn
      have hsock := hattempt.sock (Client.lend_inv hclient.inv world) hclient.sock
      cases platform with
      | unix fdSetSize =>
          have hbit := hjoined.2 other hother
          rw [hsame] at hbit
          exact hsock ▸ hbit
      | windows => exact Nat.succ_pos _

end SelectServer

/-! ## A handler -/

namespace SelectClientHandle

variable {ω : Type} {handle : MsgHandle ω} {h next : SelectClientHandle} {platform : Platform}
  {label : HandleLabel ω} {queue queue' : SafeQueue QMClientState} {fuel : Nat} {call : FdSetCall}

/-- On Windows a drain leaves no more clients than a set has room for. -/
def Meets (platform : Platform) (h : SelectClientHandle) (queue : SafeQueue QMClientState)
    (label : HandleLabel ω) : Prop :=
  match platform, label with
  | .windows, .drain _ => h.clientSockArr.length + queue.queue.nodes.length ≤ windowsFdSetSize
  | _, _ => True

/-- The clients fit into the set, as do those that wait. -/
def Admitted (h : SelectClientHandle) : Platform → Prop
  | .unix fdSetSize => ∀ sock ∈ h.adopted, HasBit fdSetSize sock
  | .windows => h.clientSockArr.length ≤ windowsFdSetSize

/-- The entries of a queue that have a bit. -/
def QueueAdmitted (queue : SafeQueue QMClientState) : Platform → Prop
  | .unix fdSetSize => ∀ entry ∈ queue.queue.nodes, HasBit fdSetSize entry.clientSock
  | .windows => True

/-- A step adopts only what its queue holds, and all of it at a drain. -/
theorem Holds.length_le {pushed : List Socket} (hholds : h.Holds queue pushed)
    (hstep : h.step handle fuel label queue = some (next, queue')) :
    next.clientSockArr.length + queue'.queue.nodes.length ≤
      h.clientSockArr.length + queue.queue.nodes.length := by
  obtain ⟨hnext, hsteps⟩ := hholds.step hstep
  have horder := congrArg List.length (hholds.order.symm.trans hnext.order)
  have hplaced := hholds.serving.placed.length_eq
  have hplaced' := hnext.serving.placed.length_eq
  have hclosed := hsteps.closed.length_le
  simp only [List.length_append, List.length_map] at horder hplaced hplaced'
  omega

theorem Admitted.step {pushed : List Socket} (hholds : h.Holds queue pushed)
    (hadmitted : h.Admitted platform) (hqueue : QueueAdmitted queue platform)
    (hmeets : h.Meets platform queue label)
    (hstep : h.step handle fuel label queue = some (next, queue')) :
    next.Admitted platform ∧ QueueAdmitted queue' platform := by
  cases platform with
  | unix fdSetSize =>
      have horder := hholds.order.symm.trans (hholds.step hstep).1.order
      have hbits : ∀ sock ∈ h.adopted ++ queue.queue.nodes.map QMClientState.clientSock,
          HasBit fdSetSize sock := by
        intro sock hsock
        rcases List.mem_append.mp hsock with hold | hnew
        · exact hadmitted sock hold
        · obtain ⟨entry, hentry, rfl⟩ := List.mem_map.mp hnew
          exact hqueue entry hentry
      rw [horder] at hbits
      exact ⟨fun sock hsock => hbits sock (List.mem_append_left _ hsock),
        fun entry hentry => hbits _ (List.mem_append_right _ (List.mem_map_of_mem hentry))⟩
  | windows =>
      have hless := hholds.length_le hstep
      refine ⟨?_, trivial⟩
      have hfits : h.clientSockArr.length ≤ windowsFdSetSize := hadmitted
      rcases step_cases hstep with ⟨_, _, rfl, _⟩ | ⟨fresh, _, rfl, _⟩ | ⟨_, _, _, _, _, _, rfl⟩
      · exact Nat.le_trans (Nat.le_of_add_le_add_right hless) hfits
      · exact Nat.le_trans (Nat.le_of_add_right_le hless) hmeets
      · exact Nat.le_trans (Nat.le_of_add_le_add_right hless) hfits

/-- A client that a sweep comes to is one of those it began with. -/
theorem SweepTurn.mem {fdRead : FdSet} {turns : Nat → ClientTurn ω} {rest : List Client}
    {count : Nat} {client : Client} {turn : ClientTurn ω}
    (hturn : SweepTurn handle fuel fdRead turns rest count h client turn next) : client ∈ rest := by
  induction hturn with
  | now => exact List.mem_cons_self
  | later _ _ ih => exact List.mem_cons_of_mem _ ih

theorem Admitted.call_fits (hserving : h.Serving h.clientSockArr) (hadmitted : h.Admitted platform)
    (hcall : h.FdSets handle fuel label call) : call.Fits platform := by
  have hbit : ∀ fdSetSize, platform = .unix fdSetSize → ∀ client ∈ h.clientSockArr,
      HasBit fdSetSize client.sock := by
    rintro fdSetSize rfl client hclient
    exact hadmitted _ (hserving.listed.subset (List.mem_map_of_mem hclient))
  cases hcall with
  | rebuild _ hcall =>
      unfold rebuildCalls at hcall
      split at hcall
      next =>
        cases platform with
        | unix fdSetSize =>
            have hmem : call.sock ∈ h.clientSockArr.map Endpoint.sock := by
              rw [← Client.map_fdSetCalls h.clientSockArr ∅]
              exact List.mem_map_of_mem hcall
            obtain ⟨client, hclient, hsock⟩ := List.mem_map.mp hmem
            have hfits := hbit fdSetSize rfl client hclient
            rwa [hsock] at hfits
        | windows =>
            have hless := Client.card_lt_of_mem_fdSetCalls hcall
            rw [Finset.card_empty, Nat.zero_add] at hless
            exact Nat.lt_of_lt_of_le hless hadmitted
      next => exact absurd hcall List.not_mem_nil
  | @send readable turns client turn h' t _ hturn hattempt =>
      have hmem := hturn.mem
      obtain ⟨fdReadBackup, maxSock, hasChangeClient, hrebuild⟩ := h.rebuild_cases
      rw [hrebuild] at hmem
      have hopen := hserving.clients client hmem
      have hsock := hattempt.sock (Client.enter_inv hopen.inv turn.world h'.test) hopen.sock
      cases platform with
      | unix fdSetSize => exact hsock ▸ hbit fdSetSize rfl client hmem
      | windows => exact Nat.succ_pos _

end SelectClientHandle

/-! ## SelectServer_Thread -/

namespace SelectServerThread

variable {ω : Type} {handle : MsgHandle ω} {s next : SelectServerThread} {platform : Platform}
  {label : ServerLabel ω} {call : FdSetCall}

/-- On Unix the descriptors from `socket` and `accept` have a bit. On Windows the
handlers drain only as many clients as a set has room for. -/
def Meets (platform : Platform) (s : SelectServerThread) (label : ServerLabel ω) : Prop :=
  match platform, label with
  | .unix fdSetSize, .bind (.bound sock) => HasBit fdSetSize sock
  | .unix fdSetSize, .onRun (.client clientSock _) =>
      s.serverSock ≠ invalidSocket → clientSock ≠ invalidSocket → HasBit fdSetSize clientSock
  | .windows, .handle position label => ∀ h queue, s.clientHandleArr[position]? = some h →
      s.queue h.clientStateQueue = some queue → h.Meets .windows queue label
  | _, _ => True

/-- What the sets are made of fits. -/
structure Admitted (s : SelectServerThread) (platform : Platform) : Prop where
  listening : ∀ fdSetSize, platform = .unix fdSetSize → s.serverSock ≠ invalidSocket →
    HasBit fdSetSize s.serverSock
  queues : ∀ id queue, s.queue id = some queue → SelectClientHandle.QueueAdmitted queue platform
  handles : ∀ h ∈ s.clientHandleArr, h.Admitted platform

theorem new_admitted (platform : Platform) : new.Admitted platform where
  listening _ _ hopen := absurd rfl hopen
  queues := by simp [new, SelectServerThread.queue]
  handles := by simp [new]

theorem Admitted.closeStart (hadmitted : s.Admitted platform) (serverSock : Socket) :
    (SelectServerThread.closeStart { s with serverSock }).Admitted platform := by
  unfold SelectServerThread.closeStart
  split
  next => exact ⟨fun _ _ hopen => absurd rfl hopen, hadmitted.queues, hadmitted.handles⟩
  next hclosed => exact ⟨fun _ _ hopen => absurd hopen hclosed, hadmitted.queues, hadmitted.handles⟩

theorem Admitted.bind (hadmitted : s.Admitted platform) {answer : BindAnswer}
    (hmeets : s.Meets platform (.bind answer : ServerLabel ω)) :
    (SelectServerThread.bind answer s).Admitted platform := by
  cases answer with
  | noSocket => exact ⟨fun _ _ hopen => absurd rfl hopen, hadmitted.queues, hadmitted.handles⟩
  | refused sock => exact hadmitted.closeStart sock
  | bound sock =>
      refine ⟨?_, hadmitted.queues, hadmitted.handles⟩
      rintro fdSetSize rfl _
      exact hmeets

theorem new_handle_admitted (handleID id : Nat) :
    (SelectClientHandle.new handleID id).Admitted platform := by
  cases platform with
  | unix fdSetSize => exact fun sock hsock => absurd hsock List.not_mem_nil
  | windows => exact Nat.zero_le _

theorem new_queue_admitted : SelectClientHandle.QueueAdmitted .new platform := by
  cases platform with
  | unix fdSetSize => exact fun entry hentry => absurd hentry List.not_mem_nil
  | windows => trivial

theorem Admitted.initHandle (hadmitted : s.Admitted platform) (i : Nat) :
    (SelectServerThread.initHandle s i).Admitted platform := by
  refine ⟨hadmitted.listening, fun id queue hqueue => ?_, fun h hmem => ?_⟩
  · have hat : ((s.queues ++ [some SafeQueue.new])[id]?).join = some queue := hqueue
    rw [List.getElem?_append] at hat
    split at hat
    next => exact hadmitted.queues id queue hat
    next =>
      obtain ⟨hlt, hlast⟩ := List.getElem?_eq_some_iff.mp (Option.join_eq_some_iff.mp hat)
      have hnew := List.mem_singleton.mp (hlast ▸ List.getElem_mem hlt)
      cases hnew
      exact new_queue_admitted
  · rcases List.mem_append.mp hmem with hold | hnew
    · exact hadmitted.handles h hold
    · rw [List.mem_singleton.mp hnew]
      exact new_handle_admitted _ _

theorem Admitted.initServer (hadmitted : s.Admitted platform) (threadNum : Int) :
    (initServer threadNum s).2.Admitted platform := by
  have hstart : Admitted { s with clientHandleThread := threadNum } platform :=
    ⟨hadmitted.listening, hadmitted.queues, hadmitted.handles⟩
  have hall : ∀ count, Admitted ((List.range count).foldl SelectServerThread.initHandle
      { s with clientHandleThread := threadNum }) platform := by
    intro count
    induction count with
    | zero => exact hstart
    | succ count ih =>
        rw [List.range_succ, List.foldl_append]
        exact ih.initHandle count
  unfold SelectServerThread.initServer
  split
  · exact hstart
  · exact hall _

/-- A queue replaced in the store of the queues. -/
theorem Admitted.set_queue (hadmitted : s.Admitted platform) {id : Nat}
    {queue queue' : SafeQueue QMClientState} (hqueue : s.queue id = some queue)
    (hqueue' : SelectClientHandle.QueueAdmitted queue' platform) :
    Admitted { s with queues := s.queues.set id (some queue') } platform := by
  refine ⟨hadmitted.listening, fun other queue'' hother => ?_, hadmitted.handles⟩
  rw [queue_set (queue_lt hqueue)] at hother
  split at hother
  next =>
    cases hother
    exact hqueue'
  next => exact hadmitted.queues other queue'' hother

theorem Admitted.set_handle (hadmitted : s.Admitted platform) (position : Nat)
    {h' : SelectClientHandle} (hhandle : h'.Admitted platform) (point : MainPoint) :
    Admitted { s with clientHandleArr := s.clientHandleArr.set position h', point } platform := by
  refine ⟨hadmitted.listening, hadmitted.queues, fun h hmem => ?_⟩
  rcases List.mem_or_eq_of_mem_set hmem with hold | rfl
  · exact hadmitted.handles h hold
  · exact hhandle

theorem Admitted.pushClient (hinv : s.Inv) (hadmitted : s.Admitted platform)
    {clientSock : Socket} {counts : Counts}
    (hmeets : s.Meets platform (.onRun (.client clientSock counts) : ServerLabel ω))
    (hopen : s.serverSock ≠ invalidSocket) (hsock : clientSock ≠ invalidSocket)
    (hpush : pushClient clientSock counts s = some next) : next.Admitted platform := by
  obtain ⟨id, queue, _, hqueue, rfl⟩ := pushClient_cases hinv.array hpush
  have hold := hadmitted.queues id queue hqueue
  have hset : Admitted { s with
      queues := s.queues.set id (some (queue.push ⟨EClientState.join.code, clientSock⟩)) }
      platform := by
    refine hadmitted.set_queue hqueue ?_
    cases platform with
    | unix fdSetSize =>
        intro entry hentry
        rcases List.mem_append.mp hentry with hentry | hentry
        · exact hold entry hentry
        · rw [List.mem_singleton.mp hentry]
          exact hmeets hopen hsock
    | windows => trivial
  exact ⟨hset.listening, hset.queues, hset.handles⟩

/-- A stopped or deleted handler still fits. -/
theorem Admitted.stopHandle (hadmitted : s.Admitted platform) {position : Nat}
    {h : SelectClientHandle} (hat : s.clientHandleArr[position]? = some h) :
    Admitted { s with
      clientHandleArr := s.clientHandleArr.set position { h with isRunging := false } }
      platform := by
  have hfits := hadmitted.handles h (List.mem_of_getElem? hat)
  have hstill : SelectClientHandle.Admitted { h with isRunging := false } platform := by
    cases platform with
    | unix fdSetSize => exact hfits
    | windows => exact hfits
  exact hadmitted.set_handle position hstill s.point

theorem Admitted.deleteHandle (hinv : s.Inv) (hadmitted : s.Admitted platform) {position : Nat}
    {h : SelectClientHandle} (hat : s.clientHandleArr[position]? = some h) (point : MainPoint) :
    Admitted { s with
      clientHandleArr := s.clientHandleArr.set position h.close
      point } platform := by
  have hmem := List.mem_of_getElem? hat
  obtain ⟨_, _, hadopted⟩ := SelectClientHandle.close_spec (hinv.handles h hmem).serving
  have hfits := hadmitted.handles h hmem
  have hclosed : h.close.Admitted platform := by
    cases platform with
    | unix fdSetSize => exact fun sock hsock => hfits sock (hadopted ▸ hsock)
    | windows => exact Nat.zero_le _
  exact hadmitted.set_handle position hclosed point

theorem Admitted.handleStep (hinv : s.Inv) (hadmitted : s.Admitted platform) {fuel position : Nat}
    {label : HandleLabel ω} (hmeets : s.Meets platform (.handle position label))
    (hstep : s.handleStep handle fuel position label = some next) : next.Admitted platform := by
  obtain ⟨h, queue, h', queue', hat, hqueue, hmove, rfl⟩ := handleStep_cases hstep
  have hmem := List.mem_of_getElem? hat
  have hholds := (hinv.handles h hmem).holds (hinv.queues _ queue hqueue)
  have hcond : h.Meets platform queue label := by
    cases platform with
    | unix fdSetSize => cases label <;> trivial
    | windows => exact hmeets h queue hat hqueue
  obtain ⟨hnext, hnext'⟩ := (hadmitted.handles h hmem).step hholds
    (hadmitted.queues _ queue hqueue) hcond hmove
  have hset := (hadmitted.set_queue hqueue hnext').set_handle position hnext s.point
  exact ⟨hset.listening, hset.queues, hset.handles⟩

theorem Admitted.step {fuel : Nat} (hinv : s.Inv) (hadmitted : s.Admitted platform)
    (hmeets : s.Meets platform label) (hstep : step handle fuel label s = some next) :
    next.Admitted platform := by
  cases step_cases hstep with
  | initServer threadNum => exact hadmitted.initServer threadNum
  | bind answer => exact hadmitted.bind hmeets
  | listen success =>
      cases success with
      | true => exact hadmitted
      | false => exact hadmitted.closeStart s.serverSock
  | wait => exact hadmitted
  | selectFailed => exact hadmitted.closeStart s.serverSock
  | pushClient _ hopen hsock hpush => exact hadmitted.pushClient hinv hmeets hopen hsock hpush
  | close => exact hadmitted.closeStart s.serverSock
  | stopHandle _ hat => exact hadmitted.stopHandle hat
  | deleteHandle _ hat => exact hadmitted.deleteHandle hinv hat _
  | deleteQueues hdelete =>
      obtain ⟨queues, rfl, _, _, _, hnone⟩ := deleteQueues_cases hinv hdelete
      refine ⟨hadmitted.listening, fun id queue hqueue => ?_, fun h hmem => ?_⟩
      · cases (hnone id).symm.trans hqueue
      · exact absurd hmem List.not_mem_nil
  | handle hmove => exact hadmitted.handleStep hinv hmeets hmove

theorem Admitted.call_fits (hinv : s.Inv) (hadmitted : s.Admitted platform) {fuel : Nat}
    (hcall : s.FdSets handle fuel label call) : call.Fits platform := by
  cases hcall with
  | onRun _ hopen =>
      cases platform with
      | unix fdSetSize => exact hadmitted.listening fdSetSize rfl hopen
      | windows => exact Nat.succ_pos _
  | @handle position label h call hat hcall =>
      have hmem := List.mem_of_getElem? hat
      exact (hadmitted.handles h hmem).call_fits (hinv.handles h hmem).serving hcall

end SelectServerThread

/-! ## Whole runs -/

theorem SelectServer.admitted_of_reachable {σ : Type} {handle : ServerHandle σ}
    {platform : Platform} {s : SelectServer σ}
    (hreach : ((machine handle).restrict (Meets platform)).Reachable s) : s.Admitted platform := by
  induction hreach with
  | start hinitial =>
      obtain ⟨world, rfl⟩ := hinitial
      cases platform with
      | unix fdSetSize =>
          exact ⟨fun hopen => absurd rfl hopen, fun _ hmember => absurd hmember List.not_mem_nil⟩
      | windows => exact Nat.succ_pos _
  | next hbefore hstep ih =>
      obtain ⟨hmeets, hpossible, hmoves⟩ := hstep
      exact ih.moves (inv_of_reachable hbefore.of_restrict) hpossible hmeets hmoves

theorem SelectServerThread.admitted_of_reachable {ω : Type} {handle : MsgHandle ω}
    {platform : Platform} {s : SelectServerThread}
    (hreach : ((machine handle).restrict (Meets platform)).Reachable s) : s.Admitted platform := by
  induction hreach with
  | start hinitial =>
      cases hinitial
      exact new_admitted platform
  | next hbefore hstep ih =>
      obtain ⟨hmeets, fuel, hmove⟩ := hstep
      exact ih.step (inv_of_reachable hbefore.of_restrict) hmeets hmove

/-- As long as the steps meet the condition, every descriptor that either server puts
into a set fits. -/
theorem fdSets_fit (platform : Platform) {σ ω : Type} (handle : ServerHandle σ)
    (threadHandle : MsgHandle ω) :
    (∀ s, ((SelectServer.machine handle).restrict (SelectServer.Meets platform)).Reachable s →
      ∀ fuel event call, SelectServer.Possible s event → s.Meets platform event →
        s.FdSets handle fuel event call → call.Fits platform) ∧
    ∀ s, ((SelectServerThread.machine threadHandle).restrict
        (SelectServerThread.Meets platform)).Reachable s →
      ∀ fuel label call, s.FdSets threadHandle fuel label call → call.Fits platform := by
  constructor
  · intro s hreach fuel event call hpossible hmeets hcall
    exact (SelectServer.admitted_of_reachable hreach).call_fits
      (SelectServer.inv_of_reachable hreach.of_restrict) hpossible hmeets hcall
  · intro s hreach fuel label call hcall
    exact (SelectServerThread.admitted_of_reachable hreach).call_fits
      (SelectServerThread.inv_of_reachable hreach.of_restrict) hcall

/-! ## A client at descriptor 1024 -/

section Late

open SelectServer (silent listening)

/-- A call of `OnRun` that accepts the client. -/
def acceptLate : OnRunAnswers where
  select := some {3}
  accept := some ⟨1024, 0, fun _ => 0, fun _ => 0, fun _ => 0⟩
  turns _ := ⟨.failed, fun _ => .notWritable⟩

/-- A call of `OnRun` in which `select` fails. -/
def selectFails : OnRunAnswers where
  select := none
  accept := none
  turns _ := ⟨.failed, fun _ => .notWritable⟩

/-- The server that has accepted it. -/
def acceptedLate : SelectServer Unit := listening.rebuild.accept acceptLate.accept

theorem acceptedLate_reachable :
    ((SelectServer.machine silent).restrict (SelectServer.Meets (.unix 4096))).Reachable
      acceptedLate := by
  have hbound : SelectServer.Meets (.unix 4096) (.new ()) (.bind (.bound 3)) :=
    show (3 : Int) < 4096 by decide
  have hlistening : ((SelectServer.machine silent).restrict
      (SelectServer.Meets (.unix 4096))).Reachable listening :=
    .next (.start ⟨(), rfl⟩) ⟨hbound, SelectServer.listening_step⟩
  have hstep : (SelectServer.machine silent).step listening (.onRun acceptLate) acceptedLate := by
    refine ⟨?_, 0, 0, rfl⟩
    rintro new ⟨⟩
    exact ⟨by decide, fun member hmember => absurd hmember List.not_mem_nil⟩
  refine .next hlistening ⟨?_, hstep⟩
  rintro new ⟨⟩
  exact show (1024 : Int) < 4096 by decide

theorem acceptedLate_calls :
    acceptedLate.FdSets silent 0 (.onRun selectFails) ⟨{3}, 1024⟩ := by
  refine .rebuild (show (3 : Int) ≠ -1 by decide) ?_
  exact List.mem_cons_of_mem _ List.mem_cons_self

/-- A handler that does nothing with a message. -/
def ignore : MsgHandle Unit := fun _ _ => ((), [])

/-- A handler's thread that has adopted it. -/
def adoptedLate : SelectServerThread :=
  let fresh : Nat → Fresh := fun _ => ⟨fun _ => 0, fun _ => 0, fun _ => 0⟩
  { SelectServerThread.new with
    clientHandleThread := 1
    clientHandleArr := [{ (SelectClientHandle.new 0 0).onJoin fresh 1024 with point := .poll }]
    clientStateQueueArr := [0]
    queues := [some .new]
    serverSock := 3
    pushed := [(0, 1024)] }

theorem adoptedLate_reachable :
    ((SelectServerThread.machine ignore).restrict
      (SelectServerThread.Meets (.unix 4096))).Reachable adoptedLate := by
  have hnew : ((SelectServerThread.machine ignore).restrict
      (SelectServerThread.Meets (.unix 4096))).Reachable SelectServerThread.new := .start rfl
  have hinit := hnew.step_restrict (.initServer 1) trivial ⟨0, rfl⟩
  have hbind := hinit.step_restrict (.bind (.bound 3)) (show HasBit 4096 3 by decide) ⟨0, rfl⟩
  have haccept := hbind.step_restrict (.onRun (.client 1024 ⟨0, fun _ => 0, fun _ => 0⟩))
    (fun _ _ => show HasBit 4096 1024 by decide) ⟨0, rfl⟩
  have htest := haccept.step_restrict (.handle 0 .test) trivial ⟨0, rfl⟩
  exact htest.step_restrict (.handle 0 (.drain fun _ => ⟨fun _ => 0, fun _ => 0, fun _ => 0⟩))
    trivial ⟨2, rfl⟩

theorem adoptedLate_calls :
    adoptedLate.FdSets ignore 0 (.handle 0 (.poll .failed)) ⟨∅, 1024⟩ :=
  .handle rfl (.rebuild rfl List.mem_cons_self)

/-- Where the system's sets have 4096 bits, the descriptor fits. -/
theorem fdSets_fit_late : FdSetCall.Fits ⟨{3}, 1024⟩ (.unix 4096) ∧
    FdSetCall.Fits ⟨∅, 1024⟩ (.unix 4096) := by
  have hpossible : SelectServer.Possible acceptedLate (.onRun selectFails) :=
    fun _ hnew => nomatch hnew
  have hmeets : acceptedLate.Meets (.unix 4096) (.onRun selectFails) := fun _ hnew => nomatch hnew
  obtain ⟨hserver, hthread⟩ := fdSets_fit (.unix 4096) silent ignore
  exact ⟨hserver _ acceptedLate_reachable _ _ _ hpossible hmeets acceptedLate_calls,
    hthread _ adoptedLate_reachable _ _ _ adoptedLate_calls⟩

/-- Where they have 1024 bits, both servers write behind the set. -/
theorem fdSets_overflow_late :
    (¬ ∀ s, (SelectServer.machine silent).Reachable s → ∀ fuel event call,
      SelectServer.Possible s event → s.FdSets silent fuel event call → call.Fits (.unix 1024)) ∧
    ¬ ∀ s, (SelectServerThread.machine ignore).Reachable s → ∀ fuel label call,
      s.FdSets ignore fuel label call → call.Fits (.unix 1024) := by
  have hbehind : ∀ set, ¬ FdSetCall.Fits ⟨set, 1024⟩ (.unix 1024) :=
    fun _ hfits => Int.lt_irrefl _ hfits.2
  constructor
  · intro hall
    have hpossible : SelectServer.Possible acceptedLate (.onRun selectFails) :=
      fun _ hnew => nomatch hnew
    exact hbehind _ (hall _ acceptedLate_reachable.of_restrict _ _ _ hpossible acceptedLate_calls)
  · intro hall
    exact hbehind _ (hall _ adoptedLate_reachable.of_restrict _ _ _ adoptedLate_calls)

end Late

end SelectNet
