import SelectNet.CommonLib.SelectServerThread

/-!
# What a handler does with its sockets

Every socket pushed to a handler waits in its queue, belongs to one of its
clients, or has been passed to `closesocket` by a client it deleted. Each
operation of the handler keeps this account.
-/

namespace SelectNet

namespace Client

theorem new_open {sock : Socket} (hsock : sock ≠ invalidSocket) (fresh : Fresh)
    (test : TestCounters) : (new sock fresh test).Open :=
  ⟨ClientSocket.new_inv _ _ _ _ _ _, hsock, rfl⟩

end Client

namespace SelectClientHandle

variable {ω : Type}

/-- The descriptors of the clients. -/
def socks (h : SelectClientHandle) : List Socket := h.clientSockArr.map Endpoint.sock

/-- What no operation of a handler changes, and the record that only grows. -/
structure Keeps (h next : SelectClientHandle) : Prop where
  queue : next.clientStateQueue = h.clientStateQueue
  id : next.clientHandleID = h.clientHandleID
  closed : h.closesocket <+: next.closesocket
  stop : next.isHandleStop = h.isHandleStop

/-- A thread says that it has stopped only at the end of `HandleThread`. -/
def Honest (h : SelectClientHandle) : Prop := h.isHandleStop = true → h.point = .stopped

/-- What a step of the thread keeps besides the account. -/
structure Steps (h next : SelectClientHandle) : Prop where
  queue : next.clientStateQueue = h.clientStateQueue
  id : next.clientHandleID = h.clientHandleID
  closed : h.closesocket <+: next.closesocket
  running : h.point ≠ .stopped
  honest : h.Honest → next.Honest

/-- The sockets of the adopted clients: of those listed and of those deleted. -/
structure Serving (h : SelectClientHandle) (clients : List Client) : Prop where
  listed : (clients.map Endpoint.sock).Sublist h.adopted
  placed : h.adopted.Perm (clients.map Endpoint.sock ++ h.closesocket)
  clients : ∀ client ∈ clients, client.Open

/-- What a handler and its queue hold of the sockets pushed to it. -/
structure Holds (h : SelectClientHandle) (queue : SafeQueue QMClientState)
    (pushed : List Socket) : Prop where
  joins : ∀ entry ∈ queue.queue.nodes, entry.type = EClientState.join.code
  counted : queue.queue.Counted
  order : pushed = h.adopted ++ queue.queue.nodes.map QMClientState.clientSock
  serving : h.Serving h.clientSockArr
  valid : ∀ sock ∈ pushed, sock ≠ invalidSocket

variable {h next last : SelectClientHandle}

theorem Keeps.refl (h : SelectClientHandle) : h.Keeps h := ⟨rfl, rfl, List.prefix_rfl, rfl⟩

theorem Keeps.trans (hfirst : h.Keeps next) (hsecond : next.Keeps last) : h.Keeps last :=
  ⟨hsecond.queue.trans hfirst.queue, hsecond.id.trans hfirst.id,
    hfirst.closed.trans hsecond.closed, hsecond.stop.trans hfirst.stop⟩

/-- A thread that goes on has not said that it has stopped. -/
theorem Keeps.honest (hkeeps : h.Keeps next) (hpoint : h.point ≠ .stopped)
    (hhonest : h.Honest) (point : HandlePoint) : Honest { next with point } := by
  intro hstop
  exact absurd (hhonest (hkeeps.stop.symm.trans hstop)) hpoint

theorem Keeps.steps (hkeeps : h.Keeps next) (hpoint : h.point ≠ .stopped) (point : HandlePoint) :
    h.Steps { next with point } :=
  ⟨hkeeps.queue, hkeeps.id, hkeeps.closed, hpoint,
    fun hhonest => hkeeps.honest hpoint hhonest point⟩

/-! ## Deleting clients -/

theorem deleteClient_keeps (h : SelectClientHandle) (client : Client) :
    h.Keeps (h.deleteClient client) :=
  ⟨rfl, rfl, List.prefix_append _ _, rfl⟩

/-- Deleting a client moves its socket from the list to those closed. -/
theorem Serving.delete {before after : List Client} {client last : Client}
    (hserving : h.Serving (before ++ client :: after))
    (hclosed : (h.deleteClient last).closesocket = h.closesocket ++ [client.sock]) :
    (h.deleteClient last).Serving (before ++ after) := by
  have hless : (before ++ after).Sublist (before ++ client :: after) := by
    apply List.Sublist.append_left
    exact List.sublist_cons_self _ _
  refine ⟨(hless.map _).trans hserving.listed, hserving.placed.trans ?_, fun other hother =>
    hserving.clients other (hless.subset hother)⟩
  rw [hclosed]
  simp only [List.map_append, List.map_cons, List.append_assoc]
  apply List.Perm.append_left
  have hmove : ([client.sock] ++ (after.map Endpoint.sock ++ h.closesocket)).Perm
      ((after.map Endpoint.sock ++ h.closesocket) ++ [client.sock]) := List.perm_append_comm
  rw [List.append_assoc] at hmove
  exact hmove

theorem deleteClient_open {client : Client} (hopen : client.Open) :
    (h.deleteClient client).closesocket = h.closesocket ++ [client.sock] := by
  have hinv := Client.enter_inv hopen.inv () h.test
  obtain ⟨hclosed, _, _⟩ := ClientSocket.close_spec hinv.send
  have hcalls : (ClientSocket.close (client.enter () h.test)).closesocket =
      client.closesocket ++ [client.sock] :=
    hclosed.closesocket.trans (if_neg hopen.sock)
  rw [hopen.closesocket] at hcalls
  simp only [deleteClient, hcalls, List.nil_append]

theorem deleteAll_spec {clients : List Client} (hserving : h.Serving clients) :
    (clients.foldl deleteClient h).Serving [] ∧ h.Keeps (clients.foldl deleteClient h) ∧
      (clients.foldl deleteClient h).adopted = h.adopted := by
  induction clients generalizing h with
  | nil => exact ⟨hserving, .refl h, rfl⟩
  | cons client clients ih =>
      have hopen := hserving.clients client List.mem_cons_self
      have hall : h.Serving ([] ++ client :: clients) := hserving
      have hrest : (h.deleteClient client).Serving clients := hall.delete (deleteClient_open hopen)
      obtain ⟨hnone, hkeeps, hadopted⟩ := ih hrest
      exact ⟨hnone, (deleteClient_keeps h client).trans hkeeps, hadopted⟩

/-- `Close` passes every client's socket to `closesocket`. -/
theorem close_spec (hserving : h.Serving h.clientSockArr) :
    h.close.Serving h.close.clientSockArr ∧ h.Keeps h.close ∧ h.close.adopted = h.adopted := by
  obtain ⟨hnone, hkeeps, hadopted⟩ := deleteAll_spec hserving
  exact ⟨⟨hnone.listed, hnone.placed, hnone.clients⟩,
    ⟨hkeeps.queue, hkeeps.id, hkeeps.closed, hkeeps.stop⟩, hadopted⟩

/-- Deleting the clients leaves the thread where it stands. -/
theorem close_point (h : SelectClientHandle) : h.close.point = h.point := by
  have hall : ∀ clients : List Client, (clients.foldl deleteClient h).point = h.point := by
    intro clients
    induction clients using List.reverseRecOn with
    | nil => rfl
    | append_singleton clients client ih =>
        rw [List.foldl_append]
        exact ih
  exact hall h.clientSockArr

/-! ## Draining -/

/-- Adopt several sockets. -/
def joinAll (h : SelectClientHandle) (fresh : Nat → Fresh) (socks : List Socket) :
    SelectClientHandle :=
  socks.foldl (fun h sock => h.onJoin fresh sock) h

theorem Serving.join (hserving : h.Serving h.clientSockArr) (fresh : Nat → Fresh) {sock : Socket}
    (hsock : sock ≠ invalidSocket) :
    (h.onJoin fresh sock).Serving (h.onJoin fresh sock).clientSockArr := by
  refine ⟨?_, ?_, ?_⟩
  · simp only [onJoin, List.map_append, List.map_cons, List.map_nil]
    exact hserving.listed.append (List.Sublist.refl _)
  · simp only [onJoin, List.map_append, List.map_cons, List.map_nil, List.append_assoc]
    apply (hserving.placed.append_right [sock]).trans
    rw [List.append_assoc]
    exact List.perm_append_comm.append_left _
  · intro client hclient
    simp only [onJoin, List.mem_append, List.mem_singleton] at hclient
    rcases hclient with hold | rfl
    · exact hserving.clients client hold
    · exact Client.new_open hsock _ _

theorem joinAll_spec (hserving : h.Serving h.clientSockArr) (fresh : Nat → Fresh)
    {socks : List Socket} (hvalid : ∀ sock ∈ socks, sock ≠ invalidSocket) :
    (h.joinAll fresh socks).Serving (h.joinAll fresh socks).clientSockArr ∧
      h.Keeps (h.joinAll fresh socks) ∧ (h.joinAll fresh socks).adopted = h.adopted ++ socks := by
  induction socks generalizing h with
  | nil => exact ⟨hserving, .refl h, (List.append_nil _).symm⟩
  | cons sock socks ih =>
      rw [List.forall_mem_cons] at hvalid
      have hjoin : h.Keeps (h.onJoin fresh sock) := ⟨rfl, rfl, List.prefix_rfl, rfl⟩
      obtain ⟨hall, hkeeps, hadopted⟩ := ih (hserving.join fresh hvalid.1) hvalid.2
      refine ⟨hall, hjoin.trans hkeeps, hadopted.trans ?_⟩
      simp only [onJoin, List.append_assoc, List.singleton_append]

/-- A pass at an entry. -/
theorem drainPass_cons (h : SelectClientHandle) (fuel : Nat) (fresh : Nat → Fresh)
    {queue : SafeQueue QMClientState} {entry : QMClientState} {entries : List QMClientState}
    (hit : queue.it = entry :: entries) :
    drainPass fuel fresh (h, queue) =
      match h.onState fuel fresh entry queue with
      | none => .leave none
      | some (h, queue) => .again (h, queue.next) := by
  have hend : queue.atEnd = false := by simp [SafeQueue.atEnd, hit]
  have hval : queue.getVal.getD .default = entry := by simp [SafeQueue.getVal, hit]
  simp only [drainPass, hend, hval]
  rfl

theorem drainPass_nil {fuel : Nat} {fresh : Nat → Fresh} {queue : SafeQueue QMClientState}
    (hit : queue.it = []) :
    drainPass fuel fresh (h, queue) = .leave (some (h, queue)) := by
  simp [drainPass, SafeQueue.atEnd, hit]

theorem drainPass_join {fuel : Nat} {fresh : Nat → Fresh} {queue : SafeQueue QMClientState}
    {entry : QMClientState} {entries : List QMClientState} (hit : queue.it = entry :: entries)
    (hjoin : entry.type = EClientState.join.code) :
    drainPass fuel fresh (h, queue) =
      .again (h.onJoin fresh entry.clientSock, (queue.manualSize (-1)).next) := by
  rw [drainPass_cons h fuel fresh hit, onState, if_pos hjoin]

/-- A loop over `Join` entries that comes to its end has adopted them, in order. -/
theorem drainJoins_spec {fuel passes : Nat} {fresh : Nat → Fresh}
    {queue queue' : SafeQueue QMClientState} {entries : List QMClientState}
    (hjoins : ∀ entry ∈ entries, entry.type = EClientState.join.code) (hit : queue.it = entries)
    (hrun : Loop.run (drainPass fuel fresh) passes (h, queue) = some (some (next, queue'))) :
    next = h.joinAll fresh (entries.map QMClientState.clientSock) := by
  induction entries generalizing h queue passes with
  | nil =>
      have hyields : Loop.Yields (drainPass fuel fresh) (h, queue) _ := ⟨passes, hrun⟩
      cases hyields.unique (.of_leave (drainPass_nil hit))
      rfl
  | cons entry rest ih =>
      rw [List.forall_mem_cons] at hjoins
      have hyields : Loop.Yields (drainPass fuel fresh) (h, queue) _ := ⟨passes, hrun⟩
      have hmoved : (queue.manualSize (-1)).next.it = rest := by
        simp [SafeQueue.next, SafeQueue.manualSize, hit]
      obtain ⟨passes, hrest⟩ :=
        (Loop.yields_iff_of_again (drainPass_join hit hjoins.1)).mp hyields
      exact ih hjoins.2 hmoved hrest

theorem drainJoins_ends {fuel passes : Nat} {fresh : Nat → Fresh}
    {queue : SafeQueue QMClientState} {entries : List QMClientState}
    (hjoins : ∀ entry ∈ entries, entry.type = EClientState.join.code) (hit : queue.it = entries)
    (hpasses : entries.length < passes) :
    ∃ last, Loop.run (drainPass fuel fresh) passes (h, queue) = some (some last) := by
  obtain ⟨passes, rfl⟩ : ∃ n, passes = n + 1 := ⟨passes - 1, by omega⟩
  induction entries generalizing h queue passes with
  | nil => exact ⟨_, Loop.run_of_leave (drainPass_nil hit) passes⟩
  | cons entry rest ih =>
      rw [List.forall_mem_cons] at hjoins
      rw [List.length_cons] at hpasses
      obtain ⟨passes, rfl⟩ : ∃ n, passes = n + 1 := ⟨passes - 1, by omega⟩
      have hmoved : (queue.manualSize (-1)).next.it = rest := by
        simp [SafeQueue.next, SafeQueue.manualSize, hit]
      rw [Loop.run_of_again (drainPass_join hit hjoins.1)]
      exact ih hjoins.2 hmoved passes (by omega)

/-- A drain of a queue of `Join` entries adopts all of them, in order, and leaves
the queue empty with size 0. -/
theorem drain_spec {fuel : Nat} {fresh : Nat → Fresh} {queue queue' : SafeQueue QMClientState}
    (hjoins : ∀ entry ∈ queue.queue.nodes, entry.type = EClientState.join.code)
    (hdrain : h.drain fuel fresh queue = some (next, queue')) :
    next = { h.joinAll fresh (queue.queue.nodes.map QMClientState.clientSock) with
      hasChangeClient := true } ∧ queue'.queue = .new := by
  simp only [drain] at hdrain
  split at hdrain
  next last queue'' hrun =>
    have hit : queue.begin.it = queue.queue.nodes := rfl
    cases hdrain
    rw [drainJoins_spec hjoins hit hrun]
    exact ⟨rfl, rfl⟩
  next => cases hdrain

/-- A drain of a queue of `Join` entries comes to its end. -/
theorem drain_ends (h : SelectClientHandle) (fresh : Nat → Fresh)
    {queue : SafeQueue QMClientState}
    (hjoins : ∀ entry ∈ queue.queue.nodes, entry.type = EClientState.join.code) :
    ∃ fuel h' queue', h.drain fuel fresh queue = some (h', queue') := by
  obtain ⟨fuel, hfuel⟩ : ∃ fuel, fuel = queue.queue.nodes.length + 1 := ⟨_, rfl⟩
  have hit : queue.begin.it = queue.queue.nodes := rfl
  obtain ⟨last, hrun⟩ : ∃ last, Loop.run (drainPass fuel fresh) fuel (h, queue.begin) =
      some (some last) := drainJoins_ends hjoins hit (hfuel ▸ Nat.lt_succ_self _)
  refine ⟨fuel, { last.1 with hasChangeClient := true }, last.2.clear, ?_⟩
  simp only [drain, hrun]

/-! ## The sweep -/

/-- A client that has had its turn, and is still open, stands where it stood. -/
theorem Serving.keep {before after : List Client} {client last : Client}
    (hserving : h.Serving (before ++ client :: after)) (hsame : last.sock = client.sock)
    (hopen : last.Open) (test : TestCounters) :
    Serving { h with test } (before ++ [last] ++ after) := by
  refine ⟨?_, ?_, ?_⟩
  · simpa [hsame] using hserving.listed
  · simpa [hsame] using hserving.placed
  · intro other hother
    simp only [List.append_assoc, List.singleton_append, List.mem_append, List.mem_cons] at hother
    rcases hother with hold | rfl | hold
    · exact hserving.clients other (List.mem_append_left _ hold)
    · exact hopen
    · exact hserving.clients other (List.mem_append_right _ (List.mem_cons_of_mem _ hold))

/-- A client that its turn has closed is deleted, and its destructor finds it
closed. -/
theorem deleteClient_closed {client : Client} (hclosed : client.sock = invalidSocket) :
    (h.deleteClient client).closesocket = h.closesocket ++ client.closesocket := by
  have hsock : (client.enter () h.test).sock = invalidSocket := hclosed
  rw [deleteClient, ClientSocket.close, if_neg (not_not.mpr hsock)]
  rfl

theorem sweep_spec {handle : MsgHandle ω} {fuel : Nat} {fdRead : FdSet}
    {turns : Nat → ClientTurn ω} {rest : List Client} {count : Nat} {done : List Client}
    (hserving : h.Serving (done ++ rest))
    (hsweep : sweep handle fuel fdRead turns rest count done h = some next) :
    next.Serving next.clientSockArr ∧ h.Keeps next ∧ next.adopted = h.adopted := by
  induction rest generalizing count done h with
  | nil =>
      simp only [sweep, Option.some.injEq] at hsweep
      subst next
      rw [List.append_nil] at hserving
      exact ⟨⟨hserving.listed, hserving.placed, hserving.clients⟩,
        ⟨rfl, rfl, List.prefix_rfl, rfl⟩, rfl⟩
  | cons client rest ih =>
      have hopen : client.Open := hserving.clients client (by simp)
      simp only [sweep] at hsweep
      split at hsweep
      next => cases hsweep
      next failed s hturn =>
        have hentered := Client.enter_inv hopen.inv (turns count).world h.test
        obtain ⟨hinv, hsettles⟩ := ClientSocket.turn_spec hentered hopen.sock hturn
        have hclose : (client.enter (turns count).world h.test).closesocket = [] :=
          hopen.closesocket
        -- a turn leaves the client open, or ends with its one call of `closesocket`
        cases hsettles with
        | kept hsock hcalls =>
            rw [hclose] at hcalls
            have hsame : (Client.leave s).sock = client.sock := hsock
            have hstill : (Client.leave s).Open :=
              ⟨Client.leave_inv hinv, hsame ▸ hopen.sock, hcalls⟩
            simp only [Bool.false_eq_true, if_false] at hsweep
            obtain ⟨hall, hkeeps, hadopted⟩ :=
              ih (hserving.keep hsame hstill (Client.counters s h.test)) hsweep
            exact ⟨hall, ⟨hkeeps.queue, hkeeps.id, hkeeps.closed, hkeeps.stop⟩, hadopted⟩
        | closed hsock hcalls =>
            rw [hclose, List.nil_append] at hcalls
            simp only [if_true] at hsweep
            generalize hlent : { h with
                test := Client.counters s h.test
                testClientCount := h.testClientCount - 1 } = lent at hsweep
            have hkept : h.Keeps lent := by
              subst lent
              exact ⟨rfl, rfl, List.prefix_rfl, rfl⟩
            have hlist : lent.Serving (done ++ client :: rest) := by
              subst lent
              exact ⟨hserving.listed, hserving.placed, hserving.clients⟩
            have hdeleted : (lent.deleteClient (Client.leave s)).closesocket =
                lent.closesocket ++ [client.sock] :=
              (deleteClient_closed hsock).trans (congrArg (lent.closesocket ++ ·) hcalls)
            have hless := hlist.delete hdeleted
            have hnext : Serving { lent.deleteClient (Client.leave s) with
                hasChangeClient := true } (done ++ rest) :=
              ⟨hless.listed, hless.placed, hless.clients⟩
            obtain ⟨hall, hkeeps, hadopted⟩ := ih hnext hsweep
            have hgone := hkept.trans (deleteClient_keeps lent (Client.leave s))
            refine ⟨hall, hgone.trans ⟨hkeeps.queue, hkeeps.id, hkeeps.closed, hkeeps.stop⟩, ?_⟩
            rw [hadopted]
            subst lent
            rfl

/-- All that a new set of descriptors changes. -/
theorem rebuild_cases (h : SelectClientHandle) : ∃ fdReadBackup maxSock hasChangeClient,
    h.rebuild = { h with fdReadBackup, maxSock, hasChangeClient } := by
  unfold rebuild
  split
  · split
    · exact ⟨_, _, _, rfl⟩
    · exact ⟨_, _, _, rfl⟩
  · exact ⟨_, _, _, rfl⟩

theorem rebuild_serving (hserving : h.Serving h.clientSockArr) :
    h.rebuild.Serving h.rebuild.clientSockArr ∧ h.Keeps h.rebuild ∧
      h.rebuild.adopted = h.adopted := by
  obtain ⟨fdReadBackup, maxSock, hasChangeClient, hrebuild⟩ := h.rebuild_cases
  rw [hrebuild]
  exact ⟨⟨hserving.listed, hserving.placed, hserving.clients⟩, ⟨rfl, rfl, List.prefix_rfl, rfl⟩,
    rfl⟩

/-- A pass over the clients keeps the account, however `select` answers. -/
theorem poll_spec {handle : MsgHandle ω} {fuel : Nat} {answer : PollAnswer ω}
    (hserving : h.Serving h.clientSockArr) (hpoll : h.poll handle fuel answer = some next) :
    next.Serving next.clientSockArr ∧ h.Keeps next ∧ next.adopted = h.adopted := by
  obtain ⟨hagain, hsame, hsocks⟩ := rebuild_serving hserving
  simp only [poll] at hpoll
  split at hpoll
  · cases hpoll
    exact ⟨hserving, .refl h, rfl⟩
  · cases answer with
    | failed =>
        cases hpoll
        obtain ⟨hnone, hkeeps, hadopted⟩ := close_spec hagain
        exact ⟨hnone, hsame.trans hkeeps, hadopted.trans hsocks⟩
    | ready readable turns =>
        have hstart : h.rebuild.Serving ([] ++ h.rebuild.clientSockArr) := hagain
        obtain ⟨hall, hkeeps, hadopted⟩ := sweep_spec hstart hpoll
        exact ⟨hall, hsame.trans hkeeps, hadopted.trans hsocks⟩

/-! ## A step of the thread -/

theorem Holds.push {queue : SafeQueue QMClientState}
    {pushed : List Socket} (hholds : h.Holds queue pushed) {clientSock : Socket}
    (hsock : clientSock ≠ invalidSocket) :
    h.Holds (queue.push ⟨EClientState.join.code, clientSock⟩) (pushed ++ [clientSock]) := by
  refine ⟨?_, hholds.counted.push _, ?_, hholds.serving, ?_⟩
  · intro entry hentry
    rcases List.mem_append.mp hentry with hold | hnew
    · exact hholds.joins entry hold
    · rw [List.mem_singleton.mp hnew]
  · rw [hholds.order]
    simp [SafeQueue.push]
  · intro sock hmem
    rcases List.mem_append.mp hmem with hold | hnew
    · exact hholds.valid sock hold
    · rwa [List.mem_singleton.mp hnew]

/-- All that a step can do. -/
theorem step_cases {handle : MsgHandle ω} {fuel : Nat} {label : HandleLabel ω}
    {queue queue' : SafeQueue QMClientState}
    (hstep : h.step handle fuel label queue = some (next, queue')) :
    (label = .test ∧ h.point = .test ∧ queue' = queue ∧
      (next = { h with point := .stopped, isHandleStop := true } ∨
        ∃ point, next = { h with point })) ∨
    (∃ fresh h', label = .drain fresh ∧ h.point = .drain ∧
      h.drain fuel fresh queue = some (h', queue') ∧ next = { h' with point := .poll }) ∨
    ∃ answer h', label = .poll answer ∧ h.point = .poll ∧
      h.poll handle fuel answer = some h' ∧ next = { h' with point := .test } ∧
      queue' = queue := by
  cases hpoint : h.point <;> cases label <;>
    simp only [SelectClientHandle.step, hpoint, reduceCtorEq] at hstep
  case test.test =>
    apply Or.inl
    split at hstep
    · cases hstep
      exact ⟨rfl, rfl, rfl, Or.inl rfl⟩
    · split at hstep
      · cases hstep
        exact ⟨rfl, rfl, rfl, Or.inr ⟨.drain, rfl⟩⟩
      · cases hstep
        exact ⟨rfl, rfl, rfl, Or.inr ⟨.poll, rfl⟩⟩
  case drain.drain fresh =>
    obtain ⟨⟨h', queue''⟩, hdrain, hresult⟩ := Option.map_eq_some_iff.mp hstep
    cases hresult
    exact Or.inr (Or.inl ⟨fresh, h', rfl, rfl, hdrain, rfl⟩)
  case poll.poll answer =>
    obtain ⟨h', hpoll, hresult⟩ := Option.map_eq_some_iff.mp hstep
    cases hresult
    exact Or.inr (Or.inr ⟨answer, h', rfl, rfl, hpoll, rfl, rfl⟩)

/-- Every step of a handler keeps its account. -/
theorem Holds.step {handle : MsgHandle ω} {fuel : Nat} {label : HandleLabel ω}
    {queue queue' : SafeQueue QMClientState} {pushed : List Socket}
    (hholds : h.Holds queue pushed)
    (hstep : h.step handle fuel label queue = some (next, queue')) :
    next.Holds queue' pushed ∧ h.Steps next := by
  obtain ⟨hjoins, hcounted, horder, hserving, hvalid⟩ := hholds
  rcases step_cases hstep with ⟨_, hpoint, rfl, hmoved⟩ | ⟨fresh, h', _, hpoint, hdrain, rfl⟩ |
    ⟨answer, h', _, hpoint, hpoll, rfl, rfl⟩
  · have hgoing : h.point ≠ .stopped := by simp [hpoint]
    have hsame : ∀ point stop, Holds { h with point, isHandleStop := stop } queue' pushed :=
      fun _ _ => ⟨hjoins, hcounted, horder,
        ⟨hserving.listed, hserving.placed, hserving.clients⟩, hvalid⟩
    rcases hmoved with rfl | ⟨point, rfl⟩
    · exact ⟨hsame _ _, ⟨rfl, rfl, List.prefix_rfl, hgoing, fun _ _ => rfl⟩⟩
    · exact ⟨hsame _ _, (Keeps.refl h).steps hgoing point⟩
  · have hgoing : h.point ≠ .stopped := by simp [hpoint]
    obtain ⟨rfl, hempty⟩ := drain_spec hjoins hdrain
    have hsocks : ∀ sock ∈ queue.queue.nodes.map QMClientState.clientSock,
        sock ≠ invalidSocket :=
      fun sock hsock => hvalid sock (horder ▸ List.mem_append_right _ hsock)
    obtain ⟨hall, hkeeps, hadopted⟩ := joinAll_spec hserving fresh hsocks
    have hlisted : h.Keeps
        { h.joinAll fresh (queue.queue.nodes.map QMClientState.clientSock) with
          hasChangeClient := true } :=
      ⟨hkeeps.queue, hkeeps.id, hkeeps.closed, hkeeps.stop⟩
    refine ⟨⟨?_, ?_, ?_, ⟨hall.listed, hall.placed, hall.clients⟩, hvalid⟩,
      hlisted.steps hgoing .poll⟩
    · simp [hempty]
    · rw [hempty]
      exact MyQueue.new_counted
    · rw [hempty, MyQueue.new_nodes, List.map_nil, List.append_nil]
      exact horder.trans hadopted.symm
  · have hgoing : h.point ≠ .stopped := by simp [hpoint]
    obtain ⟨hall, hkeeps, hadopted⟩ := poll_spec hserving hpoll
    refine ⟨⟨hjoins, hcounted, ?_, ⟨hall.listed, hall.placed, hall.clients⟩, hvalid⟩,
      hkeeps.steps hgoing .test⟩
    rw [hadopted]
    exact horder

end SelectClientHandle

end SelectNet
