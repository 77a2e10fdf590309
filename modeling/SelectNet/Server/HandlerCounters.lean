import Mathlib.Algebra.BigOperators.Group.List.Basic
import Mathlib.Algebra.Ring.Int.Defs
import SelectNet.CommonLib.SendCounter
import SelectNet.Server.HandlePoll

/-!
# The handler's counters

`_testClientCount` follows joins and removals, and `_testSendQueueSize` what the
clients' queues do. When `select` fails, `Close` deletes all clients: their
destructors see to the second counter, and nobody to the first.
-/

namespace SelectNet.SelectClientHandle

variable {ω : Type} {handle : MsgHandle ω} {h next : SelectClientHandle}
  {queue : SafeQueue QMClientState}

/-- The entries of all the clients' send queues. -/
def queued (clients : List Client) : Int :=
  (clients.map fun client => (client.sendQueue.nodes.length : Int)).sum

/-- Both counters are exact. -/
structure ExactCounters (h : SelectClientHandle) : Prop where
  clients : h.testClientCount = h.clientSockArr.length
  entries : h.test.sendQueueSize = queued h.clientSockArr

/-- `select` does not fail while there are clients. -/
def SelectSucceeds (state : SelectClientHandle × SafeQueue QMClientState) :
    HandleEvent ω → Prop
  | .step (.poll .failed) => state.1.clientSockArr = []
  | _ => True

@[simp] theorem queued_nil : queued [] = 0 := rfl

@[simp] theorem queued_cons (client : Client) (clients : List Client) :
    queued (client :: clients) = client.sendQueue.nodes.length + queued clients := by
  simp [queued]

@[simp] theorem queued_append (front back : List Client) :
    queued (front ++ back) = queued front + queued back := by
  simp [queued]

/-! ## Deleting clients -/

/-- A deleted client takes its entries out of the counter. -/
theorem deleteClient_entries {client : Client} {others : Int}
    (htest : h.test.sendQueueSize = client.sendQueue.nodes.length + others)
    (hgone : (ClientSocket.close (client.enter () h.test)).sendQueue.nodes = []) :
    (h.deleteClient client).test.sendQueueSize = others := by
  have hentered : Endpoint.Tallied (client.enter () h.test) others := ⟨h.test, rfl, htest⟩
  obtain ⟨test, hclosed, hsize⟩ := ClientSocket.tallied_close _ hentered
  have htest' : (h.deleteClient client).test = test := by
    simp only [deleteClient, Client.counters, hclosed, Option.getD_some]
  rw [htest', hsize, hgone]
  simp

theorem deleteClient_entries_of_open {client : Client} {others : Int} (hopen : client.Open)
    (htest : h.test.sendQueueSize = client.sendQueue.nodes.length + others) :
    (h.deleteClient client).test.sendQueueSize = others := by
  have hentered := Client.enter_inv hopen.inv () h.test
  exact deleteClient_entries htest ((ClientSocket.close_spec hentered.send).2.2 hopen.sock).nodes

theorem deleteAll_entries {clients : List Client} (hopen : ∀ client ∈ clients, client.Open)
    {others : Int} (htest : h.test.sendQueueSize = queued clients + others) :
    (clients.foldl deleteClient h).test.sendQueueSize = others := by
  induction clients generalizing h with
  | nil => simpa using htest
  | cons client clients ih =>
      rw [List.forall_mem_cons] at hopen
      rw [queued_cons, Int.add_assoc] at htest
      exact ih hopen.2 (deleteClient_entries_of_open hopen.1 htest)

/-- `Close` leaves the counter of entries exact, whatever the other one is. -/
theorem close_entries (hopen : ∀ client ∈ h.clientSockArr, client.Open)
    (htest : h.test.sendQueueSize = queued h.clientSockArr) :
    h.close.test.sendQueueSize = queued h.close.clientSockArr :=
  deleteAll_entries hopen (htest.trans (Int.add_zero _).symm)

/-! ## Joins and turns -/

theorem ExactCounters.onJoin (hexact : h.ExactCounters) (fresh : Nat → Fresh) (sock : Socket) :
    (h.onJoin fresh sock).ExactCounters := by
  refine ⟨?_, ?_⟩
  · simp [SelectClientHandle.onJoin, hexact.clients]
  · simp [SelectClientHandle.onJoin, hexact.entries, Client.new, ClientSocket.new]

theorem ExactCounters.joinAll (hexact : h.ExactCounters) (fresh : Nat → Fresh)
    (socks : List Socket) : (h.joinAll fresh socks).ExactCounters := by
  unfold SelectClientHandle.joinAll
  induction socks generalizing h with
  | nil => exact hexact
  | cons sock socks ih => exact ih (hexact.onJoin fresh sock)

/-- A turn takes the client's queue along with the counter, and a client that
fails leaves an empty queue. -/
theorem turn_entries {client : Client} (hopen : client.Open) {others : Int}
    (htest : h.test.sendQueueSize = client.sendQueue.nodes.length + others) {fuel : Nat}
    {readable failed : Bool} {turn : ClientTurn ω} {s : ClientSocket ω}
    (hturn : ClientSocket.turn handle fuel readable turn.recv turn.send
      (client.enter turn.world h.test) = some (failed, s)) :
    (Client.counters s h.test).sendQueueSize =
        (Client.leave s).sendQueue.nodes.length + others ∧
      (failed = true → (Client.leave s).sock = invalidSocket ∧
        (Client.leave s).sendQueue.nodes = []) := by
  have hentered := Client.enter_inv hopen.inv turn.world h.test
  have hstart : Endpoint.Tallied (client.enter turn.world h.test) others := ⟨h.test, rfl, htest⟩
  obtain ⟨test, hlent, hsize⟩ := ClientSocket.tallied_turn hentered hstart hturn
  rw [Client.counters, hlent]
  refine ⟨hsize, ?_⟩
  rintro rfl
  have hnodes : s.sendQueue.nodes = [] :=
    ClientSocket.turn_failed_nodes hentered hopen.sock hturn
  refine ⟨?_, hnodes⟩
  cases (ClientSocket.turn_spec hentered hopen.sock hturn).2 with
  | closed hsock _ => exact hsock

/-- The destructor of a client that has been closed drops no entry. -/
theorem deleteClient_entries_of_closed {client : Client}
    (hclosed : client.sock = invalidSocket) (hnodes : client.sendQueue.nodes = []) {others : Int}
    (htest : h.test.sendQueueSize = client.sendQueue.nodes.length + others) :
    (h.deleteClient client).test.sendQueueSize = others := by
  apply deleteClient_entries htest
  have hsock : (client.enter () h.test).sock = invalidSocket := hclosed
  rw [ClientSocket.close, if_neg (not_not.mpr hsock)]
  exact hnodes

/-- The sweep, with the clients that have had their turn in front. -/
theorem sweep_counters {fuel : Nat} {fdRead : FdSet} {turns : Nat → ClientTurn ω}
    {rest done : List Client} {count : Nat} (hopen : ∀ client ∈ rest, client.Open)
    (hclients : h.testClientCount = (done ++ rest).length)
    (hentries : h.test.sendQueueSize = queued (done ++ rest))
    (hsweep : sweep handle fuel fdRead turns rest count done h = some next) :
    next.ExactCounters := by
  induction rest generalizing count done h with
  | nil =>
      cases hsweep
      rw [List.append_nil] at hclients hentries
      exact ⟨hclients, hentries⟩
  | cons client rest ih =>
      rw [List.forall_mem_cons] at hopen
      simp only [sweep] at hsweep
      split at hsweep
      next => cases hsweep
      next failed s hturn =>
        have hown : h.test.sendQueueSize =
            client.sendQueue.nodes.length + (queued done + queued rest) := by
          rw [hentries, queued_append, queued_cons]
          omega
        obtain ⟨htest, hclosed⟩ := turn_entries hopen.1 hown hturn
        cases failed with
        | false =>
            apply ih hopen.2 ?_ ?_ hsweep
            · simpa using hclients
            · simp only [queued_append, queued_cons, queued_nil, htest]
              omega
        | true =>
            obtain ⟨hsock, hnodes⟩ := hclosed rfl
            apply ih hopen.2 ?_ ?_ hsweep
            · simp only [List.length_append, List.length_cons] at hclients ⊢
              simp only [deleteClient]
              omega
            · rw [queued_append]
              exact deleteClient_entries_of_closed hsock hnodes htest

theorem ExactCounters.poll {fuel : Nat} {answer : PollAnswer ω} (hexact : h.ExactCounters)
    (hopen : ∀ client ∈ h.clientSockArr, client.Open)
    (hsucceeds : answer = .failed → h.clientSockArr = [])
    (hpoll : h.poll handle fuel answer = some next) : next.ExactCounters := by
  unfold SelectClientHandle.poll at hpoll
  split at hpoll
  next =>
    cases hpoll
    exact hexact
  next hsome =>
    cases answer with
    | failed => exact absurd (hsucceeds rfl) (by simpa using hsome)
    | ready readable turns =>
        obtain ⟨fdReadBackup, maxSock, hasChangeClient, hrebuild⟩ := h.rebuild_cases
        simp only [hrebuild] at hpoll
        exact sweep_counters hopen hexact.clients hexact.entries hpoll

/-! ## Every run -/

theorem ExactCounters.step {fuel : Nat} {label : HandleLabel ω}
    {queue' : SafeQueue QMClientState} (hexact : h.ExactCounters) {pushed : List Socket}
    (hholds : h.Holds queue pushed)
    (hsucceeds : SelectSucceeds (h, queue) (.step label))
    (hstep : h.step handle fuel label queue = some (next, queue')) : next.ExactCounters := by
  rcases step_cases hstep with ⟨_, _, _, hmoved⟩ | ⟨fresh, h', _, _, hdrain, rfl⟩ |
    ⟨answer, h', rfl, _, hpoll, rfl, _⟩
  · rcases hmoved with rfl | ⟨point, rfl⟩
    · exact ⟨hexact.clients, hexact.entries⟩
    · exact ⟨hexact.clients, hexact.entries⟩
  · obtain ⟨rfl, _⟩ := drain_spec hholds.joins hdrain
    have hjoined := hexact.joinAll fresh (queue.queue.nodes.map QMClientState.clientSock)
    exact ⟨hjoined.clients, hjoined.entries⟩
  · have hfailed : answer = .failed → h.clientSockArr = [] := by
      rintro rfl
      exact hsucceeds
    have hnext := hexact.poll hholds.serving.clients hfailed hpoll
    exact ⟨hnext.clients, hnext.entries⟩

theorem exactCounters_of_reachable {state : SelectClientHandle × SafeQueue QMClientState}
    (hreach : ((machine handle).restrict SelectSucceeds).Reachable state) :
    state.1.ExactCounters := by
  induction hreach with
  | start hinitial =>
      obtain ⟨handleID, id, rfl⟩ := hinitial
      exact ⟨rfl, rfl⟩
  | @next state later event hbefore hmove ih =>
      obtain ⟨hsucceeds, hstep⟩ := hmove
      cases event with
      | step label =>
          obtain ⟨pushed, hholds⟩ := (pollInv_of_reachable hbefore.of_restrict).holds
          obtain ⟨fuel, hstep⟩ := hstep
          exact ih.step hholds hsucceeds hstep
      | push clientSock =>
          obtain ⟨_, rfl⟩ := hstep
          exact ih
      | stop =>
          cases hstep
          exact ⟨ih.clients, ih.entries⟩

/-- In every run in which `select` does not fail over clients, both counters are
exact, whenever the outer loop starts and between its steps. -/
theorem counters_exact_unless_select_fails (handle : MsgHandle ω)
    {state : SelectClientHandle × SafeQueue QMClientState}
    (hreach : ((machine handle).restrict SelectSucceeds).Reachable state) :
    state.1.testClientCount = state.1.clientSockArr.length ∧
      state.1.test.sendQueueSize = queued state.1.clientSockArr :=
  ⟨(exactCounters_of_reachable hreach).clients, (exactCounters_of_reachable hreach).entries⟩

/-! ## Two clients -/

section First

/-- A handler of messages that answers nothing. -/
def silent : MsgHandle Unit := fun _ _ => ((), [])

/-- A handler that answers with a message longer than the send buffer, and the
message itself. -/
def lengthy : MsgHandle Unit := fun _ msg => ((), [.ofList [10, 80, 2, 0, 0, 0] 7, msg])

/-- Arrays that happen to hold zeros. -/
def zeroed : Nat → Fresh := fun _ => ⟨fun _ => 0, fun _ => 0, fun _ => 0⟩

/-- A pass in which the first client has sent a message, the second is gone, and
the kernel takes nothing. -/
def firstHeard : PollAnswer Unit :=
  .ready (fun _ => true) fun position =>
    ⟨(), if position = 0 then .data [6, 0, 2, 0, 0, 0] else .failed, fun _ => .notWritable⟩

/-- Two replies are queued for the one client that is left. -/
theorem counters_exact_two_replies : ∃ h : SelectClientHandle, h.adopted = [5, 6] ∧
    h.closesocket = [6] ∧ h.testClientCount = 1 ∧ h.test.sendQueueSize = 2 ∧
    h.testClientCount = h.clientSockArr.length ∧
    h.test.sendQueueSize = queued h.clientSockArr := by
  have hnew : ((machine lengthy).restrict SelectSucceeds).Reachable (new 0 0, .new) :=
    .start ⟨0, 0, rfl⟩
  have hpush := hnew.step_restrict (.push 5) trivial ⟨by decide, rfl⟩
  have hpush' := hpush.step_restrict (.push 6) trivial ⟨by decide, rfl⟩
  have htest := hpush'.step_restrict (.step .test) trivial ⟨0, rfl⟩
  obtain ⟨joined, hdrain, hpolls⟩ : ∃ joined, ((machine lengthy).restrict SelectSucceeds).Reachable
      joined ∧ (step lengthy 3 (.poll firstHeard) joined.1 joined.2).map (fun state =>
        (state.1.adopted, state.1.closesocket, state.1.testClientCount,
          state.1.test.sendQueueSize)) =
        some ([5, 6], [6], 1, 2) :=
    ⟨_, htest.step_restrict (.step (.drain zeroed)) trivial ⟨3, rfl⟩, by decide +kernel⟩
  obtain ⟨last, hpoll, hlast⟩ := Option.map_eq_some_iff.mp hpolls
  have hreach := hdrain.step_restrict (.step (.poll firstHeard)) trivial ⟨3, hpoll⟩
  simp only [Prod.mk.injEq] at hlast
  obtain ⟨hadopted, hclosed, hcount, hqueue⟩ := hlast
  exact ⟨last.1, hadopted, hclosed, hcount, hqueue,
    counters_exact_unless_select_fails lengthy hreach⟩

/-- After a failing `select` the handler has no clients and counts one. -/
theorem select_failure_keeps_count :
    ¬ ∀ state : SelectClientHandle × SafeQueue QMClientState,
      (machine silent).Reachable state → state.1.point = .test →
      state.1.testClientCount = state.1.clientSockArr.length ∧
        state.1.test.sendQueueSize = queued state.1.clientSockArr := by
  intro hall
  have hnew : (machine silent).Reachable (new 0 0, .new) := .start ⟨0, 0, rfl⟩
  have hpush := hnew.step (.push 5) ⟨by decide, rfl⟩
  have htest := hpush.step (.step .test) ⟨0, rfl⟩
  have hdrain := htest.step (.step (.drain zeroed)) ⟨2, rfl⟩
  have hfail := hdrain.step (.step (.poll .failed)) ⟨0, rfl⟩
  have hcount := (hall _ hfail rfl).1
  exact absurd hcount (by decide)

end First

end SelectNet.SelectClientHandle
