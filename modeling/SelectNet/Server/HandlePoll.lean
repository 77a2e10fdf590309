import SelectNet.Foundation.Machine
import SelectNet.Server.Handler

/-!
# What a handler asks select to poll

The handler's thread keeps the set of its clients' descriptors and makes it anew
only under `_hasChangeClient`. Drains and removals raise the flag. `Close` does
not, but leaves no client behind, so the set is not used again before the next
drain.
-/

namespace SelectNet.SelectClientHandle

variable {ω : Type} {handle : MsgHandle ω} {h next : SelectClientHandle}
  {queue : SafeQueue QMClientState}

/-! ## A handler on its own -/

/-- What happens to a handler: a step of its thread, a client that the main thread
pushes to its queue, and the end of its run. The descriptor of a new client may
be one that was closed before. -/
inductive HandleEvent (ω : Type) where
  | step (label : HandleLabel ω)
  | push (clientSock : Socket)
  | stop

def machine (handle : MsgHandle ω) :
    Machine (SelectClientHandle × SafeQueue QMClientState) (HandleEvent ω) where
  initial state := ∃ handleID id, state = (new handleID id, .new)
  step state event later :=
    match event with
    | .step label => ∃ fuel, state.1.step handle fuel label state.2 = some later
    | .push clientSock => clientSock ≠ invalidSocket ∧
        later = (state.1, state.2.push ⟨EClientState.join.code, clientSock⟩)
    | .stop => later = ({ state.1 with isRunging := false }, state.2)

/-- The thread stands before a call of `select`. -/
structure CallsSelect (h : SelectClientHandle) : Prop where
  point : h.point = .poll
  some : h.clientSockArr ≠ []

/-- A set and a maximum are those of some descriptors. -/
structure IsPollOf (socks : List Socket) (fdRead : FdSet) (maxSock : Socket) : Prop where
  set : fdRead = socks.toFinset
  mem : maxSock ∈ socks
  max : ∀ sock ∈ socks, sock ≤ maxSock

/-- The call of `select` polls exactly the clients. Each of them is open: nobody
has closed it, and its descriptor was accepted more often than it was passed to
`closesocket`. -/
structure PollsExactly (h : SelectClientHandle) : Prop where
  polls : IsPollOf h.socks h.rebuild.fdReadBackup h.rebuild.maxSock
  opened : ∀ client ∈ h.clientSockArr,
    client.Open ∧ h.closesocket.count client.sock < h.adopted.count client.sock

/-- Without a change to announce, the set that is kept is that of the clients,
unless there are none. -/
def Cached (h : SelectClientHandle) : Prop :=
  h.hasChangeClient = false → h.clientSockArr ≠ [] → IsPollOf h.socks h.fdReadBackup h.maxSock

/-! ## The set -/

theorem isPollOf_pollSet {front : Client} {rest : List Client}
    (harr : h.clientSockArr = front :: rest) :
    IsPollOf h.socks (Client.pollSet h.clientSockArr ∅ front.sock).1
      (Client.pollSet h.clientSockArr ∅ front.sock).2 := by
  have hbound : ∀ client ∈ h.clientSockArr,
      client.sock ≤ (Client.pollSet h.clientSockArr ∅ front.sock).2 :=
    (Client.pollSet_le.mp (Int.le_refl _)).2
  refine ⟨?_, ?_, ?_⟩
  · ext sock
    rw [Client.mem_pollSet]
    simp [socks]
  · rcases Client.pollSet_snd h.clientSockArr ∅ front.sock with hfront | hmem
    · rw [hfront, socks, harr]
      exact List.mem_cons_self
    · exact hmem
  · simpa [socks] using hbound

theorem rebuild_of_change {front : Client} {rest : List Client}
    (hchange : h.hasChangeClient = true) (harr : h.clientSockArr = front :: rest) :
    h.rebuild = { h with
      fdReadBackup := (Client.pollSet h.clientSockArr ∅ front.sock).1
      maxSock := (Client.pollSet h.clientSockArr ∅ front.sock).2
      hasChangeClient := false } := by
  unfold SelectClientHandle.rebuild
  rw [if_pos hchange]
  split
  next hnone => simp [hnone] at harr
  next front' rest' hsome =>
    cases hsome.symm.trans harr
    rfl

/-- Before `select` the set is made anew or still that of the clients. -/
theorem Cached.rebuild (hcached : h.Cached) (hsome : h.clientSockArr ≠ []) :
    h.rebuild.clientSockArr = h.clientSockArr ∧
      IsPollOf h.socks h.rebuild.fdReadBackup h.rebuild.maxSock := by
  by_cases hchange : h.hasChangeClient = true
  · obtain ⟨front, rest, harr⟩ := List.exists_cons_of_ne_nil hsome
    rw [rebuild_of_change hchange harr]
    exact ⟨rfl, isPollOf_pollSet harr⟩
  · have hsame : h.rebuild = h := if_neg hchange
    rw [hsame]
    exact ⟨rfl, hcached (by simpa using hchange) hsome⟩

/-! ## The sweep -/

/-- A sweep leaves the set alone, and raises the flag unless it keeps all clients. -/
theorem sweep_set {fuel : Nat} {fdRead : FdSet} {turns : Nat → ClientTurn ω}
    {rest done : List Client}
    {count : Nat} (hopen : ∀ client ∈ rest, client.Open)
    (hsweep : sweep handle fuel fdRead turns rest count done h = some next) :
    next.fdReadBackup = h.fdReadBackup ∧ next.maxSock = h.maxSock ∧
      (next.hasChangeClient = true ∨
        next.hasChangeClient = h.hasChangeClient ∧
          next.socks = (done ++ rest).map Endpoint.sock) := by
  induction rest generalizing count done h with
  | nil =>
      simp only [sweep, Option.some.injEq] at hsweep
      subst next
      simp [socks]
  | cons client rest ih =>
      rw [List.forall_mem_cons] at hopen
      simp only [sweep] at hsweep
      split at hsweep
      next => simp at hsweep
      next failed s hturn =>
        have hentered := Client.enter_inv hopen.1.inv (turns count).world h.test
        obtain ⟨_, hsettles⟩ := ClientSocket.turn_spec hentered hopen.1.sock hturn
        cases hsettles with
        | kept hsock _ =>
            have hsame : (Client.leave s).sock = client.sock := hsock
            simp only [Bool.false_eq_true, if_false] at hsweep
            have hrest := ih hopen.2 hsweep
            simpa [hsame] using hrest
        | closed =>
            simp only [if_true] at hsweep
            obtain ⟨hset, hmax, hchange⟩ := ih hopen.2 hsweep
            refine ⟨hset, hmax, Or.inl ?_⟩
            -- the flag was raised here, and no later removal takes it back
            rcases hchange with hraised | ⟨hraised, _⟩
            · exact hraised
            · exact hraised

theorem Cached.poll {fuel : Nat} {answer : PollAnswer ω} (hcached : h.Cached)
    (hopen : ∀ client ∈ h.clientSockArr, client.Open)
    (hpoll : h.poll handle fuel answer = some next) : next.Cached := by
  simp only [SelectClientHandle.poll] at hpoll
  split at hpoll
  next =>
    cases hpoll
    exact hcached
  next hsome =>
    obtain ⟨harr, hpolls⟩ := hcached.rebuild (by simpa using hsome)
    cases answer with
    | failed =>
        -- no client is left to poll
        cases hpoll
        intro _ hleft
        exact absurd rfl hleft
    | ready readable turns =>
        rw [← harr] at hopen
        obtain ⟨hset, hmax, hchange⟩ := sweep_set hopen hpoll
        intro hfalse _
        rcases hchange with hraised | ⟨_, hsocks⟩
        · simp [hraised] at hfalse
        · have hsame : next.socks = h.socks := by rw [hsocks, List.nil_append, harr]; rfl
          rw [hset, hmax, hsame]
          exact hpolls

/-! ## Every run -/

/-- What holds between the steps. -/
structure PollInv (state : SelectClientHandle × SafeQueue QMClientState) : Prop where
  holds : ∃ pushed, state.1.Holds state.2 pushed
  cached : state.1.Cached

theorem new_pollInv (handleID id : Nat) : PollInv (new handleID id, .new) := by
  refine ⟨⟨[], ?_⟩, ?_⟩
  · refine ⟨?_, MyQueue.new_counted, rfl, ⟨List.Sublist.refl _, List.Perm.refl _, ?_⟩, ?_⟩
    · simp [SafeQueue.new]
    · simp [new]
    · simp
  · simp [Cached, new]

theorem PollInv.step {fuel : Nat} {label : HandleLabel ω} {queue' : SafeQueue QMClientState}
    (hinv : PollInv (h, queue)) (hstep : h.step handle fuel label queue = some (next, queue')) :
    PollInv (next, queue') := by
  obtain ⟨⟨pushed, hholds⟩, hcached⟩ := hinv
  refine ⟨⟨pushed, (hholds.step hstep).1⟩, ?_⟩
  rcases step_cases hstep with ⟨_, _, _, hmoved⟩ | ⟨fresh, h', _, _, hdrain, rfl⟩ |
    ⟨answer, h', _, _, hpoll, rfl, _⟩
  · rcases hmoved with rfl | ⟨point, rfl⟩
    · exact hcached
    · exact hcached
  · obtain ⟨rfl, _⟩ := drain_spec hholds.joins hdrain
    intro hfalse
    simp at hfalse
  · have hnext := hcached.poll hholds.serving.clients hpoll
    exact hnext

theorem pollInv_of_reachable {state : SelectClientHandle × SafeQueue QMClientState}
    (hreach : (machine handle).Reachable state) : PollInv state := by
  refine Machine.Reachable.invariant ?_ ?_ hreach
  · intro state hinitial
    obtain ⟨handleID, id, rfl⟩ := hinitial
    exact new_pollInv handleID id
  · intro state event later hinv hstep
    cases event with
    | step label =>
        obtain ⟨fuel, hstep⟩ := hstep
        exact hinv.step hstep
    | push clientSock =>
        obtain ⟨hsock, rfl⟩ := hstep
        obtain ⟨pushed, hholds⟩ := hinv.holds
        exact ⟨⟨_, hholds.push hsock⟩, hinv.cached⟩
    | stop =>
        cases hstep
        obtain ⟨pushed, hholds⟩ := hinv.holds
        have hserving : Serving { state.1 with isRunging := false } state.1.clientSockArr :=
          ⟨hholds.serving.listed, hholds.serving.placed, hholds.serving.clients⟩
        exact ⟨⟨pushed, ⟨hholds.joins, hholds.counted, hholds.order, hserving, hholds.valid⟩⟩,
          hinv.cached⟩

/-- A listed client's descriptor was adopted once more than it was closed. -/
theorem Serving.count_lt (hserving : h.Serving h.clientSockArr) {client : Client}
    (hmem : client ∈ h.clientSockArr) :
    h.closesocket.count client.sock < h.adopted.count client.sock := by
  have hplaced := hserving.placed.count_eq client.sock
  rw [List.count_append] at hplaced
  have hlisted : 0 < (h.clientSockArr.map Endpoint.sock).count client.sock :=
    List.count_pos_iff.mpr (List.mem_map_of_mem hmem)
  omega

/-- At every call of `select` in every run the handler polls exactly its clients,
all of them open. -/
theorem polls_exactly_clients {state : SelectClientHandle × SafeQueue QMClientState}
    (hreach : (machine handle).Reachable state) (hselect : state.1.CallsSelect) :
    state.1.PollsExactly := by
  obtain ⟨⟨pushed, hholds⟩, hcached⟩ := pollInv_of_reachable hreach
  obtain ⟨_, hpolls⟩ := hcached.rebuild hselect.some
  refine ⟨hpolls, ?_⟩
  intro client hmem
  exact ⟨hholds.serving.clients client hmem, hholds.serving.count_lt hmem⟩

/-- A failing `select` closes descriptor 5; then it comes back for a new client,
and is polled for that one. -/
theorem polls_reused_descriptor :
    ∃ h : SelectClientHandle, h.adopted = [5, 5] ∧ h.closesocket = [5] ∧ h.PollsExactly := by
  let quiet : MsgHandle Unit := fun _ _ => ((), [])
  let fresh : Nat → Fresh := fun _ => ⟨fun _ => 0, fun _ => 0, fun _ => 0⟩
  have hnew : (machine quiet).Reachable (new 0 0, .new) := .start ⟨0, 0, rfl⟩
  have hpush := hnew.step (.push 5) ⟨by decide, rfl⟩
  have htest := hpush.step (.step .test) ⟨0, rfl⟩
  have hdrain := htest.step (.step (.drain fresh)) ⟨2, rfl⟩
  have hfail := hdrain.step (.step (.poll .failed)) ⟨0, rfl⟩
  have hagain := hfail.step (.push 5) ⟨by decide, rfl⟩
  have htest' := hagain.step (.step .test) ⟨0, rfl⟩
  have hdrain' := htest'.step (.step (.drain fresh)) ⟨2, rfl⟩
  exact ⟨_, rfl, rfl, polls_exactly_clients hdrain' ⟨rfl, List.cons_ne_nil _ _⟩⟩

end SelectNet.SelectClientHandle
