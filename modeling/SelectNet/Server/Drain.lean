import SelectNet.Server.Handler

/-!
# Draining the state queue

Each entry of the queue is to be applied to the list of clients, in order. The
loop of a `Leave` entry does not move on from a client that is not the one it
looks for, so it deletes the first client or nobody, and otherwise never ends,
with the queue locked.
-/

namespace SelectNet

/-- What a `Join` or `Leave` entry is to make of the clients' descriptors. -/
def applyEntry (socks : List Socket) (entry : QMClientState) : List Socket :=
  if entry.type = EClientState.join.code then socks ++ [entry.clientSock]
  else if entry.type = EClientState.leave.code then socks.erase entry.clientSock
  else socks

/-- The list of clients that entries, applied in order, make of another: `Join`
appends a new client, `Leave` deletes the one with its descriptor, if there is
one, and nothing else changes. -/
inductive Applies : List Client → List QMClientState → List Client → Prop where
  | done {clients : List Client} : Applies clients [] clients
  | join {clients last : List Client} {entry : QMClientState} {rest : List QMClientState}
      {fresh : Fresh} {test : TestCounters} (hjoin : entry.type = EClientState.join.code)
      (hrest : Applies (clients ++ [Client.new entry.clientSock fresh test]) rest last) :
      Applies clients (entry :: rest) last
  | leave {clients last : List Client} {entry : QMClientState} {rest : List QMClientState}
      (hleave : entry.type = EClientState.leave.code)
      (hrest : Applies (clients.eraseP fun client => client.sock = entry.clientSock) rest last) :
      Applies clients (entry :: rest) last
  | unknow {clients last : List Client} {entry : QMClientState} {rest : List QMClientState}
      (hjoin : entry.type ≠ EClientState.join.code) (hleave : entry.type ≠ EClientState.leave.code)
      (hrest : Applies clients rest last) : Applies clients (entry :: rest) last

/-- A `Leave` entry finds its client first in the list, or finds no clients. -/
def AtFront (socks : List Socket) (entry : QMClientState) : Prop :=
  entry.type = EClientState.leave.code → socks = [] ∨ socks.head? = some entry.clientSock

/-- Every `Leave` entry does when its turn comes. -/
def LeavesAtFront : List Socket → List QMClientState → Prop
  | _, [] => True
  | socks, entry :: rest => AtFront socks entry ∧ LeavesAtFront (applyEntry socks entry) rest

namespace SelectClientHandle

variable {h next : SelectClientHandle} {queue queue' : SafeQueue QMClientState}
  {entry : QMClientState} {entries : List QMClientState} {fresh : Nat → Fresh} {fuel : Nat}

/-- The drain returns, the clients are those that the entries in order make of the
list, and the queue is empty with size 0. It returns behind `unlock`. -/
def DrainsInOrder (h : SelectClientHandle) (fresh : Nat → Fresh)
    (queue : SafeQueue QMClientState) : Prop :=
  ∃ fuel next queue', h.drain fuel fresh queue = some (next, queue') ∧
    Applies h.clientSockArr queue.queue.nodes next.clientSockArr ∧
    queue'.queue.nodes = [] ∧ queue'.queue.size = 0

/-! ## A Leave entry -/

/-- The loop stands still in front of another client. -/
theorem leavePass_stuck {client : Client} {rest : List Client} {clientSock : Socket}
    (harr : h.clientSockArr = client :: rest) (hother : client.sock ≠ clientSock) :
    ¬ Loop.Ends (leavePass clientSock) (0, h) := by
  have hagain : leavePass clientSock (0, h) = .again (0, h) := by
    simp [leavePass, harr, hother]
  have htrap : ∀ state, state = (0, h) →
      ∃ next, leavePass clientSock state = .again next ∧ next = (0, h) := by
    intro state hstate
    exact ⟨(0, h), by rw [hstate, hagain], rfl⟩
  exact Loop.not_ends_of_trap htrap rfl

/-- So it ends without clients or with the first one deleted. -/
theorem leave_cases {clientSock : Socket}
    (hrun : Loop.run (leavePass clientSock) fuel (0, h) = some next) :
    h.clientSockArr = [] ∧ next.clientSockArr = [] ∨
    ∃ client rest, h.clientSockArr = client :: rest ∧ client.sock = clientSock ∧
      next.clientSockArr = rest := by
  cases harr : h.clientSockArr with
  | nil =>
      have hleave : leavePass clientSock (0, h) = .leave h := by simp [leavePass, harr]
      have hyields : Loop.Yields (leavePass clientSock) (0, h) next := ⟨fuel, hrun⟩
      rw [hyields.unique (.of_leave hleave)]
      exact Or.inl ⟨rfl, harr⟩
  | cons client rest =>
      by_cases hsock : client.sock = clientSock
      · have hleave : ∃ last, leavePass clientSock (0, h) = .leave last ∧
            last.clientSockArr = rest := by simp [leavePass, harr, hsock]
        obtain ⟨last, hleave, hrest⟩ := hleave
        have hyields : Loop.Yields (leavePass clientSock) (0, h) next := ⟨fuel, hrun⟩
        rw [hyields.unique (.of_leave hleave)]
        exact Or.inr ⟨client, rest, rfl, hsock, hrest⟩
      · exact absurd ⟨next, fuel, hrun⟩ (leavePass_stuck harr hsock)

/-- At the front one pass is enough. -/
theorem leave_ends (fuel : Nat) {clientSock : Socket}
    (hfront : h.socks = [] ∨ h.socks.head? = some clientSock) :
    ∃ next, Loop.run (leavePass clientSock) (fuel + 1) (0, h) = some next := by
  cases harr : h.clientSockArr with
  | nil =>
      have hleave : leavePass clientSock (0, h) = .leave h := by simp [leavePass, harr]
      exact ⟨h, Loop.run_of_leave hleave fuel⟩
  | cons client rest =>
      have hsock : client.sock = clientSock := by simpa [socks, harr] using hfront
      have hleave : ∃ last, leavePass clientSock (0, h) = .leave last := by
        simp [leavePass, harr, hsock]
      obtain ⟨last, hleave⟩ := hleave
      exact ⟨last, Loop.run_of_leave hleave fuel⟩

/-! ## One entry -/

/-- An entry that is done with was at the front, and has been applied. -/
theorem onState_spec (hstate : h.onState fuel fresh entry queue = some (next, queue')) :
    AtFront h.socks entry ∧ queue'.it = queue.it ∧ next.socks = applyEntry h.socks entry ∧
      ∀ rest last, Applies next.clientSockArr rest last →
        Applies h.clientSockArr (entry :: rest) last := by
  have hcodes : EClientState.join.code ≠ EClientState.leave.code := by decide
  unfold onState at hstate
  unfold AtFront applyEntry
  split at hstate
  next hjoin =>
    simp only [Option.some.injEq, Prod.mk.injEq] at hstate
    obtain ⟨rfl, rfl⟩ := hstate
    refine ⟨fun hleave => absurd (hjoin.symm.trans hleave) hcodes, rfl, ?_, ?_⟩
    · simp [socks, onJoin, hjoin, Client.new, ClientSocket.new]
    · intro rest last hrest
      exact .join hjoin hrest
  next hjoin =>
    rw [if_neg hjoin]
    split at hstate
    next hleave =>
      obtain ⟨last, hrun, hresult⟩ := Option.map_eq_some_iff.mp hstate
      cases hresult
      rw [if_pos hleave]
      rcases leave_cases hrun with ⟨hnone, hleft⟩ | ⟨client, rest, harr, hsock, hleft⟩
      · refine ⟨fun _ => Or.inl ?_, rfl, ?_, ?_⟩
        · simp [socks, hnone]
        · simp [socks, hnone, hleft]
        · intro rest last hrest
          refine .leave hleave ?_
          rw [hnone]
          rwa [hleft] at hrest
      · refine ⟨fun _ => Or.inr ?_, rfl, ?_, ?_⟩
        · simp [socks, harr, hsock]
        · simp [socks, harr, hsock, hleft]
        · intro rest' last hrest
          refine .leave hleave ?_
          rw [harr, List.eraseP_cons_of_pos (by simpa using hsock)]
          rwa [hleft] at hrest
    next hleave =>
      simp only [Option.some.injEq, Prod.mk.injEq] at hstate
      obtain ⟨rfl, rfl⟩ := hstate
      rw [if_neg hleave]
      exact ⟨fun hother => absurd hother hleave, rfl, rfl,
        fun _ _ hrest => .unknow hjoin hleave hrest⟩

theorem onState_ends (fuel : Nat) (fresh : Nat → Fresh) (queue : SafeQueue QMClientState)
    (hfront : AtFront h.socks entry) :
    ∃ next queue', h.onState (fuel + 1) fresh entry queue = some (next, queue') := by
  unfold onState
  split
  next => exact ⟨_, _, rfl⟩
  next =>
    split
    next hleave =>
      obtain ⟨next, hrun⟩ := leave_ends fuel (hfront hleave)
      rw [hrun]
      exact ⟨_, _, rfl⟩
    next => exact ⟨_, _, rfl⟩

/-! ## All entries -/

/-- A loop over entries that comes to its end has applied them all, and found each
`Leave` at the front. -/
theorem drainFrom_spec {passes : Nat} (hit : queue.it = entries)
    (hrun : Loop.run (drainPass fuel fresh) passes (h, queue) = some (some (next, queue'))) :
    LeavesAtFront h.socks entries ∧ Applies h.clientSockArr entries next.clientSockArr := by
  induction entries generalizing h queue passes with
  | nil =>
      have hyields : Loop.Yields (drainPass fuel fresh) (h, queue) _ := ⟨passes, hrun⟩
      cases hyields.unique (.of_leave (drainPass_nil hit))
      exact ⟨trivial, .done⟩
  | cons entry rest ih =>
      have hyields : Loop.Yields (drainPass fuel fresh) (h, queue) _ := ⟨passes, hrun⟩
      have hpass := drainPass_cons h fuel fresh hit
      cases hstate : h.onState fuel fresh entry queue with
      | none =>
          simp only [hstate] at hpass
          cases hyields.unique (.of_leave hpass)
      | some result =>
          obtain ⟨middle, queue''⟩ := result
          simp only [hstate] at hpass
          obtain ⟨hfront, hcursor, hsocks, happlies⟩ := onState_spec hstate
          obtain ⟨passes, hrest⟩ := (Loop.yields_iff_of_again hpass).mp hyields
          have hmoved : queue''.next.it = rest := by rw [SafeQueue.next, hcursor, hit]; rfl
          obtain ⟨hall, hlast⟩ := ih hmoved hrest
          exact ⟨⟨hfront, hsocks ▸ hall⟩, happlies _ _ hlast⟩

/-- With every `Leave` at the front the loop comes to its end. -/
theorem drainFrom_ends {passes : Nat} (hit : queue.it = entries)
    (hfront : LeavesAtFront h.socks entries) (hpasses : entries.length < passes) :
    ∃ last, Loop.run (drainPass (fuel + 1) fresh) passes (h, queue) = some (some last) := by
  induction entries generalizing h queue passes with
  | nil =>
      obtain ⟨passes, rfl⟩ : ∃ n, passes = n + 1 := ⟨passes - 1, by omega⟩
      exact ⟨_, Loop.run_of_leave (drainPass_nil hit) passes⟩
  | cons entry rest ih =>
      obtain ⟨passes, rfl⟩ : ∃ n, passes = n + 1 := ⟨passes - 1, by omega⟩
      obtain ⟨middle, queue'', hstate⟩ := onState_ends fuel fresh queue hfront.1
      have hpass := drainPass_cons h (fuel + 1) fresh hit
      simp only [hstate] at hpass
      obtain ⟨_, hcursor, hsocks, _⟩ := onState_spec hstate
      have hmoved : queue''.next.it = rest := by rw [SafeQueue.next, hcursor, hit]; rfl
      rw [Loop.run_of_again hpass]
      rw [List.length_cons] at hpasses
      exact ih hmoved (hsocks ▸ hfront.2) (by omega)

/-- Where some `Leave` is not at the front the thread never leaves the drain, and
never unlocks the queue. -/
theorem drain_hangs (hfront : ¬ LeavesAtFront h.socks queue.queue.nodes) (fuel : Nat) :
    h.drain fuel fresh queue = none := by
  unfold drain
  split
  next last queue' hrun =>
    have hit : queue.begin.it = queue.queue.nodes := rfl
    exact absurd (drainFrom_spec hit hrun).1 hfront
  next => rfl

/-- The drain applies its entries in order exactly if every `Leave` is for the
first client, or for none of none. -/
theorem drains_iff_leaves_at_front (h : SelectClientHandle) (fresh : Nat → Fresh)
    (queue : SafeQueue QMClientState) :
    h.DrainsInOrder fresh queue ↔ LeavesAtFront h.socks queue.queue.nodes := by
  constructor
  · intro hdrains
    obtain ⟨fuel, next, queue', hdrain, _⟩ := hdrains
    by_contra hfront
    simp [drain_hangs hfront] at hdrain
  · intro hfront
    have hit : queue.begin.it = queue.queue.nodes := rfl
    obtain ⟨fuel, hfuel⟩ : ∃ fuel, fuel = queue.queue.nodes.length := ⟨_, rfl⟩
    obtain ⟨⟨last, queue'⟩, hrun⟩ : ∃ last, Loop.run (drainPass (fuel + 1) fresh) (fuel + 1)
        (h, queue.begin) = some (some last) :=
      drainFrom_ends hit hfront (hfuel ▸ Nat.lt_succ_self _)
    have happlies := (drainFrom_spec hit hrun).2
    refine ⟨fuel + 1, { last with hasChangeClient := true }, queue'.clear,
      ?_, happlies, rfl, rfl⟩
    simp only [drain, hrun]

/-- A `Leave` for the second of two clients. -/
theorem leave_of_second_hangs :
    let fresh : Fresh := ⟨fun _ => 0, fun _ => 0, fun _ => 0⟩
    let h := { new 0 0 with
      clientSockArr := [Client.new 5 fresh .zero, Client.new 7 fresh .zero] }
    ¬ h.DrainsInOrder (fun _ => fresh) (SafeQueue.new.push ⟨EClientState.leave.code, 7⟩) := by
  intro fresh h hdrains
  obtain ⟨fuel, next, queue', hdrain, _⟩ := hdrains
  have hfront : ¬ LeavesAtFront h.socks
      (SafeQueue.new.push ⟨EClientState.leave.code, 7⟩).queue.nodes := by
    intro hfront
    rcases hfront.1 rfl with hnone | hfirst
    · simp [socks, h] at hnone
    · simp [socks, h, Client.new, ClientSocket.new] at hfirst
  simp [drain_hangs hfront] at hdrain

end SelectClientHandle

end SelectNet
