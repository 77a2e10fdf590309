import SelectNet.Server.Adoption

/-!
# What a shutdown closes

`Close` stops and deletes the handlers one after the other, while those behind
go on draining and sweeping, and then deletes the queues. What a handler adopted
is closed with its client; an entry still in a queue is dropped with its socket
open.
-/

namespace SelectNet.SelectServerThread

variable {ω : Type} {s next : SelectServerThread} {handle : MsgHandle ω}

/-- Every socket that `accept` returned has been passed to `closesocket` exactly
once: as often as it was returned. -/
def ClosedOnce (s : SelectServerThread) : Prop :=
  ∀ sock, s.released.count sock = s.accepted.count sock

/-- No entry is left in a queue that is not deleted yet. -/
def QueuesEmpty (s : SelectServerThread) : Prop :=
  ∀ id queue, s.queue id = some queue → queue.queue.nodes = []

theorem waiting_eq_nil_iff (s : SelectServerThread) : s.waiting = [] ↔ s.QueuesEmpty := by
  simp only [waiting, List.flatMap_eq_nil_iff]
  constructor
  · intro hnone id queue hqueue
    have hnil := hnone _ (List.mem_of_getElem? (getElem?_of_queue hqueue))
    exact List.map_eq_nil_iff.mp hnil
  · intro hempty entry hmem
    cases entry with
    | none => rfl
    | some queue =>
        obtain ⟨id, hlt, hat⟩ := List.getElem_of_mem hmem
        have hqueue : s.queue id = some queue := by
          rw [SelectServerThread.queue, List.getElem?_eq_getElem hlt, hat]
          rfl
        exact List.map_eq_nil_iff.mpr (hempty id queue hqueue)

/-- A shutdown leaves open exactly the sockets of the entries it drops. -/
theorem closed_once_iff_drained (handle : MsgHandle ω) (hreach : (machine handle).Reachable s)
    (hend : (machine handle).step s .deleteQueues next) :
    next.ClosedOnce ↔ s.QueuesEmpty := by
  have hinv := inv_of_reachable hreach
  obtain ⟨_, hstep⟩ := hend
  obtain ⟨queues, rfl, hlive, hclients, _, _⟩ := deleteQueues_cases hinv hstep
  obtain ⟨hreleased, _, hcount⟩ := hinv.account hlive
  have hserved : s.served = [] := by
    apply List.flatMap_eq_nil_iff.mpr
    intro h hmem
    rw [hclients h hmem]
    rfl
  have hadopted := adopted_perm hinv.handles
  rw [hserved, List.nil_append] at hadopted
  have hclosed : ClosedOnce { s with
      queues
      clientHandleArr := []
      point := .idle
      released := s.released ++ s.clientHandleArr.flatMap SelectClientHandle.closesocket } ↔
      ∀ sock, s.waiting.count sock = 0 := by
    apply forall_congr'
    intro sock
    have hbalance := hcount sock
    have hsame := hadopted.count_eq sock
    simp only [hreleased, List.nil_append]
    change s.removed.count sock = s.accepted.count sock ↔ _
    omega
  rw [hclosed, ← waiting_eq_nil_iff, List.eq_nil_iff_forall_not_mem]
  simp only [List.count_eq_zero]

/-! ## One client, shut down before and after its adoption -/

section First

/-- A handler of messages that answers nothing. -/
def quiet : MsgHandle Unit := fun _ _ => ((), [])

theorem firstAccepted_reached :
    (machine quiet).Reachable firstAccepted :=
  (firstAccepted_reachable quiet).of_restrict

/-- `Close` before the handler has looked at its queue leaks the client. -/
theorem shutdown_leaks : ¬ ∀ s next : SelectServerThread,
    (machine quiet).Reachable s →
    (machine quiet).step s .deleteQueues next → next.ClosedOnce := by
  intro hall
  have hclose := firstAccepted_reached.step .close ⟨0, rfl⟩
  have hstop := hclose.step .stopHandle ⟨0, rfl⟩
  have hstopped := hstop.step (.handle 0 .test) ⟨0, rfl⟩
  have hdelete := hstopped.step .deleteHandle ⟨0, rfl⟩
  have hcount := hall _ _ hdelete ⟨0, rfl⟩ 5
  exact absurd hcount (by decide)

/-- With the handler's drain before it, the client is closed. -/
theorem shutdown_closes : ∃ s next : SelectServerThread, next.accepted = [5] ∧
    (next.ClosedOnce ↔ s.QueuesEmpty) ∧ s.QueuesEmpty := by
  let fresh : Nat → Fresh := fun _ => ⟨fun _ => 0, fun _ => 0, fun _ => 0⟩
  have htest := firstAccepted_reached.step (.handle 0 .test) ⟨0, rfl⟩
  have hdrain := htest.step (.handle 0 (.drain fresh)) ⟨2, rfl⟩
  have hclose := hdrain.step .close ⟨0, rfl⟩
  have hstop := hclose.step .stopHandle ⟨0, rfl⟩
  have hpoll := hstop.step (.handle 0 (.poll .failed)) ⟨0, rfl⟩
  have hstopped := hpoll.step (.handle 0 .test) ⟨0, rfl⟩
  have hdelete := hstopped.step .deleteHandle ⟨0, rfl⟩
  refine ⟨_, _, rfl, closed_once_iff_drained quiet hdelete ⟨0, rfl⟩, ?_⟩
  intro id queue hqueue
  cases id with
  | zero =>
      cases hqueue
      rfl
  | succ id => cases hqueue

end First

end SelectNet.SelectServerThread
