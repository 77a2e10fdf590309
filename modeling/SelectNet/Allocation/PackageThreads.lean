import SelectNet.Allocation.RecvBuffers
import SelectNet.Connection.RecvThreads

/-!
# Received packages across threads

The receiver allocates a buffer and queues it, the handler pops it and frees it, and
`Close` frees what it finds in the queue. Besides the queue, each of the two threads
may have one buffer in hand.
-/

namespace SelectNet

namespace SelectClientThread

variable {client : SelectClientThread} {hands : List (Nat × Nat)}

theorem sized_of_mem {stream : List Byte} {msg : Package}
    (hmem : msg.bytes ∈ (headRule.parse stream).frames)
    (hlong : ∀ frame ∈ (headRule.parse stream).frames, 2 ≤ frame.length) : Sized msg :=
  sized_of_frame (hlong _ hmem) (ushort_of_mem_frames hmem (hlong _ hmem))
    (length_le_of_mem_frames hmem)

/-- Everything that is queued is freed with its size; what is held besides stays. -/
theorem dropMsgs_accounts {msgs : List Package} (hnodes : client.ext.recvQueue.nodes = msgs)
    (hsized : ∀ msg ∈ msgs, Sized msg)
    (haccounts : client.memoryPool.Accounts (received client.ext ++ hands)) :
    (msgs.foldl dropMsg client).memoryPool.Accounts hands ∧
      (msgs.foldl dropMsg client).sendQueue = client.sendQueue := by
  induction msgs generalizing client with
  | nil =>
      rw [received, hnodes] at haccounts
      exact ⟨haccounts, rfl⟩
  | cons msg rest ih =>
      obtain ⟨hmsg, hrest⟩ := List.forall_mem_cons.mp hsized
      have hdropped : (dropMsg client msg).ext.recvQueue.nodes = rest := by
        rw [dropMsg, MyQueue.pop_of_cons hnodes]
      have hfreed : (dropMsg client msg).memoryPool.Accounts
          (received (dropMsg client msg).ext ++ hands) := by
        rw [received, hnodes, List.map_cons, List.cons_append] at haccounts
        rw [received, hdropped, dropMsg, hmsg.1]
        exact haccounts.free
      exact ih hdropped hrest hfreed

/-- `Close` keeps the balance with what the threads have in hand. -/
theorem close_accounts (hunsent : client.sendQueue.nodes = [])
    (hsized : ∀ msg ∈ client.ext.recvQueue.nodes, Sized msg)
    (haccounts : client.memoryPool.Accounts (received client.ext ++ hands)) :
    client.close.sendQueue.nodes = [] ∧
      client.close.memoryPool.Accounts (received client.close.ext ++ hands) := by
  by_cases hopen : client.sock = invalidSocket
  · rw [ReceiveThreads.close_of_closed hopen]
    exact ⟨hunsent, haccounts⟩
  · have hshut : client.shut.ext.recvQueue.nodes = client.ext.recvQueue.nodes := rfl
    obtain ⟨hdropped, hsame⟩ := dropMsgs_accounts hshut hsized haccounts
    have hnodes := (ReceiveThreads.close_client hopen).2.2.2.2.2.2.1
    have hnone : (client.ext.recvQueue.nodes.foldl dropMsg client.shut).sendQueue.nodes = [] :=
      (congrArg MyQueue.nodes hsame).trans hunsent
    have hcleared : clearQueue client.shut =
        client.ext.recvQueue.nodes.foldl dropMsg client.shut := by
      rw [clearQueue, Endpoint.clearSendQueue, show client.shut.ext = client.ext from rfl, hnone]
      rfl
    rw [received, hnodes, close, if_pos hopen, hcleared]
    exact ⟨hnone, hdropped⟩

end SelectClientThread

namespace ReceiveThreads

open SelectClientThread (Sized)

/-- The buffer that is allocated and not queued yet. -/
def receiverHand : ReceivePoint → List (Nat × Nat)
  | .readBytes unit msgLen => [(unit, msgLen)]
  | .push package => [(package.unit, package.bytes.length)]
  | _ => []

/-- The buffer that is popped and not freed yet. -/
def handlerHand : OnRunPoint → List (Nat × Nat)
  | .copy (some msg) | .free msg => [(msg.unit, msg.bytes.length)]
  | _ => []

/-- The buffers that are queued or in a thread's hand, as they were allocated. -/
def held (s : ReceiveThreads) : List (Nat × Nat) :=
  SelectClientThread.received s.client.ext ++ (receiverHand s.receiver ++ handlerHand s.handler)

/-- What was allocated is what was freed and what is held. -/
structure Owned (s : ReceiveThreads) : Prop where
  unsent : s.client.sendQueue.nodes = []
  accounts : s.client.memoryPool.Accounts s.held
  freeing : ∀ msg, s.handler = .free msg → Sized msg

variable {s t : ReceiveThreads} {frames : List (List Byte)}

/-- An action that touches neither the pool nor what is held. -/
theorem Owned.still (howned : Owned s) (hpool : t.client.memoryPool = s.client.memoryPool)
    (hunsent : t.client.sendQueue = s.client.sendQueue) (hheld : t.held = s.held)
    (hfreeing : ∀ msg, t.handler = .free msg → Sized msg) : Owned t :=
  ⟨hunsent ▸ howned.unsent, hpool ▸ hheld ▸ howned.accounts, hfreeing⟩

/-- The receiver moves between two points where it has nothing in hand. -/
theorem Owned.recvAt (howned : Owned s) (hpool : t.client.memoryPool = s.client.memoryPool)
    (hunsent : t.client.sendQueue = s.client.sendQueue) (hext : t.client.ext = s.client.ext)
    (hhandler : t.handler = s.handler) (hhand : receiverHand t.receiver = receiverHand s.receiver) :
    Owned t := by
  refine howned.still hpool hunsent ?_ ?_
  · rw [held, held, hext, hhandler, hhand]
  · rw [hhandler]
    exact howned.freeing

/-- `Alloc`: the buffer is in the receiver's hand. -/
theorem Owned.alloc (howned : Owned s) {msgLen : Nat} (hpoint : s.receiver = .alloc msgLen) :
    Owned (processorRecv s) := by
  have haccounts := howned.accounts.alloc msgLen
  simp only [held, hpoint, receiverHand, List.nil_append] at haccounts
  simp only [processorRecv, hpoint]
  refine ⟨howned.unsent, haccounts.perm ?_, howned.freeing⟩
  rw [List.append_assoc]
  exact List.perm_append_comm.append_left _

/-- The buffer is filled. -/
theorem Owned.readBytes (howned : Owned s) {unit msgLen : Nat}
    (hpoint : s.receiver = .readBytes unit msgLen)
    (halive : (readBytes s unit msgLen).receiver ≠ .aborted) :
    Owned (readBytes s unit msgLen) := by
  unfold ReceiveThreads.readBytes at halive ⊢
  split at halive
  next => exact absurd rfl halive
  next hbuffer =>
    rw [if_neg hbuffer]
    split at halive
    next => exact absurd rfl halive
    next bytes oRecv hread =>
      have hlen : bytes.length = msgLen := by
        rw [OBuffer.readBytes] at hread
        split at hread
        next => cases hread
        next =>
          cases hread
          simp
      refine howned.recvAt rfl rfl rfl rfl ?_
      simp only [hpoint, receiverHand, hlen]

/-- The buffer goes from the receiver's hand into the queue. -/
theorem Owned.push (howned : Owned s) {package : Package} (hpoint : s.receiver = .push package) :
    Owned (processorRecv s) := by
  have haccounts := howned.accounts
  simp only [held, hpoint, receiverHand] at haccounts
  simp only [processorRecv, hpoint]
  refine ⟨howned.unsent, ?_, howned.freeing⟩
  simp only [held, receiverHand, SelectClientThread.received, MyQueue.push_nodes, List.map_append,
    List.map_singleton, List.append_assoc, List.nil_append]
  exact haccounts

/-- The other actions of `ProcessorRecv` leave the pool and the queue alone. -/
theorem Owned.processorRecv (howned : Owned s)
    (halive : (ReceiveThreads.processorRecv s).receiver ≠ .aborted) :
    Owned (ReceiveThreads.processorRecv s) := by
  cases hpoint : s.receiver with
  | alloc msgLen => exact howned.alloc hpoint
  | push package => exact howned.push hpoint
  | readBytes unit msgLen =>
      simp only [ReceiveThreads.processorRecv, hpoint] at halive ⊢
      exact howned.readBytes hpoint halive
  | canRead =>
      simp only [ReceiveThreads.processorRecv, hpoint]
      split <;> exact howned.recvAt rfl rfl rfl rfl (by rw [hpoint]; rfl)
  | readUShort canReadSize =>
      simp only [ReceiveThreads.processorRecv, hpoint]
      split
      next => exact howned.recvAt rfl rfl rfl rfl (by rw [hpoint]; rfl)
      next => split <;> exact howned.recvAt rfl rfl rfl rfl (by rw [hpoint]; rfl)
  | moveBack canReadSize msgLen =>
      simp only [ReceiveThreads.processorRecv, hpoint]
      split <;> exact howned.recvAt rfl rfl rfl rfl (by rw [hpoint]; rfl)
  | queueSize =>
      simp only [ReceiveThreads.processorRecv, hpoint]
      split <;> exact howned.recvAt rfl rfl rfl rfl (by rw [hpoint]; rfl)
  | moveDataToFront =>
      simp only [ReceiveThreads.processorRecv, hpoint, ReceiveThreads.moveDataToFront]
      split <;> exact howned.recvAt rfl rfl rfl rfl (by rw [hpoint]; rfl)
  | setBuffer nlen =>
      simp only [ReceiveThreads.processorRecv, hpoint]
      exact howned.recvAt rfl rfl rfl rfl (by rw [hpoint]; rfl)
  | resetRetain =>
      simp only [ReceiveThreads.processorRecv, hpoint]
      exact howned.recvAt rfl rfl rfl rfl (by rw [hpoint]; rfl)
  | retainSize =>
      simp only [ReceiveThreads.processorRecv, hpoint]
      exact howned.recvAt rfl rfl rfl rfl (by rw [hpoint]; rfl)
  | _ =>
      simp only [ReceiveThreads.processorRecv, hpoint]
      exact howned

/-- Every action of the receiver but `Close`, unless it aborts. -/
theorem Owned.receiverStep (howned : Owned s) (answer : ReadAnswer) (hclose : s.receiver ≠ .close)
    (halive : (ReceiveThreads.receiverStep answer s).receiver ≠ .aborted) :
    Owned (ReceiveThreads.receiverStep answer s) := by
  unfold ReceiveThreads.receiverStep at halive ⊢
  split at halive
  next hpoint =>
    split
    next => exact howned
    next => exact howned.recvAt rfl rfl rfl rfl (by rw [hpoint]; rfl)
  next hpoint => split <;> exact howned.recvAt rfl rfl rfl rfl (by rw [hpoint]; rfl)
  next hpoint => split <;> exact howned.recvAt rfl rfl rfl rfl (by rw [hpoint]; rfl)
  next hpoint =>
    split
    next =>
      unfold recv
      simp only
      split <;> exact howned.recvAt rfl rfl rfl rfl (by rw [hpoint]; rfl)
    next => exact howned.recvAt rfl rfl rfl rfl (by rw [hpoint]; rfl)
  next hpoint => exact absurd hpoint hclose
  next hpoint => exact absurd hpoint halive
  next => exact howned.processorRecv halive

/-- One action of `OnRun`, where every package that waits knows its size. -/
theorem Owned.handlerStep (howned : Owned s) (hsized : ∀ msg ∈ s.waiting, Sized msg) :
    Owned (handlerStep s) := by
  have haccounts := howned.accounts
  have hmove : ∀ point, handlerHand s.handler = [] → handlerHand point = [] →
      Owned (runAt s point) := by
    intro point hnone hnone'
    refine howned.still rfl rfl ?_ fun msg hfree => ?_
    · rw [held, held, hnone]
      exact congrArg _ (congrArg _ hnone')
    · rw [show point = .free msg from hfree] at hnone'
      cases hnone'
  cases hpoint : s.handler with
  | idle =>
      simp only [ReceiveThreads.handlerStep, hpoint]
      split
      next => exact howned
      next => exact hmove _ (by rw [hpoint]; rfl) rfl
  | enter =>
      simp only [ReceiveThreads.handlerStep, hpoint]
      split <;> exact hmove _ (by rw [hpoint]; rfl) rfl
  | hasData =>
      simp only [ReceiveThreads.handlerStep, hpoint]
      split <;> exact hmove _ (by rw [hpoint]; rfl) rfl
  | pop =>
      simp only [ReceiveThreads.handlerStep, hpoint]
      simp only [held, hpoint, handlerHand] at haccounts
      cases hnodes : s.client.ext.recvQueue.nodes with
      | nil =>
          have hpop : s.client.ext.recvQueue.pop = (none, s.client.ext.recvQueue) := by
            rw [MyQueue.pop, hnodes]
          simp only [hpop]
          exact ⟨howned.unsent, haccounts, fun _ hother => by cases hother⟩
      | cons msg rest =>
          simp only [MyQueue.pop_of_cons hnodes]
          refine ⟨howned.unsent, haccounts.perm ?_, fun _ hother => by cases hother⟩
          simp only [held, SelectClientThread.received, hnodes, List.map_cons, handlerHand,
            List.append_nil, ← List.append_assoc]
          exact @List.perm_append_comm _ [(msg.unit, msg.bytes.length)] _
  | copy msg =>
      cases msg with
      | none =>
          simp only [ReceiveThreads.handlerStep, hpoint]
          exact hmove _ (by rw [hpoint]; rfl) rfl
      | some msg =>
          simp only [waiting, hpoint, List.forall_mem_cons] at hsized
          obtain ⟨⟨hsize, hmax⟩, _⟩ := hsized
          have hfits : ¬ (packageMaxSize < msg.bytes.length ∨
              msg.bytes.length < msg.bytes.length) := by omega
          simp only [ReceiveThreads.handlerStep, hpoint, hsize, if_neg hfits]
          refine howned.still rfl rfl ?_ fun other hother => ?_
          · simp only [held, hpoint, handlerHand]
          · cases hother
            exact ⟨hsize, hmax⟩
  | free msg =>
      have hsize := (howned.freeing msg hpoint).1
      simp only [ReceiveThreads.handlerStep, hpoint, hsize]
      simp only [held, hpoint, handlerHand, ← List.append_assoc] at haccounts
      have hperm := haccounts.perm
        (@List.perm_append_comm _ _ [(msg.unit, msg.bytes.length)])
      refine ⟨howned.unsent, ?_, fun _ hother => by cases hother⟩
      simp only [held, handlerHand, List.append_nil]
      exact hperm.free
  | onRecvMsg =>
      simp only [ReceiveThreads.handlerStep, hpoint]
      refine howned.still rfl rfl ?_ fun _ hother => by cases hother
      simp only [held, hpoint, handlerHand, SelectClientThread.received]
  | aborted =>
      simp only [ReceiveThreads.handlerStep, hpoint]
      exact howned

theorem Owned.close (howned : Owned s) (hsized : ∀ msg ∈ s.client.ext.recvQueue.nodes, Sized msg) :
    Owned { s with client := s.client.close } := by
  obtain ⟨hunsent, haccounts⟩ :=
    SelectClientThread.close_accounts howned.unsent hsized howned.accounts
  exact ⟨hunsent, haccounts, howned.freeing⟩

/-- One action of one thread. -/
theorem Owned.step (howned : Owned s) (hinv : Inv s frames) (label : ReceiveLabel)
    (hlong : ∀ frame ∈ (headRule.parse s.received).frames, 2 ≤ frame.length)
    (halive : (step s label).receiver ≠ .aborted) : Owned (step s label) := by
  have hsized : ∀ msg ∈ s.waiting, Sized msg := fun msg hmsg =>
    SelectClientThread.sized_of_mem (hinv.follows.front.subset (hinv.known msg hmsg)) hlong
  have hqueued : ∀ msg ∈ s.client.ext.recvQueue.nodes, Sized msg := by
    intro msg hmsg
    refine hsized msg ?_
    unfold waiting
    split
    next => exact List.mem_cons_of_mem _ hmsg
    next => exact hmsg
  cases label with
  | receiver answer =>
      by_cases hclose : s.receiver = .close
      · have hclosed := howned.close hqueued
        simp only [ReceiveThreads.step, ReceiveThreads.receiverStep, hclose]
        exact hclosed.recvAt rfl rfl rfl rfl (by rw [hclose]; rfl)
      · exact howned.receiverStep answer hclose halive
  | handler => exact howned.handlerStep hsized
  | close => exact howned.close hqueued

/-- An aborted receiver does nothing more. -/
theorem alive_of_step {label : ReceiveLabel} (halive : (step s label).receiver ≠ .aborted) :
    s.receiver ≠ .aborted := by
  intro haborted
  refine halive ?_
  cases label with
  | receiver answer =>
      simp only [step, receiverStep, haborted]
  | handler => exact (handlerStep_receiver s).1.trans haborted
  | close => exact haborted

theorem new_owned (sock : Socket) (sendBuf recvBuf package : Memory Byte) :
    Owned (new sock sendBuf recvBuf package) :=
  ⟨rfl, PoolLog.accounts_new, nofun⟩

theorem owned_of_reachable (hreach : machine.Reachable s)
    (hstuck : (headRule.parse s.received).ending ≠ .stuck)
    (hlong : ∀ frame ∈ (headRule.parse s.received).frames, 2 ≤ frame.length)
    (halive : s.receiver ≠ .aborted) : Owned s := by
  induction hreach with
  | start hinitial =>
      obtain ⟨sock, sendBuf, recvBuf, package, _, rfl⟩ := hinitial
      exact new_owned sock sendBuf recvBuf package
  | @next s next label hreach hstep ih =>
      cases hstep
      -- what was received before is the front of what has been received now
      obtain ⟨more, hmore⟩ := received_grows s label
      have hstuck' : (headRule.parse s.received).ending ≠ .stuck := fun hearlier =>
        hstuck (stuck_grows ⟨more, hmore⟩ hearlier)
      have hlong' : ∀ frame ∈ (headRule.parse s.received).frames, 2 ≤ frame.length := by
        intro frame hframe
        refine hlong frame ?_
        rw [← hmore]
        exact (Framing.frames_prefix_append _ _).subset hframe
      obtain ⟨frames, hinv⟩ := inv_of_reachable hreach hstuck'
      exact (ih hstuck' hlong' (alive_of_step halive)).step hinv label hlong' halive

end ReceiveThreads

/-- If every frame holds its length, then in every interleaving, closing included, the
buffers of the packages are each freed at most once, with the size they were allocated
with, and those allocated and not freed are the ones in the queue and in the hands of
the two threads. -/
theorem threads_free_packages_once {s : ReceiveThreads}
    (hreach : ReceiveThreads.machine.Reachable s)
    (hstuck : (headRule.parse s.received).ending ≠ .stuck)
    (hlong : ∀ frame ∈ (headRule.parse s.received).frames, 2 ≤ frame.length)
    (halive : s.receiver ≠ .aborted) :
    s.client.memoryPool.FreedOnce ∧
      ∀ unit, s.client.memoryPool.Outstanding unit ↔ unit ∈ s.held.map Prod.fst := by
  have howned := ReceiveThreads.owned_of_reachable hreach hstuck hlong halive
  exact ⟨howned.accounts.freedOnce, fun unit => howned.accounts.outstanding_iff⟩

set_option maxRecDepth 4000 in
/-- Closed behind the first of two messages while the handler holds it: the handler
frees the first buffer, and the second one is never allocated. -/
theorem threads_free_packages_once_closed :
    let s := ReceiveThreads.ran (List.replicate 13 (.receiver (.readable (.data
      [6, 0, 1, 0, 0, 0, 6, 0, 2, 0, 0, 0]))) ++ List.replicate 4 .handler ++ [.close] ++
      List.replicate 2 .handler)
    s.client.memoryPool.events = [.alloc 0 6, .free 0 (some 6)] ∧
      ∀ unit, ¬ s.client.memoryPool.Outstanding unit := by
  intro s
  have hparse : headRule.parse s.received =
      ⟨[[6, 0, 1, 0, 0, 0], [6, 0, 2, 0, 0, 0]], .rest []⟩ := by
    decide +kernel
  have hstuck : (headRule.parse s.received).ending ≠ .stuck := by
    rw [hparse]
    nofun
  have hlong : ∀ frame ∈ (headRule.parse s.received).frames, 2 ≤ frame.length := by
    rw [hparse]
    decide
  have halive : s.receiver ≠ .aborted := by
    rw [show s.receiver = .canRead from rfl]
    nofun
  obtain ⟨_, houtstanding⟩ :=
    threads_free_packages_once (ReceiveThreads.ran_reachable _) hstuck hlong halive
  refine ⟨rfl, fun unit hunit => ?_⟩
  have hheld := (houtstanding unit).mp hunit
  rw [show s.held = [] from rfl] at hheld
  cases hheld

end SelectNet
