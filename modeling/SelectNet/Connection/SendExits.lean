import SelectNet.Allocation.SendBuffers

/-!
# How sending returns

A call of `ProcessorSend` ends at one of five places. Which one is decided by
the attempts to hand bytes to the kernel: the first that fails, or that finds
the kernel busy, is the last of its call.
-/

namespace SelectNet

/-- `select` failed, or `send` took nothing of what it was offered. -/
def SendAnswer.Fails : SendAnswer → Prop
  | .selectFailed => True
  | .notWritable => False
  | .writable count => count = 0

namespace Endpoint

variable {ρ : Type} {s t next : Endpoint ρ}

/-- Copying and loading never return from the call. -/
theorem copyMsg_ne_ret (canWrite : Int) (s : Endpoint ρ) (calls : Nat) (value : Int)
    (t : Endpoint ρ) : s.copyMsg canWrite calls ≠ .leave (some (.ret value t)) := by
  have hload : ∀ u : Endpoint ρ, u.loadMsg calls ≠ .leave (some (.ret value t)) := by
    intro u
    unfold loadMsg
    split
    · simp
    · split <;> simp
  unfold copyMsg
  simp only
  split
  · split
    · simp
    · apply hload
  · split <;> simp

/-- The loops are left behind themselves only with an empty queue. -/
theorem copyMsg_drained {canWrite : Int} {calls n : Nat}
    (hleave : s.copyMsg canWrite calls = .leave (some (.drained t n))) :
    t.sendQueue.hasData = false := by
  have hload : ∀ u : Endpoint ρ, u.loadMsg calls = .leave (some (.drained t n)) →
      t.sendQueue.hasData = false := by
    intro u hu
    unfold loadMsg at hu
    split at hu
    next hnone =>
      cases hu
      exact hnone
    next => split at hu <;> simp at hu
  unfold copyMsg at hleave
  simp only at hleave
  split at hleave
  next =>
    split at hleave
    next => simp at hleave
    next u _ => exact hload u hleave
  next => split at hleave <;> simp at hleave

section Attempts

variable (close : Endpoint ρ → Endpoint ρ) (limit : Nat) (answers : Nat → SendAnswer)

/-- The attempts of a call to hand bytes to the kernel, each with its answer: at
the head of a pass that finds the buffer full, and behind the loops. -/
inductive Attempt (s : Endpoint ρ) : Endpoint ρ → SendAnswer → Prop where
  | full {t : Endpoint ρ} {calls : Nat}
      (hvisits : Loop.Visits (sendPass close limit answers) (s, 0) (t, calls))
      (hfull : t.ioSend.canWrite ≤ 0) : Attempt s t (answers calls)
  | flush {t : Endpoint ρ} {calls : Nat}
      (hdrained : Loop.Yields (sendPass close limit answers) (s, 0) (some (.drained t calls)))
      (hread : 0 < t.ioSend.canRead) : Attempt s t (answers calls)

/-- An attempt that failed, or that found the kernel busy with the buffer full
and too many entries queued. -/
def Breaks (limit : Nat) (t : Endpoint ρ) (answer : SendAnswer) : Prop :=
  answer.Fails ∨
    answer = .notWritable ∧ t.ioSend.canWrite ≤ 0 ∧ (limit : Int) < t.sendQueue.size

/-- What an attempt returns tells how the kernel answered. -/
theorem sendToKernel_value (hinv : s.SendInv) (hread : 0 < s.ioSend.canRead)
    (answer : SendAnswer) :
    (answer.Fails ∧ ∃ t, Kept s t ∧ sendToKernel close answer s = some (-1, close t)) ∨
    (answer = .notWritable ∧ sendToKernel close answer s = some (0, s)) ∨
    (¬ answer.Fails ∧ answer ≠ .notWritable ∧
      ∃ t, Kept s t ∧ sendToKernel close answer s = some (1, t) ∧ t.sendQueue = s.sendQueue) := by
  have hspec := sendToKernel_spec close hinv hread answer
  cases answer with
  | selectFailed => exact Or.inl ⟨trivial, s, hinv.kept, rfl⟩
  | notWritable => exact Or.inr (Or.inl ⟨rfl, rfl⟩)
  | writable count =>
      -- something is offered, so nothing is taken only of a `count` of 0
      have htaken : min count s.ioSend.canRead.toNat = 0 ↔ count = 0 := by omega
      by_cases hnone : count = 0
      · left
        refine ⟨hnone, ?_⟩
        rcases hspec with hfailed | hbusy | ⟨u, _, hsent, _⟩
        · exact hfailed
        · simp [sendToKernel, htaken.mpr hnone] at hbusy
        · simp [sendToKernel, htaken.mpr hnone] at hsent
      · right
        right
        refine ⟨hnone, by simp, ?_⟩
        rcases hspec with ⟨u, _, hfailed⟩ | hbusy | ⟨u, hkept, hsent, _, _, hqueue⟩
        · simp only [sendToKernel, if_neg (mt htaken.mp hnone)] at hfailed
          split at hfailed <;> simp at hfailed
        · simp only [sendToKernel, if_neg (mt htaken.mp hnone)] at hbusy
          split at hbusy <;> simp at hbusy
        · exact ⟨u, hkept, hsent, hqueue⟩

/-! ## One pass -/

/-- The pass of an attempt that breaks leaves with -1. -/
theorem sendPass_of_breaks (hinv : s.SendInv) {calls : Nat} (hfull : s.ioSend.canWrite ≤ 0)
    (hbreaks : Breaks limit s (answers calls)) :
    ∃ t, Kept s t ∧ sendPass close limit answers (s, calls) =
      .leave (some (.ret (-1) (close t))) := by
  have hread := (hinv.full hfull).2
  rcases sendToKernel_value close hinv hread (answers calls) with
    ⟨_, t, hkept, hsend⟩ | ⟨hbusy, hsend⟩ | ⟨hnot, hready, _⟩
  · exact ⟨t, hkept, by simp [sendPass, hfull, hsend]⟩
  · rcases hbreaks with hfails | ⟨_, _, hlimit⟩
    · rw [hbusy] at hfails
      exact hfails.elim
    · exact ⟨s, hinv.kept, by simp [sendPass, hfull, hsend, hlimit]⟩
  · rcases hbreaks with hfails | ⟨hbusy, _⟩
    · exact absurd hfails hnot
    · exact absurd hbusy hready

/-- A pass that leaves with a result has made an attempt: one that breaks, or
one that finds the kernel busy and few enough entries queued. -/
theorem sendPass_ret (hinv : s.SendInv) {calls : Nat} {value : Int}
    (hleave : sendPass close limit answers (s, calls) = .leave (some (.ret value t))) :
    s.ioSend.canWrite ≤ 0 ∧
      (value = -1 ∧ Breaks limit s (answers calls) ∧ (∃ u, Kept s u ∧ t = close u) ∨
        value = 0 ∧ ¬ Breaks limit s (answers calls) ∧ t = s ∧ s.sendQueue.size ≤ limit) := by
  by_cases hfull : s.ioSend.canWrite ≤ 0
  · refine ⟨hfull, ?_⟩
    have hread := (hinv.full hfull).2
    rcases sendToKernel_value close hinv hread (answers calls) with
      ⟨hfails, u, hkept, hsend⟩ | ⟨hbusy, hsend⟩ | ⟨_, _, u, hkept, hsend, _⟩
    · simp only [sendPass, hfull, hsend] at hleave
      cases hleave
      exact Or.inl ⟨rfl, Or.inl hfails, u, hkept, rfl⟩
    · by_cases hlimit : (limit : Int) < s.sendQueue.size
      · simp only [sendPass, hfull, hsend, hlimit, if_true] at hleave
        cases hleave
        exact Or.inl ⟨rfl, Or.inr ⟨hbusy, hfull, hlimit⟩, s, hinv.kept, rfl⟩
      · simp only [sendPass, hfull, hsend, hlimit, if_true, if_false] at hleave
        cases hleave
        refine Or.inr ⟨rfl, ?_, rfl, by omega⟩
        rintro (hfails | ⟨_, _, hmany⟩)
        · rw [hbusy] at hfails
          exact hfails
        · exact hlimit hmany
    · -- bytes were sent, and the rest of the pass does not return
      simp only [sendPass, hfull, hsend, if_true] at hleave
      exact absurd hleave (copyMsg_ne_ret _ _ _ _ _)
  · simp only [sendPass, hfull, if_false] at hleave
    exact absurd hleave (copyMsg_ne_ret _ _ _ _ _)

theorem sendPass_drained (hinv : s.SendInv) {calls n : Nat}
    (hleave : sendPass close limit answers (s, calls) = .leave (some (.drained t n))) :
    Kept s t ∧ t.sendQueue.nodes = [] := by
  have hkept : Kept s t := by
    rcases sendPass_spec close limit answers hinv calls with
      ⟨_, _, hpass, _⟩ | ⟨u, m, hpass, hkept⟩ | ⟨_, _, hpass, _⟩
    · cases hpass.symm.trans hleave
    · cases hpass.symm.trans hleave
      exact hkept
    · cases hpass.symm.trans hleave
  refine ⟨hkept, hkept.inv.counted.hasData_eq_false_iff.mp ?_⟩
  unfold sendPass at hleave
  simp only at hleave
  split at hleave
  next =>
    split at hleave
    next => simp at hleave
    next =>
      -- only behind a successful attempt is anything copied
      split at hleave
      next => simp at hleave
      next =>
        split at hleave
        next => split at hleave <;> simp at hleave
        next => exact copyMsg_drained hleave
  next => exact copyMsg_drained hleave

/-! ## A whole call -/

/-- An attempt in the loops that breaks ends the call with -1. -/
theorem yields_of_breaks (hinv : s.SendInv) {calls : Nat}
    (hvisits : Loop.Visits (sendPass close limit answers) (s, 0) (t, calls))
    (hfull : t.ioSend.canWrite ≤ 0) (hbreaks : Breaks limit t (answers calls)) :
    ∃ u, Loop.Yields (sendPass close limit answers) (s, 0) (some (.ret (-1) u)) := by
  have hkept : Kept s t := hinv.kept.visits _ _ _ hvisits
  obtain ⟨u, _, hleave⟩ := sendPass_of_breaks close limit answers hkept.inv hfull hbreaks
  exact ⟨_, hvisits.yields (.of_leave hleave)⟩

/-- With -1, an attempt broke and the endpoint is closed; with 0, none did, the
stream is kept, and not too many entries are queued. -/
def Exits (s : Endpoint ρ) (value : Int) (next : Endpoint ρ) : Prop :=
  value = -1 ∧ (∃ t answer, Attempt close limit answers s t answer ∧ Breaks limit t answer) ∧
      (∃ last, Kept s last ∧ next = close last) ∨
    value = 0 ∧ (∀ t answer, Attempt close limit answers s t answer → ¬ Breaks limit t answer) ∧
      Kept s next ∧ next.sendQueue.size ≤ limit

/-- The loops are left for good. -/
theorem exits_of_ret (hinv : s.SendInv) {value : Int}
    (hyields : Loop.Yields (sendPass close limit answers) (s, 0) (some (.ret value next))) :
    Exits close limit answers s value next := by
  obtain ⟨⟨t, calls⟩, hvisits, hleave⟩ := hyields.visits
  have hkept : Kept s t := hinv.kept.visits _ _ _ hvisits
  obtain ⟨hfull, ⟨rfl, hbreaks, u, hlast, rfl⟩ | ⟨rfl, hnot, rfl, hfew⟩⟩ :=
    sendPass_ret close limit answers hkept.inv hleave
  · exact Or.inl ⟨rfl, ⟨t, _, .full hvisits hfull, hbreaks⟩, u, hkept.trans hlast, rfl⟩
  · refine Or.inr ⟨rfl, ?_, hkept, hfew⟩
    rintro u answer (⟨hother, hagain⟩ | ⟨hdrained, _⟩) hbreaks
    · obtain ⟨v, hbroken⟩ := yields_of_breaks close limit answers hinv hother hagain hbreaks
      cases hyields.unique hbroken
    · cases hyields.unique hdrained

/-- The queue has been emptied, and the rest of the buffer is flushed. -/
theorem exits_of_drained (hinv : s.SendInv) {calls : Nat}
    (hyields : Loop.Yields (sendPass close limit answers) (s, 0) (some (.drained t calls))) :
    ∃ value next, t.flush close limit (answers calls) = some (value, next) ∧
      Exits close limit answers s value next := by
  obtain ⟨⟨u, n⟩, hvisits, hleave⟩ := hyields.visits
  have hbefore : Kept s u := hinv.kept.visits _ _ _ hvisits
  obtain ⟨hpass, hnodes⟩ := sendPass_drained close limit answers hbefore.inv hleave
  have hkept : Kept s t := hbefore.trans hpass
  have hempty : t.sendQueue.size = 0 := by
    have hcounted : t.sendQueue.size = t.sendQueue.nodes.length := hkept.inv.counted
    simp [hcounted, hnodes]
  have hfew : ¬ (limit : Int) < t.sendQueue.size := by omega
  -- no attempt in the loops broke, and the last one does only by failing
  have hnot : (0 < t.ioSend.canRead → ¬ (answers calls).Fails) → ∀ v answer,
      Attempt close limit answers s v answer → ¬ Breaks limit v answer := by
    rintro hlast v answer (⟨hother, hfull⟩ | ⟨hdrained, hread⟩) hbreaks
    · obtain ⟨_, hbroken⟩ := yields_of_breaks close limit answers hinv hother hfull hbreaks
      cases hyields.unique hbroken
    · cases hyields.unique hdrained
      rcases hbreaks with hfails | ⟨_, _, hmany⟩
      · exact hlast hread hfails
      · exact hfew hmany
  by_cases hread : 0 < t.ioSend.canRead
  · rcases sendToKernel_value close hkept.inv hread (answers calls) with
      ⟨hfails, v, hlast, hsend⟩ | ⟨hbusy, hsend⟩ | ⟨hgood, _, v, hlast, hsend, hqueue⟩
    · refine ⟨-1, close v, by simp [flush, hread, hsend],
        Or.inl ⟨rfl, ?_, v, hkept.trans hlast, rfl⟩⟩
      exact ⟨t, _, .flush hyields hread, Or.inl hfails⟩
    · refine ⟨0, t, by simp [flush, hread, hsend, hfew], Or.inr ⟨rfl, hnot ?_, hkept, by omega⟩⟩
      intro _ hfails
      rw [hbusy] at hfails
      exact hfails
    · refine ⟨0, v, by simp [flush, hread, hsend], Or.inr ⟨rfl, hnot fun _ => hgood,
        hkept.trans hlast, ?_⟩⟩
      rw [hqueue]
      omega
  · exact ⟨0, t, if_neg hread, Or.inr ⟨rfl, hnot fun hsome => absurd hsome hread, hkept, by omega⟩⟩

theorem runSend_exits (hinv : s.SendInv) (hopen : s.sock ≠ invalidSocket) :
    ∃ value next, s.runSend close limit answers = some (value, next) ∧
      Exits close limit answers s value next := by
  obtain ⟨exit, hrun⟩ := hinv.sound.exists_run close limit answers
  obtain ⟨⟨t, calls⟩, hvisits, hleave⟩ := Loop.Yields.visits ⟨_, hrun⟩
  have hkept : Kept s t := hinv.kept.visits _ _ _ hvisits
  rcases sendPass_spec close limit answers hkept.inv calls with
    ⟨value, next, hpass, _⟩ | ⟨u, n, hpass, _⟩ | ⟨_, _, hpass, _⟩
  · cases hpass.symm.trans hleave
    refine ⟨value, next, by simp only [runSend, if_neg hopen, hrun], ?_⟩
    exact exits_of_ret close limit answers hinv ⟨_, hrun⟩
  · cases hpass.symm.trans hleave
    obtain ⟨value, next, hflush, hexits⟩ := exits_of_drained close limit answers hinv ⟨_, hrun⟩
    exact ⟨value, next, by simp only [runSend, if_neg hopen, hrun, hflush], hexits⟩
  · cases hpass.symm.trans hleave

end Attempts

end Endpoint

/-! ## ProcessorSend of ClientSocket -/

namespace ClientSocket

variable {ω : Type} {handle : MsgHandle ω} {s next : ClientSocket ω}

/-- What a call that closes leaves, whether or not there was a socket. -/
theorem idle_close (hinv : s.SendInv) (hidle : s.sock = invalidSocket → s.Idle) :
    (close s).Idle := by
  by_cases hsock : s.sock = invalidSocket
  · have hsame : close s = s := if_neg (not_not.mpr hsock)
    rw [hsame]
    exact hidle hsock
  · exact (close_spec hinv).2.2 hsock

theorem idle_processorSend (hinv : s.SendInv) (hidle : s.sock = invalidSocket → s.Idle)
    {answers : Nat → SendAnswer} {value : Int}
    (hsend : processorSend answers s = some (value, next)) :
    next.sock = invalidSocket → next.Idle := by
  intro hclosed
  by_cases hsock : s.sock = invalidSocket
  · have hsame : processorSend answers s = some (-1, s) := if_pos hsock
    cases hsame.symm.trans hsend
    exact hidle hsock
  · obtain ⟨_, _, hrun, ⟨_, _, last, hkept, rfl⟩ | ⟨_, _, hkept, _⟩⟩ :=
      Endpoint.runSend_exits close serverSendQueueMaxAccumulateCount answers hinv hsock
    · cases hrun.symm.trans hsend
      exact (close_spec hkept.inv).2.2 fun hlast => hsock (hkept.same.sock.symm.trans hlast)
    · cases hrun.symm.trans hsend
      exact absurd (hkept.same.sock.symm.trans hclosed) hsock

theorem idle_processorRecv (hinv : Inv s) (hidle : s.sock = invalidSocket → s.Idle)
    {answer : RecvAnswer} {value : Int} (hreturns : Returns handle answer s value next) :
    next.sock = invalidSocket → next.Idle := by
  obtain ⟨rest, hretained⟩ := hinv.recv
  intro hclosed
  have hquiet : Endpoint.SameSend s (countRecv s) := ⟨rfl, rfl, rfl, rfl⟩
  by_cases hsock : s.sock = invalidSocket
  · -- a closed socket receives nothing, so the call only closes it once more
    have hnone : answer.received s.sock (serverRecvBufferSize - s.retainSize) = [] := by
      cases answer <;> simp [RecvAnswer.received, hsock]
    obtain ⟨_, hcall⟩ := hreturns
    rw [processorRecv_of_nothing handle hnone] at hcall
    cases hcall
    refine idle_close (hquiet.inv hinv.send) fun _ => ?_
    exact ⟨(hidle hsock).nodes, (hidle hsock).msg, (hidle hsock).io⟩
  · obtain ⟨hsame, _, _, hsend, _⟩ := taken_spec handle hinv.send
      (answer.received s.sock (serverRecvBufferSize - s.retainSize))
      (rest ++ answer.received s.sock (serverRecvBufferSize - s.retainSize))
    rcases hreturns.cases hretained with ⟨_, rfl⟩ | ⟨_, _, _, rfl, _⟩ | ⟨_, rfl⟩
    · exact (close_spec (hquiet.inv hinv.send)).2.2 hsock
    · exact absurd (hsame.symm.trans hclosed) hsock
    · exact (close_spec hsend).2.2 fun hlast => hsock (hsame.symm.trans hlast)

/-- A closed socket stays as the constructor or `Close` leaves it. -/
theorem idle_of_closed (hreach : (machine handle).Reachable s) :
    s.sock = invalidSocket → s.Idle := by
  induction hreach with
  | start hinitial =>
      obtain ⟨sock, world, sendBuf, recvBuf, package, test, rfl⟩ := hinitial
      exact fun _ => ⟨rfl, rfl, rfl⟩
  | @next s next event hreach hstep ih =>
      have hinv := inv_of_reachable hreach
      cases event with
      | sendData data dataLen =>
          cases hstep
          intro hclosed
          have hsock := (Endpoint.sendData_spec hinv.send data dataLen).1.sock.symm.trans hclosed
          have hsame : sendData s data dataLen = (-1, s) := if_pos hsock
          rw [hsame]
          exact ih hsock
      | sendMsg msg =>
          cases hstep
          intro hclosed
          have hsock := (Endpoint.sendMsg_spec hinv.send msg).1.sock.symm.trans hclosed
          have hsame : sendMsg s msg = (-1, s) := if_pos hsock
          rw [hsame]
          exact ih hsock
      | processorSend answers =>
          obtain ⟨value, hsend⟩ := hstep
          exact idle_processorSend hinv.send ih hsend
      | processorRecv answer =>
          obtain ⟨value, hreturns⟩ := hstep
          exact idle_processorRecv hinv ih hreturns
      | close =>
          cases hstep
          exact fun _ => idle_close hinv.send ih
      | elsewhere world =>
          cases hstep
          exact fun hclosed => ⟨(ih hclosed).nodes, (ih hclosed).msg, (ih hclosed).io⟩

/-- What a call that returns -1 leaves: no socket, nothing queued or on its way,
and every buffer that was queued freed, once and with its size. -/
structure CleanedUp (s : ClientSocket ω) : Prop where
  sock : s.sock = invalidSocket
  nodes : s.sendQueue.nodes = []
  size : s.sendQueue.size = 0
  freed : s.memoryPool.Accounts []
  freedOnce : s.memoryPool.FreedOnce
  msg : s.oMsg.buf = none
  io : s.ioSend.unread = []

theorem cleanedUp_of_closed (hreach : (machine handle).Reachable s)
    (hsock : s.sock = invalidSocket) : CleanedUp s := by
  have hidle := idle_of_closed hreach hsock
  have haccounts := Endpoint.owns_nothing_iff.mp (sendOwned_of_reachable hreach).owns
  have hcounted : s.sendQueue.size = s.sendQueue.nodes.length :=
    (inv_of_reachable hreach).send.counted
  rw [Endpoint.queued, hidle.nodes] at haccounts
  rw [hidle.nodes] at hcounted
  exact ⟨hsock, hidle.nodes, hcounted, haccounts, haccounts.freedOnce, hidle.msg, hidle.io⟩

/-- The attempts of a call of `ProcessorSend`. -/
abbrev Attempt (answers : Nat → SendAnswer) (s t : ClientSocket ω) (answer : SendAnswer) : Prop :=
  Endpoint.Attempt close serverSendQueueMaxAccumulateCount answers s t answer

/-- `ProcessorSend` returns. With 0 the socket is open and the backlog within its
limit. It returns -1 exactly if there was no socket, or an attempt failed, or one
found the kernel busy with the buffer full and too long a queue; then everything
is cleaned up. -/
theorem processorSend_exits (hreach : (machine handle).Reachable s)
    (answers : Nat → SendAnswer) :
    ∃ value next, processorSend answers s = some (value, next) ∧ (value = 0 ∨ value = -1) ∧
      (value = 0 → next.sock = s.sock ∧ next.sock ≠ invalidSocket ∧
        next.sendQueue.size ≤ serverSendQueueMaxAccumulateCount) ∧
      (value = -1 ↔ s.sock = invalidSocket ∨
        (∃ t answer, Attempt answers s t answer ∧ answer.Fails) ∨
        ∃ t, Attempt answers s t .notWritable ∧ t.ioSend.canWrite ≤ 0 ∧
          (serverSendQueueMaxAccumulateCount : Int) < t.sendQueue.size) ∧
      (value = -1 → CleanedUp next) := by
  have hinv := (inv_of_reachable hreach).send
  by_cases hsock : s.sock = invalidSocket
  · refine ⟨-1, s, if_pos hsock, Or.inr rfl, fun hzero => by simp at hzero, ?_, ?_⟩
    · exact iff_of_true rfl (Or.inl hsock)
    · exact fun _ => cleanedUp_of_closed hreach hsock
  · obtain ⟨value, next, hsend, hexits⟩ :=
      Endpoint.runSend_exits close serverSendQueueMaxAccumulateCount answers hinv hsock
    have hnext : (machine handle).Reachable next :=
      .next hreach (show (machine handle).step s (.processorSend answers) next from ⟨value, hsend⟩)
    refine ⟨value, next, hsend, ?_⟩
    rcases hexits with ⟨rfl, ⟨t, answer, hattempt, hbreaks⟩, last, hkept, rfl⟩ |
      ⟨rfl, hnot, hkept, hfew⟩
    · refine ⟨Or.inr rfl, fun hzero => by simp at hzero, iff_of_true rfl (Or.inr ?_), fun _ => ?_⟩
      · rcases hbreaks with hfails | ⟨rfl, hfull, hmany⟩
        · exact Or.inl ⟨t, answer, hattempt, hfails⟩
        · exact Or.inr ⟨t, hattempt, hfull, hmany⟩
      · exact cleanedUp_of_closed hnext (close_spec hkept.inv).1.sock
    · have hopen : next.sock ≠ invalidSocket := hkept.same.sock ▸ hsock
      refine ⟨Or.inl rfl, fun _ => ⟨hkept.same.sock, hopen, hfew⟩, iff_of_false (by simp) ?_,
        fun hfailed => by simp at hfailed⟩
      rintro (hclosed | ⟨t, answer, hattempt, hfails⟩ | ⟨t, hattempt, hfull, hmany⟩)
      · exact hsock hclosed
      · exact hnot t answer hattempt (Or.inl hfails)
      · exact hnot t _ hattempt (Or.inr ⟨rfl, hfull, hmany⟩)

/-! ## A backlog -/

section Backlog

/-- Two messages are queued, the first longer than the send buffer. -/
def backlog : ClientSocket Unit :=
  (sendData (sendData (new 5 () (fun _ => 0) (fun _ => 0) (fun _ => 0) none)
    (fun _ => 7) 20490).2 (fun _ => 7) 8).2

/-- The kernel takes five bytes, and then `select` fails. -/
def takesFive : Nat → SendAnswer
  | 0 => .writable 5
  | _ => .selectFailed

/-- A busy kernel leaves both messages for the next call. One that fails when the
buffer is full again ends in a clean-up that frees both. -/
theorem processorSend_exits_backlog :
    (∃ next, processorSend (fun _ => .notWritable) backlog = some (0, next) ∧ next.sock = 5 ∧
      next.sendQueue.size = 2) ∧
    ∃ next, processorSend takesFive backlog = some (-1, next) ∧ CleanedUp next ∧
      next.kernel.map SendCall.sent = [5] ∧ next.memoryPool.events =
        [.alloc 0 20490, .alloc 1 8, .free 0 (some 20490), .free 1 (some 8)] := by
  have hreach : (machine fun world _ => (world, [])).Reachable backlog := by
    have hnew : (machine fun world _ => (world, [])).Reachable
        (new 5 () (fun _ => 0) (fun _ => 0) (fun _ => 0) none) := .start ⟨5, (), _, _, _, none, rfl⟩
    have hlong := hnew.step (.sendData (fun _ => 7) 20490) rfl
    exact hlong.step (.sendData (fun _ => 7) 8) rfl
  constructor
  · obtain ⟨value, next, hsend, _, hzero, _⟩ := processorSend_exits hreach fun _ => .notWritable
    have hcomputed : (processorSend (fun _ => .notWritable) backlog).map
        (fun result => (result.1, result.2.sendQueue.size)) = some (0, 2) := by decide +kernel
    rw [hsend, Option.map_some, Option.some.injEq, Prod.mk.injEq] at hcomputed
    obtain ⟨rfl, hsize⟩ := hcomputed
    exact ⟨next, hsend, (hzero rfl).1, hsize⟩
  · obtain ⟨value, next, hsend, _, _, _, hclean⟩ := processorSend_exits hreach takesFive
    have hcomputed : (processorSend takesFive backlog).map
        (fun result => (result.1, result.2.kernel.map SendCall.sent, result.2.memoryPool.events)) =
        some (-1, [5], [.alloc 0 20490, .alloc 1 8, .free 0 (some 20490), .free 1 (some 8)]) := by
      decide +kernel
    rw [hsend, Option.map_some, Option.some.injEq, Prod.mk.injEq, Prod.mk.injEq] at hcomputed
    obtain ⟨rfl, hcalls, hevents⟩ := hcomputed
    exact ⟨next, hsend, hclean rfl, hcalls, hevents⟩

end Backlog

end ClientSocket

end SelectNet
