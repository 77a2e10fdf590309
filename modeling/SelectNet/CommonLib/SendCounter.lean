import SelectNet.CommonLib.ClientTurn

/-!
# The counter of queued entries

`_testSendQueueSize` points at one counter that all clients of a handler share.
Every path through an endpoint changes it by as much as it changes the length of
the endpoint's own queue, so what the counter has for the others stays the same.
-/

namespace SelectNet

namespace Endpoint

variable {ρ : Type}

/-- The pointer is set, and the counter has the entries of this queue and so
many others. -/
def Tallied (s : Endpoint ρ) (others : Int) : Prop :=
  ∃ test, s.test = some test ∧ test.sendQueueSize = s.sendQueue.nodes.length + others

/-- The state that a send loop is left with, if it is left with one. -/
def SendExit.Tallied (others : Int) : Option (SendExit ρ) → Prop
  | some (.ret _ s) => s.Tallied others
  | some (.drained s _) => s.Tallied others
  | none => True

variable {s next : Endpoint ρ} {others : Int} {close : Endpoint ρ → Endpoint ρ}

/-! ## Queue and counter -/

theorem Tallied.of_eq (htallied : s.Tallied others) (htest : next.test = s.test)
    (hqueue : next.sendQueue = s.sendQueue) : next.Tallied others := by
  rw [Tallied, htest, hqueue]
  exact htallied

/-- A change to the other counters. -/
theorem Tallied.count (htallied : s.Tallied others) {change : TestCounters → TestCounters}
    (hchange : ∀ test, (change test).sendQueueSize = test.sendQueueSize) :
    (s.count change).Tallied others := by
  obtain ⟨test, htest, hsize⟩ := htallied
  refine ⟨change test, ?_, (hchange test).trans hsize⟩
  rw [Endpoint.count, htest]
  rfl

theorem Tallied.dropEntry (htallied : s.Tallied others) {entry : QMSend} {rest : List QMSend}
    (hnodes : s.sendQueue.nodes = entry :: rest) : (s.dropEntry entry).Tallied others := by
  obtain ⟨test, htest, hsize⟩ := htallied
  refine ⟨{ test with sendQueueSize := test.sendQueueSize - 1 }, ?_, ?_⟩
  · rw [Endpoint.dropEntry, Endpoint.count, htest]
    rfl
  · rw [Endpoint.dropEntry, MyQueue.pop_of_cons hnodes]
    rw [hnodes, List.length_cons] at hsize
    simp only
    omega

theorem Tallied.clearSendQueue (htallied : s.Tallied others) :
    s.clearSendQueue.Tallied others := by
  unfold Endpoint.clearSendQueue
  induction hnodes : s.sendQueue.nodes generalizing s with
  | nil => exact htallied
  | cons entry rest ih =>
      apply ih (htallied.dropEntry hnodes)
      rw [Endpoint.dropEntry, MyQueue.pop_of_cons hnodes]

theorem Tallied.sendData (htallied : s.Tallied others) (data : Memory Byte) (dataLen : Nat) :
    (s.sendData data dataLen).2.Tallied others := by
  by_cases hsock : s.sock = invalidSocket
  · rw [Endpoint.sendData, if_pos hsock]
    exact htallied
  · obtain ⟨test, htest, hsize⟩ := htallied
    rw [sendData_of_open hsock]
    refine ⟨{ test with
      sendQueueSize := test.sendQueueSize + 1
      sendTimes := test.sendTimes + 1 }, ?_, ?_⟩
    · simp only [Endpoint.count, htest, Option.map_some]
    · simp only [MyQueue.push_nodes, List.length_append, List.length_singleton]
      omega

theorem Tallied.sendMsg (htallied : s.Tallied others) (msg : Memory Byte) :
    (s.sendMsg msg).2.Tallied others := by
  unfold Endpoint.sendMsg
  split
  · exact htallied
  · exact htallied.sendData msg _

/-! ## The send loops -/

theorem Tallied.sendToKernel (hclose : ∀ t, t.Tallied others → (close t).Tallied others)
    (htallied : s.Tallied others) {answer : SendAnswer} {value : Int}
    (hsend : s.sendToKernel close answer = some (value, next)) : next.Tallied others := by
  unfold Endpoint.sendToKernel at hsend
  split at hsend
  next =>
    cases hsend
    exact hclose s htallied
  next =>
    cases hsend
    exact htallied
  next count =>
    simp only at hsend
    split at hsend
    next =>
      cases hsend
      exact hclose _ (htallied.of_eq rfl rfl)
    next =>
      split at hsend
      next => cases hsend
      next =>
        cases hsend
        exact htallied.of_eq rfl rfl

theorem Tallied.finishMsg (htallied : s.Tallied others) (hfinish : s.finishMsg = some next) :
    next.Tallied others := by
  unfold Endpoint.finishMsg at hfinish
  split at hfinish
  next =>
    simp only at hfinish
    split at hfinish
    next => cases hfinish
    next qmSend sendQueue hpop =>
      cases hfinish
      obtain ⟨test, htest, hsize⟩ := htallied
      cases hnodes : s.sendQueue.nodes with
      | nil =>
          have hnone : s.sendQueue.pop = (none, s.sendQueue) := by
            rw [MyQueue.pop, hnodes]
          cases hnone.symm.trans hpop
      | cons entry rest =>
          cases (MyQueue.pop_of_cons hnodes).symm.trans hpop
          rw [hnodes, List.length_cons] at hsize
          refine ⟨{ test with sendQueueSize := test.sendQueueSize - 1 }, ?_, ?_⟩
          · simp only [Endpoint.count, htest, Option.map_some]
          · simp only
            omega
  next =>
    cases hfinish
    exact htallied

/-- What a pass keeps of an invariant: of the next pass and of the loop's exit. -/
def Passes (others : Int) : Pass (Endpoint ρ × Nat) (Option (SendExit ρ)) → Prop
  | .again later => later.1.Tallied others
  | .leave exit => SendExit.Tallied others exit

theorem Tallied.loadMsg (htallied : s.Tallied others) (calls : Nat) :
    Passes others (s.loadMsg calls) := by
  unfold Endpoint.loadMsg
  split
  next => exact htallied
  next =>
    split
    next => exact htallied.of_eq rfl rfl
    next => exact htallied.of_eq rfl rfl

theorem Tallied.copyMsg (htallied : s.Tallied others) (canWrite : Int) (calls : Nat) :
    Passes others (s.copyMsg canWrite calls) := by
  unfold Endpoint.copyMsg
  simp only
  split
  next =>
    split
    next => trivial
    next t hfinish => exact (htallied.finishMsg hfinish).loadMsg calls
  next =>
    split
    next => trivial
    next => exact htallied.of_eq rfl rfl

variable {limit : Nat} {answers : Nat → SendAnswer}

theorem Tallied.sendPass (hclose : ∀ t, t.Tallied others → (close t).Tallied others)
    (htallied : s.Tallied others) (calls : Nat) :
    Passes others (sendPass close limit answers (s, calls)) := by
  unfold Endpoint.sendPass
  simp only
  split
  next =>
    split
    next => trivial
    next value t hsend =>
      have hsent := htallied.sendToKernel hclose hsend
      split
      next => exact hsent
      next =>
        split
        next =>
          -- an overlong backlog closes, a shorter one is left for the next call
          split
          next => exact hclose t hsent
          next => exact hsent
        next => exact hsent.copyMsg _ _
  next => exact htallied.copyMsg _ _

theorem Tallied.flush (hclose : ∀ t, t.Tallied others → (close t).Tallied others)
    (htallied : s.Tallied others) {answer : SendAnswer} {value : Int}
    (hflush : s.flush close limit answer = some (value, next)) : next.Tallied others := by
  unfold Endpoint.flush at hflush
  split at hflush
  next =>
    split at hflush
    next => cases hflush
    next n t hsend =>
      have hsent := htallied.sendToKernel hclose hsend
      split at hflush
      next =>
        cases hflush
        exact hsent
      next =>
        split at hflush
        next =>
          cases hflush
          exact hclose t hsent
        next =>
          cases hflush
          exact hsent
  next =>
    cases hflush
    exact htallied

theorem Tallied.sendLoop (hclose : ∀ t, t.Tallied others → (close t).Tallied others)
    (htallied : s.Tallied others) {exit : Option (SendExit ρ)}
    (hyields : Loop.Yields (Endpoint.sendPass close limit answers) (s, 0) exit) :
    SendExit.Tallied others exit := by
  have hagain : ∀ state later : Endpoint ρ × Nat, state.1.Tallied others →
      Endpoint.sendPass close limit answers state = .again later → later.1.Tallied others := by
    rintro ⟨t, calls⟩ later ht hpass
    have hpasses : Passes others (Endpoint.sendPass close limit answers (t, calls)) :=
      Tallied.sendPass hclose ht calls
    rwa [hpass] at hpasses
  have hleave : ∀ (state : Endpoint ρ × Nat) exit, state.1.Tallied others →
      Endpoint.sendPass close limit answers state = .leave exit →
      SendExit.Tallied others exit := by
    rintro ⟨t, calls⟩ exit ht hpass
    have hpasses : Passes others (Endpoint.sendPass close limit answers (t, calls)) :=
      Tallied.sendPass hclose ht calls
    rwa [hpass] at hpasses
  exact hyields.induction hagain hleave htallied

/-- However the send loops end, queue and counter have changed by the same. -/
theorem Tallied.runSend (hclose : ∀ t, t.Tallied others → (close t).Tallied others)
    (htallied : s.Tallied others) {value : Int}
    (hsend : s.runSend close limit answers = some (value, next)) : next.Tallied others := by
  unfold Endpoint.runSend at hsend
  split at hsend
  next =>
    cases hsend
    exact htallied
  next =>
    split at hsend
    next hrun =>
      cases hsend
      exact htallied.sendLoop hclose ⟨_, hrun⟩
    next t calls hrun =>
      have hdrained : t.Tallied others := htallied.sendLoop hclose ⟨_, hrun⟩
      exact hdrained.flush hclose hsend
    next => cases hsend

end Endpoint

/-! ## A client's turn -/

namespace ClientSocket

open Endpoint (Tallied)

variable {ω : Type} {s next : ClientSocket ω} {others : Int} {handle : MsgHandle ω}

theorem tallied_close (s : ClientSocket ω) (htallied : Tallied s others) :
    Tallied (close s) others := by
  unfold close
  split
  · have hshut : Tallied (Endpoint.shut s) others := htallied.of_eq rfl rfl
    exact hshut.clearSendQueue.of_eq rfl rfl
  · exact htallied

theorem tallied_onPackage (htallied : Tallied s others) (bytes : List Byte) :
    Tallied (onPackage handle s bytes) others := by
  have hreplies : ∀ (replies : List (Memory Byte)) (t : ClientSocket ω), Tallied t others →
      Tallied (replies.foldl (fun s msg => (sendMsg s msg).2) t) others := by
    intro replies
    induction replies with
    | nil => exact fun _ ht => ht
    | cons msg replies ih => exact fun t ht => ih _ (ht.sendMsg msg)
  apply hreplies
  have hcounted : Tallied (Endpoint.count s fun test =>
      { test with msgTimes := test.msgTimes + 1 }) others := htallied.count fun _ => rfl
  exact hcounted.of_eq rfl rfl

theorem tallied_countRecv (htallied : Tallied s others) : Tallied (countRecv s) others :=
  htallied.count fun _ => rfl

theorem tallied_taken (htallied : Tallied s others) (bytes stream : List Byte) :
    Tallied (taken handle s bytes stream) others := by
  have hframes : ∀ (frames : List (List Byte)) (t : ClientSocket ω), Tallied t others →
      Tallied (frames.foldl (onPackage handle) t) others := by
    intro frames
    induction frames with
    | nil => exact fun _ ht => ht
    | cons frame frames ih => exact fun t ht => ih _ (tallied_onPackage ht frame)
  exact hframes _ _ ((tallied_countRecv htallied).of_eq rfl rfl)

theorem tallied_processorRecv (hinv : Inv s) (htallied : Tallied s others) {answer : RecvAnswer}
    {value : Int} (hreturns : Returns handle answer s value next) : Tallied next others := by
  obtain ⟨rest, hretained⟩ := hinv.recv
  rcases hreturns.cases hretained with ⟨_, rfl⟩ | ⟨oRecv, left, _, rfl, _⟩ | ⟨_, rfl⟩
  · exact tallied_close _ (tallied_countRecv htallied)
  · exact (tallied_taken htallied _ _).of_eq rfl rfl
  · exact tallied_close _ (tallied_taken htallied _ _)

/-- A turn changes the counter by as much as the client's queue. -/
theorem tallied_turn (hinv : Inv s) (htallied : Tallied s others) {fuel : Nat} {readable : Bool}
    {answer : RecvAnswer} {answers : Nat → SendAnswer} {failed : Bool}
    (hturn : turn handle fuel readable answer answers s = some (failed, next)) :
    Tallied next others := by
  have hrecv : ∀ failed middle, recvFails handle fuel readable answer s = some (failed, middle) →
      Tallied middle others := by
    intro failed middle hrecv
    unfold recvFails at hrecv
    split at hrecv
    · split at hrecv
      next hcall =>
        cases hrecv
        exact tallied_processorRecv hinv htallied ⟨fuel, hcall⟩
      next => cases hrecv
    · cases hrecv
      exact htallied
  unfold turn at hturn
  split at hturn
  next => cases hturn
  next hfails =>
    cases hturn
    exact hrecv true _ hfails
  next middle hgoes =>
    obtain ⟨⟨value, last⟩, hsend, hresult⟩ := Option.map_eq_some_iff.mp hturn
    cases hresult
    exact (hrecv false middle hgoes).runSend tallied_close hsend

/-- A client whose turn fails has been closed with its queue cleared. -/
theorem turn_failed_nodes (hinv : Inv s) (hopen : s.sock ≠ invalidSocket) {fuel : Nat}
    {readable : Bool} {answer : RecvAnswer} {answers : Nat → SendAnswer}
    (hturn : turn handle fuel readable answer answers s = some (true, next)) :
    next.sendQueue.nodes = [] := by
  have hquiet : ∀ t next : ClientSocket ω, Endpoint.SameSend t next → next.sock = t.sock →
      next.ext = t.ext → t.sock ≠ invalidSocket → next.sock ≠ invalidSocket :=
    fun _ _ _ hsame _ ht => hsame ▸ ht
  have hpackage : ∀ (t : ClientSocket ω) (bytes : List Byte), t.SendInv →
      bytes.length ≤ packageMaxSize → t.sock ≠ invalidSocket →
      (onPackage handle t bytes).sock ≠ invalidSocket :=
    fun t bytes ht hlen hstill => (onPackage_spec handle ht hlen).1 ▸ hstill
  obtain ⟨last, hsend, hstill, rfl⟩ := turn_invariant hquiet hpackage
    (fun _ _ hkept ht => hkept.same.sock ▸ ht) hinv hopen hopen hturn
  exact ((close_spec hsend).2.2 hstill).nodes

end ClientSocket

end SelectNet
