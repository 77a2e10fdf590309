import SelectNet.Allocation.PoolLedger
import SelectNet.CommonLib.ClientSocket

/-!
# Who owns the buffers that are on their way out

`SendData` allocates a buffer and pushes it; from then on `_sendQueue` owns it.
While the front buffer is copied out, `_oMsg` is an alias of it that outlives
neither the pop that frees it nor a `Close`, from whichever loop that comes.
-/

namespace SelectNet.ClientSocket

variable {ω : Type}

/-- `~ClientSocket`. -/
def destroy (s : ClientSocket ω) : ClientSocket ω := close s

/-- The state in which a package's handler is called. -/
def called (handle : MsgHandle ω) (s : ClientSocket ω) (bytes : List Byte) : ClientSocket ω :=
  { s.count fun test => { test with msgTimes := test.msgTimes + 1 } with
    package := fillPackage s.package bytes
    ext := ⟨(handled handle s bytes).1,
      s.ext.calls ++ [(fillPackage s.package bytes).read 0 packageMaxSize]⟩ }

theorem onPackage_eq (handle : MsgHandle ω) (s : ClientSocket ω) (bytes : List Byte) :
    onPackage handle s bytes =
      (handled handle s bytes).2.foldl (fun s msg => (s.sendMsg msg).2) (called handle s bytes) :=
  rfl

/-- The loop of `ProcessorRecv` at its start. -/
def received (answer : RecvAnswer) (s : ClientSocket ω) :
    OBuffer (Memory Byte) × ClientSocket ω :=
  recvHead s (answer.received s.sock (serverRecvBufferSize - s.retainSize))

/-! ## The points of a run -/

/-- States within one pass of the send loops: at its head, behind the attempt to
send, and behind the message that was copied out. -/
inductive InPass (answers : Nat → SendAnswer) (s : ClientSocket ω) (calls : Nat) :
    ClientSocket ω → Prop where
  | head : InPass answers s calls s
  | sent {value : Int} {t : ClientSocket ω} (hfull : s.ioSend.canWrite ≤ 0)
      (hsend : s.sendToKernel close (answers calls) = some (value, t)) : InPass answers s calls t
  | finished {t u : ClientSocket ω} (hin : InPass answers s calls t) (hread : t.oMsg.canRead ≤ 0)
      (hfinish : t.finishMsg = some u) : InPass answers s calls u

/-- States of a run: between the calls, and inside them wherever the queue, the
loaded message, the socket or the pool has changed. -/
inductive Point (handle : MsgHandle ω) : ClientSocket ω → Prop where
  | between {s : ClientSocket ω} (hreach : (machine handle).Reachable s) : Point handle s
  | sending {s t u : ClientSocket ω} {calls : Nat} {answers : Nat → SendAnswer}
      (hreach : (machine handle).Reachable s) (hopen : s.sock ≠ invalidSocket)
      (hvisits : Loop.Visits (Endpoint.sendPass close serverSendQueueMaxAccumulateCount answers)
        (s, 0) (t, calls)) (hin : InPass answers t calls u) : Point handle u
  | receiving {s t : ClientSocket ω} {answer : RecvAnswer} {oRecv : OBuffer (Memory Byte)}
      (hreach : (machine handle).Reachable s)
      (hvisits : Loop.Visits (recvLoop handle) (received answer s) (oRecv, t)) : Point handle t
  | handling {s t : ClientSocket ω} {answer : RecvAnswer} {oRecv found rest : OBuffer (Memory Byte)}
      {msgLen : Nat} {frame : List Byte} {done : List (Memory Byte)}
      (hreach : (machine handle).Reachable s)
      (hvisits : Loop.Visits (recvLoop handle) (received answer s) (oRecv, t))
      (hfound : nextPackage oRecv = some (.found msgLen found))
      (hread : found.readBytes msgLen = some (frame, rest))
      (hdone : done <+: (handled handle t frame).2) :
      Point handle (done.foldl (fun s msg => (s.sendMsg msg).2) (called handle t frame))

/-! ## What holds at every point -/

/-- The queue owns what is outstanding, and nothing is left behind a `Close`. -/
structure SendOwned (s : ClientSocket ω) : Prop where
  inv : s.SendInv
  owns : s.Owns .nothing
  emptied : s.sock = invalidSocket → s.sendQueue.nodes = [] ∧ s.oMsg.buf = none

variable {s t next : ClientSocket ω} {handle : MsgHandle ω}

theorem new_sendOwned (sock : Socket) (world : ω) (sendBuf recvBuf package : Memory Byte)
    (test : Option TestCounters) : SendOwned (new sock world sendBuf recvBuf package test) :=
  ⟨(new_inv sock world sendBuf recvBuf package test).send, ⟨trivial, PoolLog.accounts_new⟩,
    fun _ => ⟨rfl, rfl⟩⟩

theorem SendOwned.of_same (howned : SendOwned s) (hsame : Endpoint.SameSend s next)
    (hpool : next.memoryPool = s.memoryPool) (hsock : next.sock = s.sock) : SendOwned next := by
  have haccounts := Endpoint.owns_nothing_iff.mp howned.owns
  refine ⟨hsame.inv howned.inv, Endpoint.owns_nothing_iff.mpr ?_, fun hclosed => ?_⟩
  · rw [Endpoint.queued, hpool, hsame.sendQueue]
    exact haccounts
  · rw [hsame.sendQueue, hsame.oMsg]
    exact howned.emptied (hsock.symm.trans hclosed)

/-- What only sends keeps the socket open. -/
theorem SendOwned.of_kept (hopen : s.sock ≠ invalidSocket) (hkept : Endpoint.Kept s next)
    (howns : next.Owns .nothing) : SendOwned next :=
  ⟨hkept.inv, howns, fun hclosed => absurd (hkept.same.sock.symm.trans hclosed) hopen⟩

/-- Inside `Close`, what has not been popped yet is what is outstanding. -/
theorem SendOwned.clearing (howned : SendOwned s) {front back : List QMSend}
    (hnodes : s.sendQueue.nodes = front ++ back) :
    (front.foldl Endpoint.dropEntry s.shut).memoryPool.Accounts
      (back.map fun entry => (entry.data.unit, entry.size)) := by
  have hshut : s.shut.Owns .nothing := howned.owns.congr rfl rfl rfl
  obtain ⟨hleft, hback⟩ := hshut.dropEntries hnodes
  rw [Endpoint.owns_nothing_iff, Endpoint.queued, hback] at hleft
  exact hleft

theorem close_owns (howns : s.Owns .nothing) : (close s).Owns .nothing := by
  unfold close
  split
  next =>
    have hshut : s.shut.Owns .nothing := howns.congr rfl rfl rfl
    exact hshut.clearSendQueue.1.congr rfl rfl rfl
  next => exact howns

theorem SendOwned.close (howned : SendOwned s) : SendOwned (close s) := by
  obtain ⟨hclosed, _, hidle⟩ := close_spec howned.inv
  refine ⟨hclosed.inv, close_owns howned.owns, fun _ => ?_⟩
  by_cases hsock : s.sock = invalidSocket
  · have hsame : ClientSocket.close s = s := if_neg (not_not.mpr hsock)
    rw [hsame]
    exact howned.emptied hsock
  · exact ⟨(hidle hsock).nodes, (hidle hsock).msg⟩

theorem SendOwned.destroy (howned : SendOwned s) : (destroy s).memoryPool.Accounts [] := by
  have hclosed := howned.close
  have hsock := (close_spec howned.inv).1.sock
  have haccounts := Endpoint.owns_nothing_iff.mp hclosed.owns
  rw [Endpoint.queued, (hclosed.emptied hsock).1] at haccounts
  exact haccounts

theorem SendOwned.sendData (howned : SendOwned s) (data : Memory Byte) (dataLen : Nat) :
    SendOwned (s.sendData data dataLen).2 := by
  by_cases hsock : s.sock = invalidSocket
  · have hsame : ClientSocket.sendData s data dataLen = (-1, s) := if_pos hsock
    rw [hsame]
    exact howned
  · obtain ⟨hsame, hinv, _⟩ := Endpoint.sendData_spec howned.inv data dataLen
    exact ⟨hinv, howned.owns.sendData data dataLen,
      fun hclosed => absurd (hsame.sock.symm.trans hclosed) hsock⟩

theorem SendOwned.sendMsg (howned : SendOwned s) (msg : Memory Byte) :
    SendOwned (s.sendMsg msg).2 := by
  unfold ClientSocket.sendMsg Endpoint.sendMsg
  split
  next => exact howned
  next => exact howned.sendData msg _

theorem SendOwned.sendMsgs (howned : SendOwned s) (msgs : List (Memory Byte)) :
    SendOwned (msgs.foldl (fun s msg => (s.sendMsg msg).2) s) := by
  induction msgs generalizing s with
  | nil => exact howned
  | cons msg msgs ih => exact ih (howned.sendMsg msg)

theorem SendOwned.called (howned : SendOwned s) (handle : MsgHandle ω) (bytes : List Byte) :
    SendOwned (called handle s bytes) :=
  howned.of_same ⟨rfl, rfl, rfl, rfl⟩ rfl rfl

theorem SendOwned.onPackage (howned : SendOwned s) (handle : MsgHandle ω) (bytes : List Byte) :
    SendOwned (onPackage handle s bytes) := by
  rw [onPackage_eq]
  exact (howned.called handle bytes).sendMsgs _

theorem SendOwned.recvHead (howned : SendOwned s) (bytes : List Byte) :
    SendOwned (recvHead s bytes).2 :=
  howned.of_same ⟨rfl, rfl, rfl, rfl⟩ rfl rfl

/-! ### Inside the send loops -/

section Sending

variable {answers : Nat → SendAnswer} {calls : Nat}

/-- At the head of every pass the socket is still open. -/
theorem SendOwned.visits (howned : SendOwned s) (hopen : s.sock ≠ invalidSocket)
    (hvisits : Loop.Visits (Endpoint.sendPass ClientSocket.close
      serverSendQueueMaxAccumulateCount answers) (s, 0) (t, calls)) :
    SendOwned t ∧ t.sock ≠ invalidSocket := by
  have hkept : Endpoint.Kept s t := howned.inv.kept.visits _ _ _ hvisits
  have hstart : (s, 0).1.Owns .nothing := howned.owns
  have howns : t.Owns .nothing := Endpoint.Owns.visits (fun _ => close_owns) hstart hvisits
  exact ⟨.of_kept hopen hkept howns, fun hclosed => hopen (hkept.same.sock.symm.trans hclosed)⟩

/-- `_oMsg` goes with the entry it is an alias of. -/
theorem SendOwned.finishMsg (howned : SendOwned s) (hread : s.oMsg.canRead ≤ 0)
    (hfinish : s.finishMsg = some t) : SendOwned t := by
  obtain ⟨_, hdone, hkept, _⟩ := Endpoint.finishMsg_spec howned.inv hread
  cases hdone.symm.trans hfinish
  by_cases hsock : s.sock = invalidSocket
  · have hbuf := (howned.emptied hsock).2
    rw [Endpoint.finishMsg, hbuf] at hfinish
    cases hfinish
    exact howned
  · exact .of_kept hsock hkept (howned.owns.finishMsg hfinish)

theorem SendOwned.inPass (howned : SendOwned s) (hopen : s.sock ≠ invalidSocket)
    (hin : InPass answers s calls t) : SendOwned t := by
  induction hin with
  | head => exact howned
  | sent hfull hsend =>
      have howns := howned.owns.sendToKernel (fun _ => close_owns) hsend
      rcases Endpoint.sendToKernel_spec ClientSocket.close howned.inv
          (howned.inv.full hfull).2 (answers calls) with
        ⟨u, hkept, hcall⟩ | hcall | ⟨u, hkept, hcall, _, _, _⟩
      · cases hcall.symm.trans hsend
        have hclosed := (close_spec hkept.inv).2.2 fun hsock =>
          hopen (hkept.same.sock.symm.trans hsock)
        exact ⟨(close_spec hkept.inv).1.inv, howns, fun _ => ⟨hclosed.nodes, hclosed.msg⟩⟩
      · cases hcall.symm.trans hsend
        exact howned
      · cases hcall.symm.trans hsend
        exact .of_kept hopen hkept howns
  | finished _ hread hfinish ih => exact ih.finishMsg hread hfinish

theorem SendOwned.processorSend (howned : SendOwned s) {value : Int}
    (hsend : processorSend answers s = some (value, next)) : SendOwned next := by
  have howns := howned.owns.runSend (fun _ => close_owns) hsend
  by_cases hsock : s.sock = invalidSocket
  · have hsame : ClientSocket.processorSend answers s = some (-1, s) := if_pos hsock
    cases hsame.symm.trans hsend
    exact howned
  · obtain ⟨_, t, hrun, hreturns⟩ := Endpoint.runSend_spec ClientSocket.close
      serverSendQueueMaxAccumulateCount answers howned.inv hsock
    cases hrun.symm.trans hsend
    rcases hreturns with ⟨_, hkept⟩ | ⟨_, last, hkept, rfl⟩
    · exact .of_kept hsock hkept howns
    · have hclosed := (close_spec hkept.inv).2.2 fun hclosed =>
        hsock (hkept.same.sock.symm.trans hclosed)
      exact ⟨(close_spec hkept.inv).1.inv, howns, fun _ => ⟨hclosed.nodes, hclosed.msg⟩⟩

end Sending

/-! ### Inside the receive loop -/

theorem SendOwned.more (handle : MsgHandle ω) (s : ClientSocket ω) (bytes : List Byte)
    (next : ClientSocket ω) (howned : SendOwned s)
    (htake : Handed.more (ClientSocket.onPackage handle s bytes) = .more next) :
    SendOwned next := by
  cases htake
  exact howned.onPackage handle bytes

theorem SendOwned.receiving (howned : SendOwned s) (hinv : Inv s) {answer : RecvAnswer}
    {state : OBuffer (Memory Byte) × ClientSocket ω}
    (hvisits : Loop.Visits (recvLoop handle) (received answer s) state) : SendOwned state.2 := by
  obtain ⟨rest, hretained⟩ := hinv.recv
  exact (recvPass_visits (SendOwned.more handle) (hretained.behind _).1 (howned.recvHead _)
    hvisits).kept

theorem SendOwned.processorRecv (howned : SendOwned s) (hinv : Inv s) {answer : RecvAnswer}
    {value : Int} (hreturns : Returns handle answer s value next) : SendOwned next := by
  obtain ⟨rest, hretained⟩ := hinv.recv
  by_cases hsome : answer.received s.sock (serverRecvBufferSize - s.retainSize) = []
  · obtain ⟨_, hcall⟩ := hreturns
    rw [processorRecv_of_nothing handle hsome] at hcall
    cases hcall
    have hcount : SendOwned (countRecv s) := howned.of_same ⟨rfl, rfl, rfl, rfl⟩ rfl rfl
    exact hcount.close
  · obtain ⟨exit, hyields, hleave⟩ := (returns_iff handle rfl hsome _ _).mp hreturns
    have hfull : ∀ (t : ClientSocket ω) (bytes : List Byte) (t' : ClientSocket ω), SendOwned t →
        Handed.more (ClientSocket.onPackage handle t bytes) = .full t' → SendOwned t' := by
      intro t bytes t' _ htake
      cases htake
    have hexit := recvPass_invariant (SendOwned.more handle) hfull (hretained.behind _).1
      (howned.recvHead _) hyields
    match exit, hleave, hexit with
    | some (.stopped oRecv t), hleave, hexit =>
        cases hleave
        exact hexit.1.of_same ⟨rfl, rfl, rfl, rfl⟩ rfl rfl
    | some (.tooLong t), hleave, hexit =>
        cases hleave
        exact SendOwned.close hexit
    | some (.full t), hleave, hexit =>
        cases hleave
        exact SendOwned.close hexit

/-! ## Runs -/

theorem sendOwned_of_reachable (hreach : (machine handle).Reachable s) : SendOwned s := by
  induction hreach with
  | start hinitial =>
      obtain ⟨sock, world, sendBuf, recvBuf, package, test, rfl⟩ := hinitial
      exact new_sendOwned sock world sendBuf recvBuf package test
  | @next s next event hreach hstep ih =>
      cases event with
      | sendData data dataLen => cases hstep; exact ih.sendData data dataLen
      | sendMsg msg => cases hstep; exact ih.sendMsg msg
      | processorSend answers =>
          obtain ⟨value, hsend⟩ := hstep
          exact ih.processorSend hsend
      | processorRecv answer =>
          obtain ⟨value, hreturns⟩ := hstep
          exact ih.processorRecv (inv_of_reachable hreach) hreturns
      | close => cases hstep; exact ih.close
      | elsewhere world =>
          cases hstep
          exact ih.of_same ⟨rfl, rfl, rfl, rfl⟩ rfl rfl

theorem sendOwned_of_point (hpoint : Point handle s) : SendOwned s := by
  cases hpoint with
  | between hreach => exact sendOwned_of_reachable hreach
  | sending hreach hopen hvisits hin =>
      obtain ⟨howned, hstill⟩ := (sendOwned_of_reachable hreach).visits hopen hvisits
      exact howned.inPass hstill hin
  | receiving hreach hvisits =>
      exact (sendOwned_of_reachable hreach).receiving (inv_of_reachable hreach) hvisits
  | handling hreach hvisits _ _ _ =>
      have howned := (sendOwned_of_reachable hreach).receiving (inv_of_reachable hreach) hvisits
      exact (howned.called handle _).sendMsgs _

/-- At every point of a run, what the socket has allocated and not freed is the
data of its queue, each freed once and with its size; `_oMsg` is an alias of the
front or null; a closed socket has neither; and destruction, like every pop of a
`Close` on the way, leaves exactly what is still queued outstanding. -/
theorem client_owns_buffers (hpoint : Point handle s) :
    (s.memoryPool.Accounts s.queued ∧ s.memoryPool.FreedOnce ∧
      ∀ unit, s.memoryPool.Outstanding unit ↔
        ∃ entry ∈ s.sendQueue.nodes, entry.data.unit = unit) ∧
    (∀ package, s.oMsg.buf = some package →
      ∃ entry rest, s.sendQueue.nodes = entry :: rest ∧ entry.data = package) ∧
    (s.sock = invalidSocket → s.sendQueue.nodes = [] ∧ s.oMsg.buf = none) ∧
    (∀ front back, s.sendQueue.nodes = front ++ back →
      (front.foldl Endpoint.dropEntry s.shut).memoryPool.Accounts
        (back.map fun entry => (entry.data.unit, entry.size))) ∧
    (destroy s).memoryPool.Accounts [] ∧ (destroy s).memoryPool.FreedOnce ∧
      ∀ unit, ¬ (destroy s).memoryPool.Outstanding unit := by
  have howned := sendOwned_of_point hpoint
  have haccounts := Endpoint.owns_nothing_iff.mp howned.owns
  have hqueued : ∀ unit, unit ∈ s.queued.map Prod.fst ↔
      ∃ entry ∈ s.sendQueue.nodes, entry.data.unit = unit := by
    intro unit
    rw [Endpoint.queued, List.map_map, List.mem_map]
    exact Iff.rfl
  refine ⟨⟨haccounts, haccounts.freedOnce,
    fun unit => haccounts.outstanding_iff.trans (hqueued unit)⟩,
    fun package hbuf => ?_, howned.emptied, fun front back => howned.clearing, howned.destroy,
    howned.destroy.freedOnce, fun unit houtstanding => ?_⟩
  · obtain ⟨entry, rest, hnodes, hdata, _⟩ := Endpoint.loaded_cons howned.inv hbuf
    exact ⟨entry, rest, hnodes, hdata⟩
  · exact absurd (howned.destroy.outstanding_iff.mp houtstanding) List.not_mem_nil

/-- A message of three bytes, while it is loaded. -/
theorem client_owns_buffers_loaded :
    let s := (sendData (new 5 () (fun _ => 0) (fun _ => 0) (fun _ => 0) none) (fun _ => 7) 3).2
    let t := { s with oMsg := .setBuffer (some ⟨0, [7, 7, 7]⟩) 3 }
    t.memoryPool.Outstanding 0 ∧ ¬ (destroy t).memoryPool.Outstanding 0 := by
  let s := (sendData (new 5 () (fun _ => 0) (fun _ => 0) (fun _ => 0) none) (fun _ => 7) 3).2
  have hstep : (machine fun world _ => (world, [])).step
      (new 5 () (fun _ => 0) (fun _ => 0) (fun _ => 0) none) (.sendData (fun _ => 7) 3) s := rfl
  have hvisits : Loop.Visits (Endpoint.sendPass close serverSendQueueMaxAccumulateCount
      fun _ => .notWritable) (s, 0)
      ({ s with oMsg := .setBuffer (some ⟨0, [7, 7, 7]⟩) 3 }, 0) := .single rfl
  have hpoint := Point.sending (.next (.start ⟨5, (), _, _, _, none, rfl⟩) hstep) (by decide)
    hvisits .head
  obtain ⟨⟨_, _, hunits⟩, _, _, _, _, _, hgone⟩ := client_owns_buffers hpoint
  exact ⟨(hunits 0).mpr ⟨_, List.mem_singleton_self _, rfl⟩, hgone 0⟩

end SelectNet.ClientSocket
