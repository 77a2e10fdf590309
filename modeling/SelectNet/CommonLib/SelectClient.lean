import SelectNet.CommonLib.SelectClientThread

/-!
# SelectClient

The client that receives and delivers in one call, and that sends a message in
the call it is given it: a loop around `send` that changes no member.
-/

namespace SelectNet

/-- The members, and what `OnRecvMsg` was called with. -/
structure SelectClient where
  sock : Socket
  closesocket : List Socket
  oRecv : OBuffer (Memory Byte)
  retainSize : Int
  recvBuf : Memory Byte
  package : Memory Byte
  delivered : List (List Byte)

namespace SelectClient

def new (recvBuf package : Memory Byte) : SelectClient where
  sock := invalidSocket
  closesocket := []
  oRecv := .empty
  retainSize := 0
  recvBuf
  package
  delivered := []

def close (s : SelectClient) : SelectClient :=
  if s.sock ≠ invalidSocket then
    { s with closesocket := s.closesocket ++ [s.sock], sock := invalidSocket }
  else s

def connect (answer : ConnectAnswer) (s : SelectClient) : Int × SelectClient :=
  let s := close s
  match answer with
  | .noSocket => (-1, s)
  | .refused sock => (-1, close { s with sock })
  | .connected sock => (0, { s with sock })

/-- The locals of `SendData`: where to go on, what is left, how often `send` has
been called, and what it took. -/
structure Sending where
  offset : Nat
  dataLen : Nat
  calls : Nat
  taken : List Byte

/-- A pass of the loop of `SendData`, given what `send` returns, if that is no
more than it was offered. It is left with the result and what `send` took. -/
def sendPass (data : Memory Byte) (answers : Nat → Int) (state : Sending) :
    Pass Sending (Int × List Byte) :=
  if 0 < state.dataLen then
    let sendLen := min (answers state.calls) state.dataLen
    if sendLen ≤ 0 then .leave (-1, state.taken)
    else .again
      { offset := state.offset + sendLen.toNat
        dataLen := state.dataLen - sendLen.toNat
        calls := state.calls + 1
        taken := state.taken ++ data.read state.offset sendLen.toNat }
  else .leave (0, state.taken)

/-- `SendData(data, dataLen)`. Every pass but the last sends a byte. -/
def sendData (s : SelectClient) (data : Memory Byte) (dataLen : Nat) (answers : Nat → Int) :
    Option (Int × List Byte) :=
  if s.sock = invalidSocket then some (-1, [])
  else Loop.run (sendPass data answers) (dataLen + 1) ⟨0, dataLen, 0, []⟩

def sendMsg (s : SelectClient) (msg : Memory Byte) (answers : Nat → Int) :
    Option (Int × List Byte) :=
  s.sendData msg (MsgHead.load msg).size answers

/-- The inside of the receive loop: copy a package out and deliver it. -/
def onPackage (s : SelectClient) (bytes : List Byte) : SelectClient :=
  let package := fillPackage s.package bytes
  { s with package, delivered := s.delivered ++ [package.read 0 packageMaxSize] }

/-- The first `_retainSize` bytes of `_recvBuf`. -/
def retained (s : SelectClient) : List Byte := s.recvBuf.read 0 s.retainSize.toNat

/-- `_oRecv` set over what is retained and the bytes `recv` stored behind it. -/
def recvStart (s : SelectClient) (bytes : List Byte) : OBuffer (Memory Byte) × SelectClient :=
  let recvBuf := s.recvBuf.write s.retainSize.toNat bytes
  (.setBuffer (some recvBuf) (bytes.length + s.retainSize), { s with recvBuf, retainSize := 0 })

/-- The passes of the receive loop. -/
def recvLoop : OBuffer (Memory Byte) × SelectClient →
    Pass (OBuffer (Memory Byte) × SelectClient) (Option (RecvExit SelectClient)) :=
  recvPass fun s bytes => .more (onPackage s bytes)

/-- Behind the loop: move what is left to the front of `_recvBuf` and keep its size. -/
def recvStop (s : SelectClient) (oRecv : OBuffer (Memory Byte)) : SelectClient :=
  let oRecv := oRecv.moveDataToFront
  { s with oRecv, recvBuf := oRecv.memory, retainSize := oRecv.canRead }

/-- How `processorRecv` returns from its loop. -/
def recvLeave : Option (RecvExit SelectClient) → Outcome SelectClient
  | none | some (.tooLong _) => .aborted
  | some (.full s) => .returned (-1) s
  | some (.stopped oRecv s) => .returned 0 (s.recvStop oRecv)

/-- `processorRecv`, with a bound on the passes of its loop. -/
def processorRecv (answer : RecvAnswer) (fuel : Nat) (s : SelectClient) :
    Option (Outcome SelectClient) :=
  let bytes := answer.received s.sock (clientRecvBufferSize - s.retainSize)
  if bytes = [] then some (.returned (-1) s)
  else (Loop.run recvLoop fuel (s.recvStart bytes)).map recvLeave

def onRun (answer : ReadAnswer) (fuel : Nat) (s : SelectClient) :
    Option (Outcome SelectClient) :=
  if s.sock = invalidSocket then some (.returned (-1) s)
  else match answer with
    | .selectFailed => some (.returned (-1) (close s))
    | .notReadable => some (.returned 0 s)
    | .readable answer => (processorRecv answer fuel s).map fun
        | .aborted => .aborted
        | .returned value s => if value = -1 then .returned (-1) (close s) else .returned 0 s

/-! ## Histories -/

inductive Event where
  | onRun (answer : ReadAnswer)
  | connect (answer : ConnectAnswer)
  | close

/-- `OnRun` has returned. -/
def Returns (answer : ReadAnswer) (s : SelectClient) (value : Int) (next : SelectClient) : Prop :=
  ∃ fuel, onRun answer fuel s = some (.returned value next)

def machine : Machine SelectClient Event where
  initial s := ∃ recvBuf package, s = new recvBuf package
  step s event next :=
    match event with
    | .onRun answer => ∃ value, Returns answer s value next
    | .connect answer => next = (connect answer s).2
    | .close => next = SelectClient.close s

/-- What holds between the calls. -/
structure Inv (s : SelectClient) : Prop where
  recv : ∃ rest, Retained s.recvBuf s.retainSize rest

variable {s next : SelectClient}

theorem close_same (s : SelectClient) :
    (close s).retainSize = s.retainSize ∧ (close s).recvBuf = s.recvBuf ∧
      (close s).delivered = s.delivered ∧ (close s).sock = invalidSocket := by
  unfold close
  split
  next => exact ⟨rfl, rfl, rfl, rfl⟩
  next hclosed => exact ⟨rfl, rfl, rfl, not_not.mp hclosed⟩

theorem Inv.close (hinv : Inv s) : Inv (close s) := by
  obtain ⟨hretain, hbuf, _⟩ := close_same s
  refine ⟨?_⟩
  rw [hretain, hbuf]
  exact hinv.recv

theorem Inv.connect (hinv : Inv s) (answer : ConnectAnswer) : Inv (connect answer s).2 := by
  have hclosed := hinv.close
  cases answer with
  | noSocket => exact hclosed
  | refused sock =>
      have hsock : Inv { SelectClient.close s with sock } := ⟨hclosed.recv⟩
      exact hsock.close
  | connected sock => exact ⟨hclosed.recv⟩

/-- The bytes in front of the offset have been taken, the others are left. -/
structure Sending.Under (data : Memory Byte) (dataLen : Nat) (state : Sending) : Prop where
  taken : state.taken = data.read 0 state.offset
  left : state.offset + state.dataLen = dataLen

section Sending

variable {data : Memory Byte} {dataLen : Nat} {answers : Nat → Int} {state after : Sending}

/-- A pass goes on after sending some of what is left. -/
theorem sendPass_again (hpass : sendPass data answers state = .again after) :
    ∃ sent : Nat, 0 < sent ∧ (sent : Int) = min (answers state.calls) state.dataLen ∧
      after = ⟨state.offset + sent, state.dataLen - sent, state.calls + 1,
        state.taken ++ data.read state.offset sent⟩ := by
  rw [sendPass] at hpass
  split at hpass
  next hmore =>
    simp only at hpass
    split at hpass
    next => cases hpass
    next hsent =>
      cases hpass
      exact ⟨_, by omega, by omega, rfl⟩
  next => cases hpass

/-- The loop is left at an answer that is not positive, or with nothing left. -/
theorem sendPass_leave {result : Int × List Byte}
    (hpass : sendPass data answers state = .leave result) :
    0 < state.dataLen ∧ answers state.calls ≤ 0 ∧ result = (-1, state.taken) ∨
      state.dataLen = 0 ∧ result = (0, state.taken) := by
  rw [sendPass] at hpass
  split at hpass
  next hmore =>
    simp only at hpass
    split at hpass
    next hfailed =>
      cases hpass
      exact Or.inl ⟨hmore, by omega, rfl⟩
    next => cases hpass
  next hnone =>
    cases hpass
    exact Or.inr ⟨by omega, rfl⟩

theorem Sending.Under.again (hunder : state.Under data dataLen)
    (hpass : sendPass data answers state = .again after) :
    after.Under data dataLen ∧ after.dataLen < state.dataLen := by
  have hleft := hunder.left
  obtain ⟨sent, hpos, hsent, rfl⟩ := sendPass_again hpass
  refine ⟨⟨?_, ?_⟩, ?_⟩
  · rw [hunder.taken, Memory.read_add, Nat.zero_add]
  · simp only
    omega
  · simp only
    omega

theorem Sending.Under.leave (hunder : state.Under data dataLen) {result : Int × List Byte}
    (hpass : sendPass data answers state = .leave result) :
    result.1 = 0 ∧ result.2 = data.read 0 dataLen ∨
      result.1 = -1 ∧ result.2 <+: data.read 0 dataLen := by
  have hleft := hunder.left
  rcases sendPass_leave hpass with ⟨_, _, rfl⟩ | ⟨hnone, rfl⟩
  · refine Or.inr ⟨rfl, ?_⟩
    rw [hunder.taken, ← hleft, Memory.read_add]
    exact List.prefix_append _ _
  · have hall : state.offset = dataLen := by omega
    exact Or.inl ⟨rfl, hall ▸ hunder.taken⟩

end Sending

/-- `SendData` returns: 0 if all bytes were taken, -1 if the first of them were. -/
theorem sendData_spec (hopen : s.sock ≠ invalidSocket) (data : Memory Byte) (dataLen : Nat)
    (answers : Nat → Int) :
    ∃ value taken, s.sendData data dataLen answers = some (value, taken) ∧
      (value = 0 ∧ taken = data.read 0 dataLen ∨ value = -1 ∧ taken <+: data.read 0 dataLen) := by
  have hstart : Sending.Under data dataLen ⟨0, dataLen, 0, []⟩ := ⟨rfl, Nat.zero_add dataLen⟩
  have hends : ∃ result, Loop.run (sendPass data answers) (dataLen + 1) ⟨0, dataLen, 0, []⟩ =
      some result :=
    Loop.exists_run_of_variant Sending.dataLen (fun _ _ => Sending.Under.again) hstart
      (Nat.lt_succ_self dataLen)
  obtain ⟨⟨value, taken⟩, hrun⟩ := hends
  have hresult := Loop.Yields.induction (fun _ _ hunder hpass => (hunder.again hpass).1)
    (fun _ _ hunder hpass => hunder.leave hpass) hstart ⟨dataLen + 1, hrun⟩
  exact ⟨value, taken, (if_neg hopen).trans hrun, hresult⟩

/-- The loop is never left by a package that fills the client. -/
theorem recvLoop_exits {state : OBuffer (Memory Byte) × SelectClient}
    {exit : Option (RecvExit SelectClient)} (hvalid : state.1.Valid)
    (hyields : Loop.Yields recvLoop state exit) :
    LeavesWith state.1.buf (fun _ => True) (fun _ => False) exit := by
  have hmore : ∀ t bytes (t' : SelectClient), True →
      Handed.more (onPackage t bytes) = .more t' → True := fun _ _ _ _ _ => trivial
  have hfull : ∀ t bytes (t' : SelectClient), True →
      Handed.more (onPackage t bytes) = .full t' → False := by
    intro t bytes t' _ hfull
    cases hfull
  exact recvPass_invariant hmore hfull hvalid trivial hyields

/-- How `OnRun` returns when there is something to read. -/
theorem returns_cases (hinv : Inv s) (hopen : s.sock ≠ invalidSocket) {answer : RecvAnswer}
    {value : Int} (hcall : Returns (.readable answer) s value next) :
    answer.received s.sock (clientRecvBufferSize - s.retainSize) = [] ∧ value = -1 ∧
      next = close s ∨
    answer.received s.sock (clientRecvBufferSize - s.retainSize) ≠ [] ∧ ∃ oRecv t,
      Loop.Yields recvLoop (s.recvStart
        (answer.received s.sock (clientRecvBufferSize - s.retainSize)))
        (some (.stopped oRecv t)) ∧
      value = 0 ∧ next = t.recvStop oRecv := by
  obtain ⟨fuel, hcall⟩ := hcall
  rw [onRun, if_neg hopen] at hcall
  obtain ⟨outcome, hrecv, hout⟩ := Option.map_eq_some_iff.mp hcall
  by_cases hsome : answer.received s.sock (clientRecvBufferSize - s.retainSize) = []
  · rw [processorRecv, if_pos hsome] at hrecv
    cases hrecv
    cases hout
    exact Or.inl ⟨hsome, rfl, rfl⟩
  · rw [processorRecv, if_neg hsome] at hrecv
    obtain ⟨exit, hyields, hleave⟩ := (Loop.exists_map_run_iff recvLeave _).mp ⟨fuel, hrecv⟩
    obtain ⟨rest, hretained⟩ := hinv.recv
    have hexit := recvLoop_exits (hretained.behind _).1 hyields
    cases exit with
    | none => exact hexit.elim
    | some exit =>
        cases exit with
        | stopped oRecv t =>
            cases hleave
            cases hout
            exact Or.inr ⟨hsome, oRecv, t, hyields, rfl, rfl⟩
        | tooLong t =>
            cases hleave
            cases hout
        | full t => exact hexit.elim

theorem returns_of_nothing (hopen : s.sock ≠ invalidSocket) {answer : RecvAnswer}
    (hnone : answer.received s.sock (clientRecvBufferSize - s.retainSize) = []) :
    Returns (.readable answer) s (-1) (close s) := by
  refine ⟨0, ?_⟩
  simp only [onRun, if_neg hopen, processorRecv, hnone, if_true, Option.map_some]

theorem returns_of_stopped (hopen : s.sock ≠ invalidSocket) {answer : RecvAnswer}
    (hsome : answer.received s.sock (clientRecvBufferSize - s.retainSize) ≠ [])
    {oRecv : OBuffer (Memory Byte)} {t : SelectClient}
    (hyields : Loop.Yields recvLoop (s.recvStart
      (answer.received s.sock (clientRecvBufferSize - s.retainSize))) (some (.stopped oRecv t))) :
    Returns (.readable answer) s 0 (t.recvStop oRecv) := by
  obtain ⟨fuel, hrun⟩ := hyields
  refine ⟨fuel, ?_⟩
  simp only [onRun, if_neg hopen, processorRecv, if_neg hsome, hrun, Option.map_some, recvLeave]
  rfl

/-- What is behind the loop is retained. -/
theorem retained_of_stopped (hinv : Inv s) (bytes : List Byte) {oRecv : OBuffer (Memory Byte)}
    {t : SelectClient}
    (hyields : Loop.Yields recvLoop (s.recvStart bytes) (some (.stopped oRecv t))) :
    Retained (t.recvStop oRecv).recvBuf (t.recvStop oRecv).retainSize oRecv.unread := by
  obtain ⟨rest, hretained⟩ := hinv.recv
  obtain ⟨_, hstop, hbuf, hpart⟩ := recvLoop_exits (hretained.behind bytes).1 hyields
  have harray : oRecv.buf ≠ none := by rw [hbuf]; exact Option.some_ne_none _
  exact Retained.of_moveDataToFront hstop harray hpart

theorem Inv.onRun (hinv : Inv s) {answer : ReadAnswer} {value : Int}
    (hcall : Returns answer s value next) : Inv next := by
  by_cases hopen : s.sock = invalidSocket
  · obtain ⟨fuel, hcall⟩ := hcall
    unfold SelectClient.onRun at hcall
    rw [if_pos hopen] at hcall
    cases hcall
    exact hinv
  · cases answer with
    | selectFailed =>
        obtain ⟨fuel, hcall⟩ := hcall
        rw [SelectClient.onRun, if_neg hopen] at hcall
        cases hcall
        exact hinv.close
    | notReadable =>
        obtain ⟨fuel, hcall⟩ := hcall
        rw [SelectClient.onRun, if_neg hopen] at hcall
        cases hcall
        exact hinv
    | readable answer =>
        rcases returns_cases hinv hopen hcall with
          ⟨_, _, rfl⟩ | ⟨_, oRecv, t, hyields, _, rfl⟩
        · exact hinv.close
        · exact ⟨⟨_, retained_of_stopped hinv _ hyields⟩⟩

theorem inv_of_reachable (hreach : machine.Reachable s) : Inv s := by
  refine Machine.Reachable.invariant ?_ ?_ hreach
  · rintro _ ⟨recvBuf, package, rfl⟩
    exact ⟨⟨[], Retained.nothing recvBuf⟩⟩
  · intro s event next hinv hstep
    cases event with
    | onRun answer =>
        obtain ⟨value, hcall⟩ := hstep
        exact hinv.onRun hcall
    | connect answer => cases hstep; exact hinv.connect answer
    | close => cases hstep; exact hinv.close

end SelectClient

end SelectNet
