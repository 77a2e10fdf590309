import SelectNet.CommonLib.RecvLoop
import SelectNet.Foundation.Machine

/-!
# EasyTcpClient

The header-only client. It collects what it receives in a message buffer and
moves the rest down behind each message. Its header is signed: a negative length
makes it copy from in front of the buffer, which is where the model stops. The
overlapping `memcpy` is modelled as moving the bytes.
-/

namespace SelectNet

/-- `RECV_BUFF_SZIE`. -/
def recvBuffSize : Nat := 10240

/-- A `short`, by the `unsigned short` of the same bytes. -/
def short (bytes : List Byte) : Int :=
  if ushort bytes < 32768 then ushort bytes else ushort bytes - 65536

theorem short_append {bytes : List Byte} (more : List Byte) (hlen : 2 ≤ bytes.length) :
    short (bytes ++ more) = short bytes := by
  rw [short, short, ushort_append more hlen]

/-- `struct DataHeader`: two `short`. -/
structure DataHeader where
  dataLength : Int
  cmd : Int
  deriving DecidableEq, Repr

/-- `sizeof(DataHeader)`. -/
def DataHeader.sizeof : Nat := 4

/-- Reading through a `DataHeader*`. -/
def DataHeader.load (message : Memory Byte) : DataHeader where
  dataLength := short (message.read 0 2)
  cmd := short (message.read 2 2)

/-- The framing of a stream by `DataHeader::dataLength`. A negative length is
refused. -/
def dataRule : Framing Byte where
  headerLen := DataHeader.sizeof
  headerLen_pos := by decide
  size stream := if short stream < 0 then none else some (short stream).toNat
  size_append stream more hlen := by
    rw [short_append more (Nat.le_trans (by decide) hlen)]

@[simp] theorem dataRule_headerLen : dataRule.headerLen = 4 := rfl

/-- The members, the descriptors passed to `closesocket`, and the messages that
`OnNetMsg` was called with. -/
structure EasyTcpClient where
  sock : Socket
  isConnect : Bool
  szMsgBuf : Memory Byte
  lastPos : Int
  szRecv : Memory Byte
  closesocket : List Socket
  netMsgs : List (List Byte)

namespace EasyTcpClient

def new : EasyTcpClient where
  sock := invalidSocket
  isConnect := false
  szMsgBuf := fun _ => 0
  lastPos := 0
  szRecv := fun _ => 0
  closesocket := []
  netMsgs := []

def close (s : EasyTcpClient) : EasyTcpClient :=
  if s.sock ≠ invalidSocket then
    { s with closesocket := s.closesocket ++ [s.sock], sock := invalidSocket, isConnect := false }
  else { s with isConnect := false }

/-- `InitSocket`, given what `socket` returns. -/
def initSocket (sock : Socket) (s : EasyTcpClient) : EasyTcpClient :=
  let s := if s.sock ≠ invalidSocket then close s else s
  { s with sock }

/-- `Connect`, given what `socket` returns, if it is called, and whether
`connect` succeeds, which it never does on an invalid socket. -/
def connect (sock : Socket) (succeeds : Bool) (s : EasyTcpClient) : Int × EasyTcpClient :=
  let s := if s.sock = invalidSocket then initSocket sock s else s
  if s.sock ≠ invalidSocket ∧ succeeds then (0, { s with isConnect := true }) else (-1, s)

def isRun (s : EasyTcpClient) : Bool := decide (s.sock ≠ invalidSocket) && s.isConnect

/-- What the message buffer holds. -/
def pending (s : EasyTcpClient) : List Byte := s.szMsgBuf.read 0 s.lastPos.toNat

/-- The message buffer behind what `recv` gave. -/
def recvStart (s : EasyTcpClient) (bytes : List Byte) : EasyTcpClient :=
  let szRecv := s.szRecv.write 0 bytes
  { s with
    szRecv
    szMsgBuf := s.szMsgBuf.write s.lastPos.toNat (szRecv.read 0 bytes.length)
    lastPos := s.lastPos + bytes.length }

/-- One pass of `while (_lastPos >= sizeof(DataHeader))`. The comparison is one
of unsigned values. `none` is a copy from in front of `_szMsgBuf`. -/
def msgPass (s : EasyTcpClient) : Pass EasyTcpClient (Option EasyTcpClient) :=
  if 0 ≤ s.lastPos ∧ s.lastPos < DataHeader.sizeof then .leave (some s)
  else
    let header := DataHeader.load s.szMsgBuf
    if s.lastPos < header.dataLength then .leave (some s)
    else if header.dataLength < 0 then .leave none
    else
      let nSize := s.lastPos - header.dataLength
      let netMsg := s.szMsgBuf.read 0 header.dataLength.toNat
      let rest := s.szMsgBuf.read header.dataLength.toNat nSize.toNat
      .again { s with
        netMsgs := s.netMsgs ++ [netMsg]
        szMsgBuf := s.szMsgBuf.write 0 rest
        lastPos := nSize }

/-- How `RecvData` returns from its loop. -/
def recvLeave : Option EasyTcpClient → Outcome EasyTcpClient
  | none => .aborted
  | some s => .returned 0 s

/-- `RecvData(_sock)`, with a bound on the passes of its loop. -/
def recvData (answer : RecvAnswer) (fuel : Nat) (s : EasyTcpClient) :
    Option (Outcome EasyTcpClient) :=
  let bytes := answer.received s.sock recvBuffSize
  if bytes = [] then some (.returned (-1) s)
  else (Loop.run msgPass fuel (s.recvStart bytes)).map recvLeave

/-- `OnRun`. Its `bool` is returned as a number. -/
def onRun (answer : ReadAnswer) (fuel : Nat) (s : EasyTcpClient) :
    Option (Outcome EasyTcpClient) :=
  if s.isRun = false then some (.returned 0 s)
  else match answer with
    | .selectFailed => some (.returned 0 (close s))
    | .notReadable => some (.returned 1 s)
    | .readable answer => (recvData answer fuel s).map fun
        | .aborted => .aborted
        | .returned value s => if value = -1 then .returned 0 (close s) else .returned 1 s

/-- `SendData` of a header, given what `send` returns. -/
def sendData (answer : Int) (s : EasyTcpClient) : Int × EasyTcpClient :=
  if s.isRun then
    if answer = -1 then (answer, close s) else (answer, s)
  else (-1, s)

/-! ## Histories -/

inductive Event where
  | initSocket (sock : Socket)
  | connect (sock : Socket) (succeeds : Bool)
  | onRun (answer : ReadAnswer)
  | sendData (answer : Int)
  | close

/-- `OnRun` has returned. -/
def Returns (answer : ReadAnswer) (s : EasyTcpClient) (value : Int) (next : EasyTcpClient) : Prop :=
  ∃ fuel, onRun answer fuel s = some (.returned value next)

def machine : Machine EasyTcpClient Event where
  initial s := s = new
  step s event next :=
    match event with
    | .initSocket sock => next = initSocket sock s
    | .connect sock succeeds => next = (connect sock succeeds s).2
    | .onRun answer => ∃ value, Returns answer s value next
    | .sendData answer => next = (sendData answer s).2
    | .close => next = EasyTcpClient.close s

/-- What holds between the calls: what is pending is not a whole message. -/
structure Inv (s : EasyTcpClient) : Prop where
  nonneg : 0 ≤ s.lastPos
  part : dataRule.Unfinished s.pending

variable {s t next : EasyTcpClient}

theorem length_pending (s : EasyTcpClient) : s.pending.length = s.lastPos.toNat :=
  Memory.length_read _ 0 _

/-- The length that the pending bytes begin with. -/
theorem dataLength_eq (hhead : 2 ≤ s.pending.length) :
    (DataHeader.load s.szMsgBuf).dataLength = short s.pending := by
  have htake : s.szMsgBuf.read 0 2 = s.pending.take 2 := by
    rw [length_pending] at hhead
    rw [pending, Memory.take_read, Nat.min_eq_left hhead]
  simp only [DataHeader.load, htake, short, ushort_take (Nat.le_refl 2)]

theorem recvStart_spec (hnonneg : 0 ≤ s.lastPos) (bytes : List Byte) :
    0 ≤ (s.recvStart bytes).lastPos ∧ (s.recvStart bytes).pending = s.pending ++ bytes := by
  have hlen : (s.lastPos + bytes.length).toNat = s.lastPos.toNat + bytes.length := by omega
  refine ⟨by simp only [recvStart]; omega, ?_⟩
  have hread := Memory.read_write_append s.szMsgBuf 0 s.lastPos.toNat bytes
  rw [Nat.zero_add] at hread
  simp only [pending, recvStart, Memory.read_write, hlen]
  exact hread

theorem msgPass_of_unfinished (hnonneg : 0 ≤ s.lastPos) (hpart : dataRule.Unfinished s.pending) :
    msgPass s = .leave (some s) := by
  have hlen := length_pending s
  have hsizeof : (DataHeader.sizeof : Int) = 4 := rfl
  by_cases hshort : s.lastPos < DataHeader.sizeof
  · exact if_pos ⟨hnonneg, hshort⟩
  · have hlonger : s.lastPos < short s.pending := by
      rcases hpart with hhead | ⟨count, hsize, hlt⟩
      · rw [dataRule_headerLen] at hhead
        omega
      · simp only [dataRule] at hsize
        split at hsize
        next => cases hsize
        next => cases hsize; omega
    rw [msgPass, if_neg fun hboth => hshort hboth.2]
    simp only [dataLength_eq (show 2 ≤ s.pending.length by omega)]
    exact if_pos hlonger

/-- A negative length is never longer than what is pending. -/
theorem msgPass_of_refused (hhead : 4 ≤ s.pending.length)
    (hsize : dataRule.size s.pending = none) : msgPass s = .leave none := by
  have hlen := length_pending s
  have hsizeof : (DataHeader.sizeof : Int) = 4 := rfl
  have hneg : short s.pending < 0 := by
    by_contra hpos
    cases hsize.symm.trans (if_neg hpos)
  rw [msgPass, if_neg (by omega)]
  simp only [dataLength_eq (show 2 ≤ s.pending.length by omega)]
  rw [if_neg (by omega), if_pos hneg]

/-- A whole message is handed over, and what is behind it moves to the front. -/
theorem msgPass_of_frame {count : Nat} (hhead : 4 ≤ s.pending.length)
    (hsize : dataRule.size s.pending = some count) (hlen : count ≤ s.pending.length) :
    ∃ szMsgBuf lastPos, msgPass s = .again { s with
        netMsgs := s.netMsgs ++ [s.pending.take count], szMsgBuf, lastPos } ∧
      0 ≤ lastPos ∧ szMsgBuf.read 0 lastPos.toNat = s.pending.drop count := by
  have hpending := length_pending s
  have hsizeof : (DataHeader.sizeof : Int) = 4 := rfl
  have hshort : short s.pending = count := by
    simp only [dataRule] at hsize
    split at hsize
    next => cases hsize
    next => cases hsize; omega
  have htake : s.szMsgBuf.read 0 count = s.pending.take count := by
    have hread := Memory.take_read s.szMsgBuf 0 s.lastPos.toNat count
    rw [Nat.min_eq_left (by omega)] at hread
    exact hread.symm
  have hrest : (s.lastPos - count).toNat = s.lastPos.toNat - count := by omega
  have hdrop : s.szMsgBuf.read count (s.lastPos - count).toNat = s.pending.drop count := by
    have hread := Memory.drop_read s.szMsgBuf 0 s.lastPos.toNat count
    rw [Nat.zero_add] at hread
    rw [hrest]
    exact hread.symm
  refine ⟨s.szMsgBuf.write 0 (s.pending.drop count), s.lastPos - count, ?_, by omega, ?_⟩
  · rw [msgPass, if_neg (by omega)]
    simp only [dataLength_eq (show 2 ≤ s.pending.length by omega), hshort, Int.toNat_natCast]
    rw [if_neg (by omega), if_neg (by omega), htake, hdrop]
  · have hwritten := Memory.read_write s.szMsgBuf 0 (s.pending.drop count)
    rwa [List.length_drop, hpending, ← hrest] at hwritten

theorem close_same (s : EasyTcpClient) :
    (close s).lastPos = s.lastPos ∧ (close s).szMsgBuf = s.szMsgBuf ∧
      (close s).netMsgs = s.netMsgs ∧ (close s).sock = invalidSocket ∧
      (close s).isConnect = false := by
  unfold close
  split
  next => exact ⟨rfl, rfl, rfl, rfl, rfl⟩
  next hclosed => exact ⟨rfl, rfl, rfl, not_not.mp hclosed, rfl⟩

theorem Inv.of_same (hinv : Inv s) (hpos : next.lastPos = s.lastPos)
    (hbuf : next.szMsgBuf = s.szMsgBuf) : Inv next := by
  obtain ⟨hnonneg, hpart⟩ := hinv
  refine ⟨hpos ▸ hnonneg, ?_⟩
  rw [pending, hpos, hbuf]
  exact hpart

theorem Inv.close (hinv : Inv s) : Inv (close s) :=
  hinv.of_same (close_same s).1 (close_same s).2.1

theorem Inv.initSocket (hinv : Inv s) (sock : Socket) : Inv (initSocket sock s) := by
  unfold EasyTcpClient.initSocket
  split
  next => exact hinv.close.of_same rfl rfl
  next => exact hinv.of_same rfl rfl

theorem Inv.connect (hinv : Inv s) (sock : Socket) (succeeds : Bool) :
    Inv (connect sock succeeds s).2 := by
  have hstart : Inv (if s.sock = invalidSocket then EasyTcpClient.initSocket sock s else s) := by
    split
    next => exact hinv.initSocket sock
    next => exact hinv
  unfold EasyTcpClient.connect
  generalize (if s.sock = invalidSocket then EasyTcpClient.initSocket sock s else s) = t at hstart ⊢
  simp only
  split
  next => exact hstart.of_same rfl rfl
  next => exact hstart

theorem Inv.sendData (hinv : Inv s) (answer : Int) : Inv (sendData answer s).2 := by
  unfold EasyTcpClient.sendData
  split
  next =>
    split
    next => exact hinv.close
    next => exact hinv
  next => exact hinv

/-- A pass that goes round again has handed over a message and taken it off. -/
theorem msgPass_again (hnonneg : 0 ≤ s.lastPos) (hagain : msgPass s = .again next) :
    ∃ count, dataRule.size s.pending = some count ∧ count ≤ s.pending.length ∧
      next.netMsgs = s.netMsgs ++ [s.pending.take count] ∧ 0 ≤ next.lastPos ∧
      next.pending = s.pending.drop count := by
  rcases dataRule.head_cases s.pending with
    hpart | ⟨hhead, hsize⟩ | ⟨count, hhead, hsize, hlen⟩
  · cases (msgPass_of_unfinished hnonneg hpart).symm.trans hagain
  · cases (msgPass_of_refused hhead hsize).symm.trans hagain
  · obtain ⟨szMsgBuf, lastPos, hpass, hpos, hread⟩ := msgPass_of_frame hhead hsize hlen
    cases hpass.symm.trans hagain
    exact ⟨count, hsize, hlen, rfl, hpos, hread⟩

/-- The loop is left over a rest, by the last state it has visited. -/
theorem msgPass_leave (hnonneg : 0 ≤ s.lastPos) (hleave : msgPass s = .leave (some next)) :
    next = s ∧ dataRule.Unfinished s.pending := by
  rcases dataRule.head_cases s.pending with
    hpart | ⟨hhead, hsize⟩ | ⟨count, hhead, hsize, hlen⟩
  · cases (msgPass_of_unfinished hnonneg hpart).symm.trans hleave
    exact ⟨rfl, hpart⟩
  · cases (msgPass_of_refused hhead hsize).symm.trans hleave
  · obtain ⟨_, _, hpass, _⟩ := msgPass_of_frame hhead hsize hlen
    cases hpass.symm.trans hleave

theorem nonneg_of_visits (hnonneg : 0 ≤ s.lastPos) (hvisits : Loop.Visits msgPass s next) :
    0 ≤ next.lastPos := by
  have hagain : ∀ state later : EasyTcpClient, 0 ≤ state.lastPos → msgPass state = .again later →
      0 ≤ later.lastPos := by
    intro state later hpos hbody
    obtain ⟨_, _, _, _, hlater, _⟩ := msgPass_again hpos hbody
    exact hlater
  have hlast := Loop.Visits.invariant hagain hnonneg hvisits
  exact hlast

/-- How `OnRun` returns when there is something to read. -/
theorem returns_cases (hopen : s.isRun = true) {answer : RecvAnswer} {value : Int}
    (hcall : Returns (.readable answer) s value next) :
    answer.received s.sock recvBuffSize = [] ∧ next = close s ∨
    answer.received s.sock recvBuffSize ≠ [] ∧
      Loop.Yields msgPass (s.recvStart (answer.received s.sock recvBuffSize)) (some next) := by
  obtain ⟨fuel, hcall⟩ := hcall
  rw [onRun, if_neg (by rw [hopen]; decide)] at hcall
  obtain ⟨outcome, hrecv, hout⟩ := Option.map_eq_some_iff.mp hcall
  by_cases hsome : answer.received s.sock recvBuffSize = []
  · rw [recvData, if_pos hsome] at hrecv
    cases hrecv
    cases hout
    exact Or.inl ⟨hsome, rfl⟩
  · rw [recvData, if_neg hsome] at hrecv
    obtain ⟨exit, hyields, hleave⟩ := (Loop.exists_map_run_iff recvLeave _).mp ⟨fuel, hrecv⟩
    cases exit with
    | none =>
        cases hleave
        cases hout
    | some last =>
        cases hleave
        cases hout
        exact Or.inr ⟨hsome, hyields⟩

theorem returns_of_nothing (hopen : s.isRun = true) {answer : RecvAnswer}
    (hnone : answer.received s.sock recvBuffSize = []) :
    Returns (.readable answer) s 0 (close s) := by
  refine ⟨0, ?_⟩
  have hrun : ¬ s.isRun = false := by
    rw [hopen]
    decide
  simp only [onRun, if_neg hrun, recvData, hnone, if_true, Option.map_some]

theorem returns_of_yields (hopen : s.isRun = true) {answer : RecvAnswer}
    (hsome : answer.received s.sock recvBuffSize ≠ [])
    (hyields : Loop.Yields msgPass (s.recvStart (answer.received s.sock recvBuffSize))
      (some next)) : Returns (.readable answer) s 1 next := by
  obtain ⟨fuel, hrun⟩ := hyields
  have hopen : ¬ s.isRun = false := by
    rw [hopen]
    decide
  refine ⟨fuel, ?_⟩
  simp only [onRun, if_neg hopen, recvData, if_neg hsome, hrun, Option.map_some, recvLeave]
  rfl

/-- What is left behind the loop is a rest. -/
theorem Inv.of_yields (hinv : Inv s) {bytes : List Byte}
    (hyields : Loop.Yields msgPass (s.recvStart bytes) (some next)) : Inv next := by
  obtain ⟨last, hvisits, hleave⟩ := hyields.visits
  have hpos := nonneg_of_visits (recvStart_spec hinv.nonneg bytes).1 hvisits
  obtain ⟨rfl, hpart⟩ := msgPass_leave hpos hleave
  exact ⟨hpos, hpart⟩

theorem Inv.onRun (hinv : Inv s) {answer : ReadAnswer} {value : Int}
    (hcall : Returns answer s value next) : Inv next := by
  by_cases hopen : s.isRun = false
  · obtain ⟨fuel, hcall⟩ := hcall
    unfold EasyTcpClient.onRun at hcall
    rw [if_pos hopen] at hcall
    cases hcall
    exact hinv
  · cases answer with
    | selectFailed =>
        obtain ⟨fuel, hcall⟩ := hcall
        rw [EasyTcpClient.onRun, if_neg hopen] at hcall
        cases hcall
        exact hinv.close
    | notReadable =>
        obtain ⟨fuel, hcall⟩ := hcall
        rw [EasyTcpClient.onRun, if_neg hopen] at hcall
        cases hcall
        exact hinv
    | readable answer =>
        rcases returns_cases ((Bool.not_eq_false _).mp hopen) hcall with ⟨_, rfl⟩ | ⟨_, hyields⟩
        · exact hinv.close
        · exact hinv.of_yields hyields

theorem new_inv : Inv new := ⟨Int.le_refl 0, Or.inl dataRule.headerLen_pos⟩

/-- `_szMsgBuf` has room for whatever `recv` gives. -/
theorem Inv.recv_fits (hinv : Inv s) : s.lastPos + recvBuffSize ≤ recvBuffSize * 5 := by
  have hlen := length_pending s
  have hsize : (recvBuffSize : Int) = 10240 := rfl
  have hshort : short s.pending < 32768 := by
    unfold short
    split
    next hlt => exact Int.ofNat_lt.mpr hlt
    next =>
      have hlt := ushort_lt s.pending
      omega
  rcases hinv.part with hhead | ⟨count, hcount, hlonger⟩
  · rw [dataRule_headerLen] at hhead
    omega
  · simp only [dataRule] at hcount
    split at hcount
    next => cases hcount
    next => cases hcount; omega

theorem inv_of_reachable (hreach : machine.Reachable s) : Inv s := by
  refine Machine.Reachable.invariant ?_ ?_ hreach
  · rintro _ rfl
    exact new_inv
  · intro s event next hinv hstep
    cases event with
    | initSocket sock => cases hstep; exact hinv.initSocket sock
    | connect sock succeeds => cases hstep; exact hinv.connect sock succeeds
    | onRun answer =>
        obtain ⟨value, hcall⟩ := hstep
        exact hinv.onRun hcall
    | sendData answer => cases hstep; exact hinv.sendData answer
    | close => cases hstep; exact hinv.close

end EasyTcpClient

end SelectNet
