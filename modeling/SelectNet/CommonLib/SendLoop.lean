import SelectNet.CommonLib.SendVariant

/-!
# The send loops

Bytes on their way out are in three places: the send buffer, the message being
copied into it, and the queue entries behind that message. Every pass of the
send loops moves bytes from one place to the next and keeps their order, so
what the kernel has taken followed by what is on its way out never changes.
-/

namespace SelectNet.Endpoint

variable {ρ : Type}

/-! ## What is on its way out -/

def payload (entry : QMSend) : List Byte := entry.data.bytes

def outgoing (s : Endpoint ρ) : List Byte :=
  s.ioSend.unread ++ s.oMsg.unread ++ s.behind.flatMap payload

/-- What the kernel has accepted. -/
def accepted (s : Endpoint ρ) : List Byte := s.kernel.flatMap SendCall.taken

/-- `_oMsg` is null, or over the data of the front entry. -/
def Loaded (s : Endpoint ρ) : Prop :=
  match s.oMsg.buf with
  | none => s.oMsg.canRead ≤ 0
  | some package => ∃ entry rest, s.sendQueue.nodes = entry :: rest ∧ entry.data = package ∧
      s.oMsg.endPos + 1 = entry.size

/-- What holds between the calls on the send side, and at the head of every pass. -/
structure SendInv (s : Endpoint ρ) : Prop where
  io_valid : s.ioSend.Valid
  io_end : 0 ≤ s.ioSend.endPos
  io_front : s.ioSend.curReadPos = 0
  msg_valid : s.oMsg.Valid
  loaded : s.Loaded
  counted : s.sendQueue.Counted
  sized : ∀ entry ∈ s.sendQueue.nodes, entry.data.bytes.length = entry.size
  calls_front : ∀ call ∈ s.kernel, call.io.curReadPos = 0

/-- What sending leaves alone. -/
structure SameRecv (s next : Endpoint ρ) : Prop where
  sock : next.sock = s.sock
  closesocket : next.closesocket = s.closesocket
  retainSize : next.retainSize = s.retainSize
  recvBuf : next.recvBuf = s.recvBuf
  ext : next.ext = s.ext

/-- What a call of `send` was offered, behind all that the calls before it took,
is the front of one stream. -/
def Offers (s : Endpoint ρ) (stream : List Byte) : Prop :=
  ∀ calls call, calls ++ [call] <+: s.kernel →
    calls.flatMap SendCall.taken ++ call.offered <+: stream

/-- The invariant is kept, and so is the stream of bytes. -/
structure Kept (s next : Endpoint ρ) : Prop where
  inv : next.SendInv
  stream : next.accepted ++ next.outgoing = s.accepted ++ s.outgoing
  same : SameRecv s next
  grown : s.kernel <+: next.kernel
  offers : s.Offers (s.accepted ++ s.outgoing) → next.Offers (s.accepted ++ s.outgoing)

variable {s next last : Endpoint ρ}

theorem SameRecv.refl (s : Endpoint ρ) : SameRecv s s := ⟨rfl, rfl, rfl, rfl, rfl⟩

theorem SameRecv.trans (hfirst : SameRecv s next) (hsecond : SameRecv next last) :
    SameRecv s last where
  sock := hsecond.sock.trans hfirst.sock
  closesocket := hsecond.closesocket.trans hfirst.closesocket
  retainSize := hsecond.retainSize.trans hfirst.retainSize
  recvBuf := hsecond.recvBuf.trans hfirst.recvBuf
  ext := hsecond.ext.trans hfirst.ext

theorem SameRecv.retained (hsame : SameRecv s next) : next.retained = s.retained := by
  rw [Endpoint.retained, Endpoint.retained, hsame.recvBuf, hsame.retainSize]

theorem Offers.mono {stream more : List Byte} (hoffers : s.Offers stream)
    (hmore : stream <+: more) : s.Offers more :=
  fun calls call hcalls => (hoffers calls call hcalls).trans hmore

theorem Offers.congr {ρ' : Type} {next : Endpoint ρ'} {stream : List Byte}
    (hoffers : s.Offers stream) (hkernel : next.kernel = s.kernel) : next.Offers stream := by
  intro calls call hcalls
  rw [hkernel] at hcalls
  exact hoffers calls call hcalls

/-- A step that sends nothing. -/
theorem SendInv.still (hinv : next.SendInv) (hkernel : next.kernel = s.kernel)
    (hstream : next.accepted ++ next.outgoing = s.accepted ++ s.outgoing)
    (hsame : SameRecv s next) : Kept s next :=
  ⟨hinv, hstream, hsame, hkernel ▸ List.prefix_rfl, fun hoffers => hoffers.congr hkernel⟩

theorem SendInv.kept (hinv : s.SendInv) : Kept s s := hinv.still rfl rfl (.refl s)

theorem Kept.trans (hfirst : Kept s next) (hsecond : Kept next last) : Kept s last where
  inv := hsecond.inv
  stream := hsecond.stream.trans hfirst.stream
  same := hfirst.same.trans hsecond.same
  grown := hfirst.grown.trans hsecond.grown
  offers := by
    intro hoffers
    have hmiddle := hfirst.offers hoffers
    rw [← hfirst.stream] at hmiddle ⊢
    exact hsecond.offers hmiddle

/-- What receiving leaves alone. -/
structure SameSend (s next : Endpoint ρ) : Prop where
  sendQueue : next.sendQueue = s.sendQueue
  ioSend : next.ioSend = s.ioSend
  oMsg : next.oMsg = s.oMsg
  kernel : next.kernel = s.kernel

theorem SameSend.inv (hsame : SameSend s next) (hinv : s.SendInv) : next.SendInv where
  io_valid := hsame.ioSend ▸ hinv.io_valid
  io_end := hsame.ioSend ▸ hinv.io_end
  io_front := hsame.ioSend ▸ hinv.io_front
  msg_valid := hsame.oMsg ▸ hinv.msg_valid
  loaded := by
    rw [Loaded, hsame.oMsg, hsame.sendQueue]
    exact hinv.loaded
  counted := hsame.sendQueue ▸ hinv.counted
  sized := hsame.sendQueue ▸ hinv.sized
  calls_front := hsame.kernel ▸ hinv.calls_front

theorem SameSend.recvStart (s : Endpoint ρ) (bytes : List Byte) :
    SameSend s (s.recvStart bytes).2 := ⟨rfl, rfl, rfl, rfl⟩

theorem SameSend.recvStop (s : Endpoint ρ) (oRecv : OBuffer (Memory Byte)) :
    SameSend s (s.recvStop oRecv) := ⟨rfl, rfl, rfl, rfl⟩

theorem SameSend.stream (hsame : SameSend s next) :
    next.accepted ++ next.outgoing = s.accepted ++ s.outgoing := by
  rw [accepted, outgoing, behind, hsame.kernel, hsame.ioSend, hsame.oMsg, hsame.sendQueue]
  rfl

/-- Reading at position 0, `send` offers what is unread. -/
theorem SendInv.offered_eq (hinv : s.SendInv) {call : SendCall} (hcall : call ∈ s.kernel) :
    call.offered = call.io.unread := by
  have hfront := hinv.calls_front call hcall
  rw [SendCall.offered, IOBuffer.unread, hfront, Int.toNat_zero]

/-! ## The pieces of a pass -/

section Pieces

/-- The kernel takes bytes from the front of the buffer, possibly none. -/
theorem SendInv.taken (hinv : s.SendInv) {io : IOBuffer} {count : Nat} (hvalid : io.Valid)
    (hunread : io.unread = s.ioSend.unread.drop count) (hend : io.endPos = s.ioSend.endPos)
    (hfront : io.curReadPos = 0) :
    Kept s { s with kernel := s.kernel ++ [⟨s.ioSend, count⟩], ioSend := io } := by
  have htaken : SendCall.taken ⟨s.ioSend, count⟩ = s.ioSend.unread.take count := by
    rw [SendCall.taken, SendCall.offered, IOBuffer.unread, hinv.io_front, Int.toNat_zero]
  refine ⟨⟨hvalid, hend ▸ hinv.io_end, hfront, hinv.msg_valid, hinv.loaded, hinv.counted,
    hinv.sized, ?_⟩, ?_, ⟨rfl, rfl, rfl, rfl, rfl⟩, List.prefix_append _ _, ?_⟩
  · intro call hcall
    rcases List.mem_append.mp hcall with hcall | hcall
    · exact hinv.calls_front call hcall
    · rw [List.mem_singleton.mp hcall]
      exact hinv.io_front
  · calc
      accepted { s with kernel := s.kernel ++ [⟨s.ioSend, count⟩], ioSend := io } ++
            outgoing { s with kernel := s.kernel ++ [⟨s.ioSend, count⟩], ioSend := io }
          = s.accepted ++ (s.ioSend.unread.take count ++ s.ioSend.unread.drop count) ++
              s.oMsg.unread ++ s.behind.flatMap payload := by
            simp only [accepted, outgoing, behind, List.flatMap_append, List.flatMap_singleton,
              htaken, hunread, List.append_assoc]
      _ = s.accepted ++ s.outgoing := by
            rw [List.take_append_drop, outgoing, List.append_assoc, List.append_assoc,
              List.append_assoc]
  · -- only the last call is new, and it was offered the front of what is outgoing
    intro hoffers calls call hcalls
    rcases List.prefix_concat_iff.mp hcalls with hlast | hearlier
    · obtain ⟨rfl, hcall⟩ := List.append_inj' hlast rfl
      cases hcall
      have hoffered : SendCall.offered ⟨s.ioSend, count⟩ = s.ioSend.unread := by
        rw [SendCall.offered, IOBuffer.unread, hinv.io_front, Int.toNat_zero]
      rw [hoffered, outgoing, List.append_assoc]
      exact (List.prefix_append_right_inj _).mpr (List.prefix_append _ _)
    · exact hoffers calls call hearlier

/-- An attempt to send fails and closes, finds the kernel busy, or moves bytes
from the front of the buffer to the kernel and leaves room. -/
theorem sendToKernel_spec (close : Endpoint ρ → Endpoint ρ) (hinv : s.SendInv)
    (hread : 0 < s.ioSend.canRead) (answer : SendAnswer) :
    (∃ t, Kept s t ∧ sendToKernel close answer s = some (-1, close t)) ∨
    sendToKernel close answer s = some (0, s) ∨
    ∃ t, Kept s t ∧ sendToKernel close answer s = some (1, t) ∧ 0 < t.ioSend.canWrite ∧
      t.oMsg = s.oMsg ∧ t.sendQueue = s.sendQueue := by
  cases answer with
  | selectFailed => exact Or.inl ⟨s, hinv.kept, rfl⟩
  | notWritable => exact Or.inr (Or.inl rfl)
  | writable count =>
      by_cases hnone : min count s.ioSend.canRead.toNat = 0
      · -- `send` took nothing, which counts as an error
        refine Or.inl ⟨{ s with kernel := s.kernel ++ [⟨s.ioSend, 0⟩] }, ?_, ?_⟩
        · exact hinv.taken hinv.io_valid rfl rfl hinv.io_front
        · simp only [sendToKernel, hnone, if_true]
      · obtain ⟨moved, hmove, hmoved, hunread, hend⟩ :=
          IOBuffer.moveReadPos_spec hinv.io_valid
            (Int.natCast_nonneg (min count s.ioSend.canRead.toNat)) (by omega)
        rw [Int.toNat_natCast] at hunread
        obtain ⟨hvalid, hsame, hsameEnd, hfront, hwrite⟩ := IOBuffer.moveDataToFront_spec hmoved
        refine Or.inr (Or.inr ⟨_, hinv.taken hvalid (hsame.trans hunread) (hsameEnd.trans hend)
          hfront, ?_, ?_, rfl, rfl⟩)
        · simp only [sendToKernel, if_neg hnone, hmove]
        · have hlen := congrArg List.length hunread
          have hroom := hinv.io_valid.write_le_end
          have hzero := hinv.io_front
          simp only [IOBuffer.length_unread, List.length_drop] at hlen
          simp only [IOBuffer.canWrite, hsameEnd, hend, hwrite]
          simp only [IOBuffer.canRead] at hlen hnone hread ⊢
          omega

theorem loaded_cons {package : Package} (hinv : s.SendInv) (hbuf : s.oMsg.buf = some package) :
    ∃ entry rest, s.sendQueue.nodes = entry :: rest ∧ entry.data = package ∧
      s.oMsg.endPos + 1 = entry.size := by
  have hloaded := hinv.loaded
  simpa only [Loaded, hbuf] using hloaded

/-- A message that is copied out leaves the queue; nothing is on its way in it. -/
theorem finishMsg_spec (hinv : s.SendInv) (hdone : s.oMsg.canRead ≤ 0) :
    ∃ t, s.finishMsg = some t ∧ Kept s t ∧ t.oMsg.buf = none := by
  cases hbuf : s.oMsg.buf with
  | none =>
      refine ⟨s, ?_, hinv.kept, hbuf⟩
      rw [finishMsg, hbuf]
      rfl
  | some package =>
      obtain ⟨entry, rest, hnodes, hdata, hend⟩ := loaded_cons hinv hbuf
      have hempty : s.oMsg.unread = [] := OBuffer.unread_eq_nil hdone
      refine ⟨_, finishMsg_of_cons hbuf hnodes, SendInv.still ⟨hinv.io_valid, hinv.io_end,
        hinv.io_front, OBuffer.setBuffer_valid _ (Int.le_refl _), ?_, hinv.counted.pop hnodes,
        ?_, hinv.calls_front⟩ rfl ?_ ⟨rfl, rfl, rfl, rfl, rfl⟩, rfl⟩
      · exact Int.le_refl 0
      · intro other hother
        exact hinv.sized other (hnodes ▸ List.mem_cons_of_mem _ hother)
      · simp only [accepted, outgoing, behind, hbuf, hnodes, hempty, OBuffer.setBuffer,
          Option.isSome_some, Option.isSome_none, Bool.false_eq_true, if_true, if_false,
          List.tail_cons]
        rfl

/-- With no message loaded, the front of the queue is loaded, if there is one. -/
theorem loadMsg_spec (hinv : s.SendInv) (hbuf : s.oMsg.buf = none) (calls : Nat) :
    s.loadMsg calls = .leave (some (.drained s calls)) ∨
    ∃ t, s.loadMsg calls = .again (t, calls) ∧ Kept s t := by
  have hloaded : s.oMsg.canRead ≤ 0 := by
    have hloaded := hinv.loaded
    simpa only [Loaded, hbuf] using hloaded
  cases hnodes : s.sendQueue.nodes with
  | nil => exact Or.inl (if_pos (hinv.counted.hasData_eq_false_iff.mpr hnodes))
  | cons entry rest =>
      have hsized := hinv.sized entry (hnodes ▸ List.mem_cons_self)
      have hempty : s.oMsg.unread = [] := OBuffer.unread_eq_nil hloaded
      have hfull : (Memory.ofList entry.data.bytes 0).read 0 entry.size = payload entry := by
        rw [← hsized, Memory.read_ofList]
        rfl
      refine Or.inr ⟨_, loadMsg_of_cons hinv.counted hnodes calls, SendInv.still ⟨hinv.io_valid,
        hinv.io_end, hinv.io_front, OBuffer.setBuffer_valid _ (Int.natCast_nonneg _), ?_,
        hinv.counted, hinv.sized, hinv.calls_front⟩ rfl ?_ ⟨rfl, rfl, rfl, rfl, rfl⟩⟩
      · exact ⟨entry, rest, hnodes, rfl, by simp [OBuffer.setBuffer]⟩
      · simp only [accepted, outgoing, behind, hbuf, hnodes, hempty, OBuffer.unread_setBuffer,
          CharData.bytes, Int.toNat_natCast, hfull]
        simp [OBuffer.setBuffer]

/-- Copying from the message into the buffer, with no more room assumed than there is. -/
theorem copy_spec (hinv : s.SendInv) {writeLen : Int} (hlen : 0 ≤ writeLen)
    (hhave : writeLen ≤ s.oMsg.canRead) (hroom : writeLen ≤ s.ioSend.canWrite) :
    ∃ io, s.oMsg.readBytesInto s.ioSend writeLen =
        some ({ s.oMsg with pos := s.oMsg.pos + writeLen }, io) ∧
      Kept s { s with oMsg := { s.oMsg with pos := s.oMsg.pos + writeLen }, ioSend := io } := by
  obtain ⟨io, hread, hvalid, hunread, hend, hfront, _⟩ :=
    OBuffer.readBytesInto_spec hinv.io_valid hlen hhave hroom
  -- the bytes move from the message to the buffer, and none is lost between them
  have hdrop := OBuffer.unread_advance hinv.msg_valid hlen
  have hpos := hinv.msg_valid.pos_nonneg
  refine ⟨io, hread, SendInv.still ⟨hvalid, hend ▸ hinv.io_end, hfront.trans hinv.io_front, ?_, ?_,
    hinv.counted, hinv.sized, hinv.calls_front⟩ rfl ?_ ⟨rfl, rfl, rfl, rfl, rfl⟩⟩
  · constructor
    · simp only
      omega
    · simp only [OBuffer.canRead] at hhave ⊢
      omega
  · have hloaded := hinv.loaded
    unfold Loaded at hloaded ⊢
    simp only
    cases hbuf : s.oMsg.buf with
    | none =>
        rw [hbuf] at hloaded
        simp only [OBuffer.canRead] at hloaded ⊢
        omega
    | some package =>
        rw [hbuf] at hloaded
        exact hloaded
  · calc
      s.accepted ++ (io.unread ++ OBuffer.unread { s.oMsg with pos := s.oMsg.pos + writeLen } ++
            s.behind.flatMap payload)
          = s.accepted ++ (s.ioSend.unread ++ (s.oMsg.unread.take writeLen.toNat ++
              s.oMsg.unread.drop writeLen.toNat) ++ s.behind.flatMap payload) := by
            rw [hunread, hdrop, List.append_assoc s.ioSend.unread]
      _ = s.accepted ++ s.outgoing := by rw [List.take_append_drop, outgoing]

/-- The rest of a pass, with a `canWrite` that may be from before a flush. -/
theorem copyMsg_spec (hinv : s.SendInv) {canWrite : Int} (hnonneg : 0 ≤ canWrite)
    (hroom : canWrite ≤ s.ioSend.canWrite) (calls : Nat) :
    (∃ t, s.copyMsg canWrite calls = .leave (some (.drained t calls)) ∧ Kept s t) ∨
    ∃ t, s.copyMsg canWrite calls = .again (t, calls) ∧ Kept s t := by
  by_cases hdone : s.oMsg.canRead ≤ 0
  · obtain ⟨t, hfinish, hkept, hbuf⟩ := finishMsg_spec hinv hdone
    have hcopy : s.copyMsg canWrite calls = t.loadMsg calls := by
      simp only [copyMsg, hdone, if_true, hfinish]
    rw [hcopy]
    rcases loadMsg_spec hkept.inv hbuf calls with hleave | ⟨last, hagain, hlast⟩
    · exact Or.inl ⟨t, hleave, hkept⟩
    · exact Or.inr ⟨last, hagain, hkept.trans hlast⟩
  · obtain ⟨writeLen, hdef⟩ :
        ∃ len, (if s.oMsg.canRead < canWrite then s.oMsg.canRead else canWrite) = len := ⟨_, rfl⟩
    have hle : 0 ≤ writeLen ∧ writeLen ≤ s.oMsg.canRead ∧ writeLen ≤ canWrite := by
      rw [← hdef]
      split <;> omega
    obtain ⟨hlen, hhave, hbound⟩ := hle
    obtain ⟨io, hread, hkept⟩ := copy_spec hinv hlen hhave (by omega)
    have hcopy : s.copyMsg canWrite calls = .again
        ({ s with oMsg := { s.oMsg with pos := s.oMsg.pos + writeLen }, ioSend := io }, calls) := by
      simp only [copyMsg, hdone, if_false, hdef, hread]
    exact Or.inr ⟨_, hcopy, hkept⟩

end Pieces

/-! ## A whole call -/

section Calls

variable (close : Endpoint ρ → Endpoint ρ) (limit : Nat) (answers : Nat → SendAnswer)
  {t : Endpoint ρ}

/-- How a call on the send side returns: with 0 and the stream kept, or with -1
and the endpoint closed. -/
def SendReturns (s : Endpoint ρ) (value : Int) (t : Endpoint ρ) : Prop :=
  value = 0 ∧ Kept s t ∨ value = -1 ∧ ∃ last, Kept s last ∧ t = close last

/-- How the nested loops are left. -/
def SendExits (s : Endpoint ρ) (exit : Option (SendExit ρ)) : Prop :=
  (∃ value t, exit = some (.ret value t) ∧ SendReturns close s value t) ∨
    ∃ t n, exit = some (.drained t n) ∧ Kept s t

theorem Kept.sendReturns {value : Int} {t : Endpoint ρ} (hkept : Kept s next)
    (hreturns : SendReturns close next value t) : SendReturns close s value t := by
  rcases hreturns with ⟨hvalue, hnext⟩ | ⟨hvalue, last, hlast, rfl⟩
  · exact Or.inl ⟨hvalue, hkept.trans hnext⟩
  · exact Or.inr ⟨hvalue, last, hkept.trans hlast, rfl⟩

/-- A buffer without room is full, and has something to send. -/
theorem SendInv.full (hinv : s.SendInv) (hfull : s.ioSend.canWrite ≤ 0) :
    s.ioSend.canWrite = 0 ∧ 0 < s.ioSend.canRead := by
  have hle := hinv.io_valid.write_le_end
  have hend := hinv.io_end
  have hfront := hinv.io_front
  simp only [IOBuffer.canWrite, IOBuffer.canRead] at hfull ⊢
  omega

/-- One pass returns, comes to an empty queue, or goes round, and never fails an
assertion. -/
theorem sendPass_spec (hinv : s.SendInv) (calls : Nat) :
    (∃ value t, sendPass close limit answers (s, calls) = .leave (some (.ret value t)) ∧
      SendReturns close s value t) ∨
    (∃ t n, sendPass close limit answers (s, calls) = .leave (some (.drained t n)) ∧ Kept s t) ∨
    ∃ t n, sendPass close limit answers (s, calls) = .again (t, n) ∧ Kept s t := by
  by_cases hfull : s.ioSend.canWrite ≤ 0
  · -- the buffer is full and must be emptied before anything is copied
    obtain ⟨hcan, hread⟩ := hinv.full hfull
    rcases sendToKernel_spec close hinv hread (answers calls) with
      ⟨t, hkept, hsend⟩ | hsend | ⟨t, hkept, hsend, hroom, _, _⟩
    · exact Or.inl ⟨-1, close t, by simp [sendPass, hfull, hsend], Or.inr ⟨rfl, t, hkept, rfl⟩⟩
    · -- the kernel takes nothing now: give up only if the queue has grown too long
      by_cases hlimit : (limit : Int) < s.sendQueue.size
      · exact Or.inl ⟨-1, close s, by simp [sendPass, hfull, hsend, hlimit],
          Or.inr ⟨rfl, s, hinv.kept, rfl⟩⟩
      · exact Or.inl ⟨0, s, by simp [sendPass, hfull, hsend, hlimit], Or.inl ⟨rfl, hinv.kept⟩⟩
    · have hpass : sendPass close limit answers (s, calls) = t.copyMsg 0 (calls + 1) := by
        simp [sendPass, hsend, hcan]
      rw [hpass]
      rcases copyMsg_spec hkept.inv (Int.le_refl 0) (Int.le_of_lt hroom) (calls + 1) with
        ⟨last, hleave, hlast⟩ | ⟨last, hagain, hlast⟩
      · exact Or.inr (Or.inl ⟨last, _, hleave, hkept.trans hlast⟩)
      · exact Or.inr (Or.inr ⟨last, _, hagain, hkept.trans hlast⟩)
  · have hroom : 0 ≤ s.ioSend.canWrite := by omega
    have hpass : sendPass close limit answers (s, calls) =
        s.copyMsg s.ioSend.canWrite calls := by
      simp [sendPass, hfull]
    rw [hpass]
    rcases copyMsg_spec hinv hroom (Int.le_refl _) calls with
      ⟨last, hleave, hlast⟩ | ⟨last, hagain, hlast⟩
    · exact Or.inr (Or.inl ⟨last, _, hleave, hlast⟩)
    · exact Or.inr (Or.inr ⟨last, _, hagain, hlast⟩)

theorem flush_spec (hinv : s.SendInv) (answer : SendAnswer) :
    ∃ value t, s.flush close limit answer = some (value, t) ∧ SendReturns close s value t := by
  by_cases hread : 0 < s.ioSend.canRead
  · rcases sendToKernel_spec close hinv hread answer with
      ⟨t, hkept, hsend⟩ | hsend | ⟨t, hkept, hsend, _, _, _⟩
    · exact ⟨-1, close t, by simp [flush, hread, hsend], Or.inr ⟨rfl, t, hkept, rfl⟩⟩
    · by_cases hlimit : (limit : Int) < s.sendQueue.size
      · exact ⟨-1, close s, by simp [flush, hread, hsend, hlimit],
          Or.inr ⟨rfl, s, hinv.kept, rfl⟩⟩
      · exact ⟨0, s, by simp [flush, hread, hsend, hlimit], Or.inl ⟨rfl, hinv.kept⟩⟩
    · exact ⟨0, t, by simp [flush, hread, hsend], Or.inl ⟨rfl, hkept⟩⟩
  · exact ⟨0, s, by rw [flush, if_neg hread], Or.inl ⟨rfl, hinv.kept⟩⟩

/-- A pass that goes round again keeps the stream. -/
theorem Kept.again {calls : Nat} {later : Endpoint ρ × Nat} (hkept : Kept s t)
    (hpass : sendPass close limit answers (t, calls) = .again later) : Kept s later.1 := by
  rcases sendPass_spec close limit answers hkept.inv calls with
    ⟨_, _, hleave, _⟩ | ⟨_, _, hleave, _⟩ | ⟨last, n, hagain, hlast⟩
  · cases hleave.symm.trans hpass
  · cases hleave.symm.trans hpass
  · cases hagain.symm.trans hpass
    exact hkept.trans hlast

theorem Kept.visits {start later : Endpoint ρ × Nat} (hkept : Kept s start.1)
    (hvisits : Loop.Visits (sendPass close limit answers) start later) : Kept s later.1 := by
  have hagain : ∀ state next : Endpoint ρ × Nat, Kept s state.1 →
      sendPass close limit answers state = .again next → Kept s next.1 :=
    fun _ _ hstate hpass => hstate.again close limit answers hpass
  have hlater := Loop.Visits.invariant hagain hkept hvisits
  exact hlater

/-- What the loops rely on to end. -/
theorem SendInv.sound (hinv : s.SendInv) : s.Sound where
  io := hinv.io_valid
  msg := hinv.msg_valid
  counted := hinv.counted
  unloaded hbuf := by
    have hloaded := hinv.loaded
    simpa only [Loaded, hbuf] using hloaded
  loaded hbuf := by
    obtain ⟨package, hpackage⟩ := Option.ne_none_iff_exists'.mp hbuf
    obtain ⟨entry, rest, hnodes, _⟩ := loaded_cons hinv hpackage
    simp [hnodes]

/-- The send loops end, and return in one of the two ways. -/
theorem runSend_spec (hinv : s.SendInv) (hsock : s.sock ≠ invalidSocket) :
    ∃ value t, s.runSend close limit answers = some (value, t) ∧ SendReturns close s value t := by
  obtain ⟨exit, hrun⟩ := hinv.sound.exists_run close limit answers
  have hleave : ∀ (state : Endpoint ρ × Nat) (exit : Option (SendExit ρ)), Kept s state.1 →
      sendPass close limit answers state = .leave exit → SendExits close s exit := by
    rintro ⟨t, calls⟩ result hkept hbody
    rcases sendPass_spec close limit answers hkept.inv calls with
      ⟨value, last, hpass, hreturns⟩ | ⟨last, n, hpass, hlast⟩ | ⟨_, _, hpass, _⟩
    · cases hpass.symm.trans hbody
      exact Or.inl ⟨value, last, rfl, hkept.sendReturns close hreturns⟩
    · cases hpass.symm.trans hbody
      exact Or.inr ⟨last, n, rfl, hkept.trans hlast⟩
    · cases hpass.symm.trans hbody
  have hexit : SendExits close s exit := Loop.Yields.induction
    (fun _ _ hstate hbody => hstate.again close limit answers hbody) hleave hinv.kept ⟨_, hrun⟩
  rcases hexit with ⟨value, t, rfl, hreturns⟩ | ⟨t, n, rfl, hkept⟩
  · exact ⟨value, t, by simp only [runSend, if_neg hsock, hrun], hreturns⟩
  · obtain ⟨value, last, hflush, hreturns⟩ := flush_spec close limit hkept.inv (answers n)
    exact ⟨value, last, by simp only [runSend, if_neg hsock, hrun, hflush],
      hkept.sendReturns close hreturns⟩

end Calls

/-! ## Queueing and clearing -/

/-- A new entry goes behind all others, whether or not the front one is loaded. -/
theorem behind_push (hinv : s.SendInv) {entry : QMSend} (hmsg : next.oMsg = s.oMsg)
    (hqueue : next.sendQueue = s.sendQueue.push entry) : next.behind = s.behind ++ [entry] := by
  rw [behind, behind, hmsg, hqueue, MyQueue.push_nodes]
  cases hbuf : s.oMsg.buf with
  | none => rfl
  | some package =>
      obtain ⟨front, rest, hnodes, _, _⟩ := loaded_cons hinv hbuf
      rw [hnodes]
      rfl

theorem stream_push (hinv : s.SendInv) (entry : QMSend) (next : Endpoint ρ)
    (hkernel : next.kernel = s.kernel)
    (hio : next.ioSend = s.ioSend) (hmsg : next.oMsg = s.oMsg)
    (hqueue : next.sendQueue = s.sendQueue.push entry) :
    next.accepted ++ next.outgoing = s.accepted ++ s.outgoing ++ payload entry := by
  rw [accepted, accepted, outgoing, outgoing, behind_push hinv hmsg hqueue, hkernel, hio, hmsg,
    List.flatMap_append, List.flatMap_singleton]
  simp only [List.append_assoc]

/-- So the invariant is kept, if the entry has as many bytes as it says. -/
theorem SendInv.push (hinv : s.SendInv) {entry : QMSend}
    (hentry : entry.data.bytes.length = entry.size) (hkernel : next.kernel = s.kernel)
    (hio : next.ioSend = s.ioSend) (hmsg : next.oMsg = s.oMsg)
    (hqueue : next.sendQueue = s.sendQueue.push entry) : next.SendInv := by
  refine ⟨hio ▸ hinv.io_valid, hio ▸ hinv.io_end, hio ▸ hinv.io_front, hmsg ▸ hinv.msg_valid,
    ?_, hqueue ▸ hinv.counted.push _, ?_, hkernel ▸ hinv.calls_front⟩
  · have hloaded := hinv.loaded
    simp only [Loaded, hmsg, hqueue, MyQueue.push_nodes] at hloaded ⊢
    split
    next hbuf => simpa only [hbuf] using hloaded
    next package hbuf =>
      obtain ⟨front, rest, hnodes, hdata, hend⟩ := loaded_cons hinv hbuf
      exact ⟨front, _, by rw [hnodes, List.cons_append], hdata, hend⟩
  · intro other hother
    simp only [hqueue, MyQueue.push_nodes, List.mem_append, List.mem_singleton] at hother
    rcases hother with hother | rfl
    · exact hinv.sized other hother
    · exact hentry

theorem sendData_of_open (hsock : s.sock ≠ invalidSocket) (data : Memory Byte) (dataLen : Nat) :
    s.sendData data dataLen = (0,
      { s.count fun test => { test with
          sendQueueSize := test.sendQueueSize + 1
          sendTimes := test.sendTimes + 1 } with
        memoryPool := (s.memoryPool.alloc dataLen).2
        sendQueue := s.sendQueue.push
          ⟨dataLen, (s.memoryPool.alloc dataLen).1, data.read 0 dataLen⟩ }) := by
  rw [sendData, if_neg hsock]
  rfl

/-- `SendData` on an open socket appends its payload to what is on its way out. -/
theorem sendData_spec (hinv : s.SendInv) (data : Memory Byte) (dataLen : Nat) :
    SameRecv s (s.sendData data dataLen).2 ∧ (s.sendData data dataLen).2.SendInv ∧
      (s.sock ≠ invalidSocket →
        (s.sendData data dataLen).2.accepted ++ (s.sendData data dataLen).2.outgoing =
          s.accepted ++ s.outgoing ++ data.read 0 dataLen) := by
  by_cases hsock : s.sock = invalidSocket
  · rw [sendData, if_pos hsock]
    exact ⟨.refl s, hinv, fun hopen => absurd hsock hopen⟩
  · rw [sendData_of_open hsock]
    refine ⟨⟨rfl, rfl, rfl, rfl, rfl⟩, ?_, fun _ => ?_⟩
    · exact hinv.push (Memory.length_read data 0 dataLen) rfl rfl rfl rfl
    · exact stream_push hinv ⟨dataLen, (s.memoryPool.alloc dataLen).1, data.read 0 dataLen⟩ _
        rfl rfl rfl rfl

/-- Queueing sends nothing. -/
theorem sendData_kernel (s : Endpoint ρ) (data : Memory Byte) (dataLen : Nat) :
    (s.sendData data dataLen).2.kernel = s.kernel := by
  unfold sendData
  split
  · rfl
  · rfl

/-- The bytes that `SendMsg(msg)` queues: as many as the header says. -/
def msgBytes (msg : Memory Byte) : List Byte := msg.read 0 (MsgHead.load msg).size

theorem sendMsg_spec (hinv : s.SendInv) (msg : Memory Byte) :
    SameRecv s (s.sendMsg msg).2 ∧ (s.sendMsg msg).2.SendInv ∧
      (s.sock ≠ invalidSocket →
        (s.sendMsg msg).2.accepted ++ (s.sendMsg msg).2.outgoing =
          s.accepted ++ s.outgoing ++ msgBytes msg) := by
  unfold sendMsg
  split
  next hclosed => exact ⟨.refl s, hinv, fun hopen => absurd hclosed hopen⟩
  next => exact sendData_spec hinv msg _

theorem sendMsg_kernel (s : Endpoint ρ) (msg : Memory Byte) :
    (s.sendMsg msg).2.kernel = s.kernel := by
  unfold sendMsg
  split
  · rfl
  · exact sendData_kernel s msg _

theorem sendMsgs_kernel (msgs : List (Memory Byte)) (s : Endpoint ρ) :
    (msgs.foldl (fun s msg => (s.sendMsg msg).2) s).kernel = s.kernel := by
  induction msgs generalizing s with
  | nil => rfl
  | cons msg msgs ih => exact (ih _).trans (sendMsg_kernel s msg)

theorem sendMsg_ext (s : Endpoint ρ) (msg : Memory Byte) : (s.sendMsg msg).2.ext = s.ext := by
  unfold sendMsg sendData
  split
  · rfl
  · rfl

theorem sendMsgs_ext (msgs : List (Memory Byte)) (s : Endpoint ρ) :
    (msgs.foldl (fun s msg => (s.sendMsg msg).2) s).ext = s.ext := by
  induction msgs generalizing s with
  | nil => rfl
  | cons msg msgs ih => exact (ih _).trans (sendMsg_ext s msg)

theorem sendMsgs_spec (hinv : s.SendInv) (msgs : List (Memory Byte)) :
    SameRecv s (msgs.foldl (fun s msg => (s.sendMsg msg).2) s) ∧
      (msgs.foldl (fun s msg => (s.sendMsg msg).2) s).SendInv ∧
      (s.sock ≠ invalidSocket →
        (msgs.foldl (fun s msg => (s.sendMsg msg).2) s).accepted ++
            (msgs.foldl (fun s msg => (s.sendMsg msg).2) s).outgoing =
          s.accepted ++ s.outgoing ++ msgs.flatMap msgBytes) := by
  induction msgs generalizing s with
  | nil => exact ⟨.refl s, hinv, fun _ => by simp⟩
  | cons msg msgs ih =>
      obtain ⟨hsame, hnext, hstream⟩ := sendMsg_spec hinv msg
      obtain ⟨hrest, hlast, htail⟩ := ih hnext
      refine ⟨hsame.trans hrest, hlast, fun hopen => ?_⟩
      rw [List.foldl_cons, htail (hsame.sock ▸ hopen), hstream hopen, List.flatMap_cons,
        List.append_assoc]

/-- Nothing is on its way out. -/
structure Idle (s : Endpoint ρ) : Prop where
  nodes : s.sendQueue.nodes = []
  msg : s.oMsg.buf = none
  io : s.ioSend.unread = []

theorem Idle.outgoing_eq (hidle : s.Idle) (hinv : s.SendInv) : s.outgoing = [] := by
  have hloaded := hinv.loaded
  rw [Loaded, hidle.msg] at hloaded
  rw [outgoing, hidle.io, OBuffer.unread_eq_nil hloaded, behind, hidle.msg, hidle.nodes]
  rfl

/-- What both constructors set up. -/
theorem fresh_spec {sendBuf : Memory Byte} {size : Nat} (hqueue : s.sendQueue = .new)
    (hio : s.ioSend = .setBuffer sendBuf size) (hsize : 0 < size) (hmsg : s.oMsg = .empty)
    (hkernel : s.kernel = []) : s.SendInv ∧ s.Idle := by
  refine ⟨⟨hio ▸ IOBuffer.setBuffer_valid _ (Int.natCast_nonneg _), ?_, hio ▸ rfl, ?_, ?_,
    hqueue ▸ MyQueue.new_counted, ?_, ?_⟩, ⟨hqueue ▸ rfl, hmsg ▸ rfl, hio ▸ rfl⟩⟩
  · simp only [hio, IOBuffer.setBuffer]
    omega
  · rw [hmsg]
    exact OBuffer.setBuffer_valid none (Int.le_refl 0)
  · rw [Loaded, hmsg]
    exact Int.le_refl 0
  · simp only [hqueue, MyQueue.new_nodes, List.not_mem_nil, false_implies, implies_true]
  · simp only [hkernel, List.not_mem_nil, false_implies, implies_true]

/-- What `Close` does to both classes' members behind `closesocket`. -/
theorem cleared_spec (s : Endpoint ρ) (hcounted : s.sendQueue.Counted)
    (hcalls : ∀ call ∈ s.kernel, call.io.curReadPos = 0) {size : Nat} (hsize : 0 < size) :
    SameRecv s (s.clearSendQueue.clearBuffer size) ∧
      (s.clearSendQueue.clearBuffer size).SendInv ∧ (s.clearSendQueue.clearBuffer size).Idle ∧
      (s.clearSendQueue.clearBuffer size).kernel = s.kernel := by
  obtain ⟨sendQueue, memoryPool, test, hclear, hnodes, hqueue⟩ := clearSendQueue_spec s
  rw [hclear]
  refine ⟨⟨rfl, rfl, rfl, rfl, rfl⟩, ⟨IOBuffer.setBuffer_valid _ (Int.natCast_nonneg _), ?_, rfl,
    OBuffer.setBuffer_valid _ (Int.le_refl _), Int.le_refl 0, hqueue hcounted, ?_, hcalls⟩,
    ⟨hnodes, rfl, rfl⟩, rfl⟩
  · simp only [clearBuffer, IOBuffer.setBuffer]
    omega
  · intro entry hentry
    change entry ∈ sendQueue.nodes at hentry
    rw [hnodes] at hentry
    cases hentry

/-- What `Close` leaves: nothing on its way out, and the descriptor passed to
`closesocket` if there was one. What is retained of the input stays. -/
structure ClosedFrom (s next : Endpoint ρ) : Prop where
  inv : next.SendInv
  sock : next.sock = invalidSocket
  closesocket : next.closesocket =
    if s.sock = invalidSocket then s.closesocket else s.closesocket ++ [s.sock]
  retainSize : next.retainSize = s.retainSize
  recvBuf : next.recvBuf = s.recvBuf
  kernel : next.kernel = s.kernel

end SelectNet.Endpoint
