import SelectNet.CommonLib.Endpoint

/-!
# The send loops end

A pass may copy nothing: `canWrite` is not read again behind a flush, and
messages may be empty. It then has made room in the buffer, popped an entry or
loaded the next, so bytes, entries, what is loaded and what is full make up a
variant together.
-/

namespace SelectNet.Endpoint

variable {ρ : Type}

/-- The entries whose bytes are not yet in `_oMsg`: the front entry is left out
while it is loaded there. -/
def behind (s : Endpoint ρ) : List QMSend :=
  if s.oMsg.buf.isSome then s.sendQueue.nodes.tail else s.sendQueue.nodes

/-- 1 for a buffer without room. -/
def fullness (io : IOBuffer) : Nat := if 0 < io.canWrite then 0 else 1

/-- Bytes left in the message and behind it, entries, and one each for a message
that is not loaded and a buffer that is full. -/
def variant (s : Endpoint ρ) : Nat :=
  2 * (s.oMsg.canRead.toNat + (s.behind.map QMSend.size).sum) + 2 * s.sendQueue.nodes.length +
    (if s.oMsg.buf.isSome then 0 else 1) + fullness s.ioSend

/-- What the send loops rely on: positions are in range, the queue knows its
length, and `_oMsg` is null and empty or there is an entry to pop behind it. -/
structure Sound (s : Endpoint ρ) : Prop where
  io : s.ioSend.Valid
  msg : s.oMsg.Valid
  counted : s.sendQueue.Counted
  unloaded : s.oMsg.buf = none → s.oMsg.canRead ≤ 0
  loaded : s.oMsg.buf ≠ none → s.sendQueue.nodes ≠ []

variable {s : Endpoint ρ}

theorem variant_lt_sendFuel (s : Endpoint ρ) : s.variant < s.sendFuel := by
  have hbehind : (s.behind.map QMSend.size).sum ≤ (s.sendQueue.nodes.map QMSend.size).sum := by
    unfold behind
    split
    · cases s.sendQueue.nodes with
      | nil => exact Nat.le_refl _
      | cons entry rest => simp
    · exact Nat.le_refl _
  unfold variant sendFuel fullness
  split <;> split <;> omega

/-! ## The pieces of a pass -/

theorem finishMsg_of_cons {package : Package} {entry : QMSend} {rest : List QMSend}
    (hbuf : s.oMsg.buf = some package) (hnodes : s.sendQueue.nodes = entry :: rest) :
    s.finishMsg = some
      { s.count fun test => { test with sendQueueSize := test.sendQueueSize - 1 } with
        sendQueue := ⟨s.sendQueue.size - 1, rest⟩
        memoryPool := s.memoryPool.free entry.data.unit (some entry.size)
        oMsg := .setBuffer none 0 } := by
  have hpop := MyQueue.pop_of_cons hnodes
  simp only [finishMsg, hbuf, Option.isSome_some, if_true, count, hpop]

theorem loadMsg_of_cons {entry : QMSend} {rest : List QMSend} (hcounted : s.sendQueue.Counted)
    (hnodes : s.sendQueue.nodes = entry :: rest) (calls : Nat) :
    s.loadMsg calls =
      .again ({ s with oMsg := .setBuffer (some entry.data) entry.size }, calls) := by
  have hdata : ¬ s.sendQueue.hasData = false := by
    rw [hcounted.hasData_eq_false_iff, hnodes]
    exact List.cons_ne_nil _ _
  rw [loadMsg, if_neg hdata, MyQueue.front, hnodes]
  rfl

/-- Finishing a message pops its entry. -/
theorem Sound.finishMsg (hsound : s.Sound) :
    ∃ t, s.finishMsg = some t ∧ t.Sound ∧ t.oMsg.buf = none ∧ t.variant ≤ s.variant := by
  cases hbuf : s.oMsg.buf with
  | none =>
      refine ⟨s, ?_, hsound, hbuf, Nat.le_refl _⟩
      simp [Endpoint.finishMsg, hbuf]
  | some package =>
      obtain ⟨entry, rest, hnodes⟩ := List.exists_cons_of_ne_nil (hsound.loaded (by simp [hbuf]))
      refine ⟨_, finishMsg_of_cons hbuf hnodes,
        ⟨hsound.io, OBuffer.setBuffer_valid _ (Int.le_refl 0),
        hsound.counted.pop hnodes, fun _ => Int.le_refl 0, fun hsome => absurd rfl hsome⟩, rfl, ?_⟩
      simp only [variant, behind, count, hbuf, hnodes, OBuffer.setBuffer, OBuffer.canRead,
        Option.isSome_some, Option.isSome_none, Bool.false_eq_true, if_true, if_false,
        List.tail_cons, List.length_cons]
      omega

/-- With no message loaded, the front of the queue is loaded, if there is one. -/
theorem Sound.loadMsg (hsound : s.Sound) (hbuf : s.oMsg.buf = none) (calls : Nat) :
    s.loadMsg calls = .leave (some (.drained s calls)) ∨
    ∃ t, s.loadMsg calls = .again (t, calls) ∧ t.Sound ∧ t.variant < s.variant := by
  have hunloaded := hsound.unloaded hbuf
  cases hnodes : s.sendQueue.nodes with
  | nil => exact Or.inl (if_pos (hsound.counted.hasData_eq_false_iff.mpr hnodes))
  | cons entry rest =>
      refine Or.inr ⟨_, loadMsg_of_cons hsound.counted hnodes calls, ⟨hsound.io,
        OBuffer.setBuffer_valid _ (Int.natCast_nonneg _), hsound.counted,
        fun hnone => by simp [OBuffer.setBuffer] at hnone, fun _ => by simp [hnodes]⟩, ?_⟩
      simp only [variant, behind, hbuf, hnodes, OBuffer.setBuffer, OBuffer.canRead,
        Option.isSome_some, Option.isSome_none, Bool.false_eq_true, if_true, if_false,
        List.tail_cons, List.map_cons, List.sum_cons]
      simp only [OBuffer.canRead] at hunloaded
      omega

/-- Copying is within what the message has and what the buffer has room for. -/
theorem Sound.copy (hsound : s.Sound) {writeLen : Int} (hlen : 0 ≤ writeLen)
    (hhave : writeLen ≤ s.oMsg.canRead) (hroom : writeLen ≤ s.ioSend.canWrite)
    (hnow : 0 < s.ioSend.canWrite) :
    ∃ oMsg io, s.oMsg.readBytesInto s.ioSend writeLen = some (oMsg, io) ∧
      Sound { s with oMsg, ioSend := io } ∧
      variant { s with oMsg, ioSend := io } + writeLen.toNat ≤ s.variant := by
  obtain ⟨io, hread, hvalid, _, hend, _, hwrite⟩ :=
    OBuffer.readBytesInto_spec hsound.io hlen hhave hroom
  have hpos := hsound.msg.pos_nonneg
  refine ⟨_, io, hread, ⟨hvalid, ?_, hsound.counted, fun hbuf => ?_, hsound.loaded⟩, ?_⟩
  · simp only [OBuffer.canRead] at hhave
    constructor <;> simp only <;> omega
  · have hunloaded := hsound.unloaded hbuf
    simp only [OBuffer.canRead] at hunloaded ⊢
    omega
  · have hleft : io.canWrite = s.ioSend.canWrite - writeLen := by
      simp only [IOBuffer.canWrite, hend, hwrite]
      omega
    simp only [variant, behind, fullness, hleft, if_pos hnow]
    simp only [OBuffer.canRead] at hhave ⊢
    split <;> split <;> omega

/-- The rest of a pass. With a `canWrite` from before a flush it may not make
progress itself. -/
theorem Sound.copyMsg (hsound : s.Sound) {canWrite : Int} (hnonneg : 0 ≤ canWrite)
    (hroom : canWrite ≤ s.ioSend.canWrite) (hnow : 0 < s.ioSend.canWrite) (calls : Nat) :
    (∃ t, s.copyMsg canWrite calls = .leave (some (.drained t calls)) ∧ t.Sound) ∨
    ∃ t, s.copyMsg canWrite calls = .again (t, calls) ∧ t.Sound ∧ t.variant ≤ s.variant ∧
      (0 < canWrite → t.variant < s.variant) := by
  by_cases hdone : s.oMsg.canRead ≤ 0
  · obtain ⟨t, hfinish, hnext, hbuf, hle⟩ := hsound.finishMsg
    have hcopy : s.copyMsg canWrite calls = t.loadMsg calls := by
      simp only [Endpoint.copyMsg, hdone, if_true, hfinish]
    rw [hcopy]
    rcases hnext.loadMsg hbuf calls with hleave | ⟨last, hagain, hlast, hlt⟩
    · exact Or.inl ⟨t, hleave, hnext⟩
    · exact Or.inr ⟨last, hagain, hlast, by omega, fun _ => by omega⟩
  · obtain ⟨writeLen, hdef⟩ :
        ∃ len, (if s.oMsg.canRead < canWrite then s.oMsg.canRead else canWrite) = len := ⟨_, rfl⟩
    have hbounds : 0 ≤ writeLen ∧ writeLen ≤ s.oMsg.canRead ∧ writeLen ≤ canWrite ∧
        (0 < canWrite → 0 < writeLen) := by
      rw [← hdef]
      split <;> omega
    obtain ⟨hlen, hhave, hle, hpos⟩ := hbounds
    obtain ⟨oMsg, io, hread, hnext, hvariant⟩ := hsound.copy hlen hhave (by omega) hnow
    have hcopy : s.copyMsg canWrite calls = .again ({ s with oMsg, ioSend := io }, calls) := by
      simp only [Endpoint.copyMsg, hdone, if_false, hdef, hread]
    refine Or.inr ⟨_, hcopy, hnext, by omega, fun hcan => ?_⟩
    have hsome := hpos hcan
    omega

/-- An attempt to send closes, finds the kernel busy, or makes room. -/
theorem Sound.sendToKernel (hsound : s.Sound) (close : Endpoint ρ → Endpoint ρ)
    (answer : SendAnswer) :
    (∃ t, s.sendToKernel close answer = some (-1, close t)) ∨
    s.sendToKernel close answer = some (0, s) ∨
    ∃ t, s.sendToKernel close answer = some (1, t) ∧ t.Sound ∧ 0 < t.ioSend.canWrite ∧
      t.oMsg = s.oMsg ∧ t.sendQueue = s.sendQueue := by
  cases answer with
  | selectFailed => exact Or.inl ⟨s, rfl⟩
  | notWritable => exact Or.inr (Or.inl rfl)
  | writable count =>
      by_cases hnone : min count s.ioSend.canRead.toNat = 0
      · left
        exact ⟨{ s with kernel := s.kernel ++ [⟨s.ioSend, 0⟩] },
          by simp only [Endpoint.sendToKernel, hnone, if_true]⟩
      · right
        right
        obtain ⟨moved, hmove, hmoved, _, hend⟩ := IOBuffer.moveReadPos_spec hsound.io
          (Int.natCast_nonneg (min count s.ioSend.canRead.toNat)) (by omega)
        obtain ⟨hvalid, hsame, hsameEnd, _, hwrite⟩ := IOBuffer.moveDataToFront_spec hmoved
        refine ⟨{ s with
            kernel := s.kernel ++ [⟨s.ioSend, min count s.ioSend.canRead.toNat⟩]
            ioSend := moved.moveDataToFront },
          by simp only [Endpoint.sendToKernel, if_neg hnone, hmove],
          ⟨hvalid, hsound.msg, hsound.counted, hsound.unloaded, hsound.loaded⟩, ?_, rfl, rfl⟩
        -- what was taken has made room
        have hfit := hsound.io.write_le_end
        have hfirst := hsound.io.read_nonneg
        have htaken : moved.canRead =
            s.ioSend.canRead - (min count s.ioSend.canRead.toNat : Nat) := by
          unfold IOBuffer.moveReadPos at hmove
          split at hmove
          next => cases hmove
          next =>
            cases hmove
            simp only [IOBuffer.canRead]
            omega
        simp only [IOBuffer.canWrite, hsameEnd, hend, hwrite, htaken]
        simp only [IOBuffer.canRead] at hnone ⊢
        omega

/-! ## Passes and calls -/

section Calls

variable (close : Endpoint ρ → Endpoint ρ) (limit : Nat) (answers : Nat → SendAnswer)

/-- Every pass returns, or finds the queue empty, or makes the variant smaller;
none fails an assertion. -/
theorem Sound.sendPass (hsound : s.Sound) (calls : Nat) :
    (∃ value t, sendPass close limit answers (s, calls) = .leave (some (.ret value t))) ∨
    (∃ t n, sendPass close limit answers (s, calls) = .leave (some (.drained t n)) ∧ t.Sound) ∨
    ∃ t n, sendPass close limit answers (s, calls) = .again (t, n) ∧ t.Sound ∧
      t.variant < s.variant := by
  by_cases hfull : s.ioSend.canWrite ≤ 0
  · rcases hsound.sendToKernel close (answers calls) with
      ⟨t, hsend⟩ | hsend | ⟨t, hsend, hnext, hroom, hmsg, hqueue⟩
    · exact Or.inl ⟨-1, close t, by simp [Endpoint.sendPass, hfull, hsend]⟩
    · by_cases hlimit : (limit : Int) < s.sendQueue.size
      · exact Or.inl ⟨-1, close s, by simp [Endpoint.sendPass, hfull, hsend, hlimit]⟩
      · exact Or.inl ⟨0, s, by simp [Endpoint.sendPass, hfull, hsend, hlimit]⟩
    · have hzero : s.ioSend.canWrite = 0 := by
        have hfit := hsound.io.write_le_end
        simp only [IOBuffer.canWrite] at hfull ⊢
        omega
      have hpass : Endpoint.sendPass close limit answers (s, calls) =
          t.copyMsg 0 (calls + 1) := by
        simp [Endpoint.sendPass, hsend, hzero]
      -- the flush made room, which the stale `canWrite` does not show
      have hflushed : t.variant < s.variant := by
        simp only [variant, behind, fullness, hmsg, hqueue, if_pos hroom,
          if_neg (Int.not_lt.mpr hfull)]
        omega
      rw [hpass]
      rcases hnext.copyMsg (Int.le_refl 0) (Int.le_of_lt hroom) hroom (calls + 1) with
        ⟨last, hleave, hlast⟩ | ⟨last, hagain, hlast, hle, _⟩
      · exact Or.inr (Or.inl ⟨last, _, hleave, hlast⟩)
      · exact Or.inr (Or.inr ⟨last, _, hagain, hlast, by omega⟩)
  · have hroom : 0 < s.ioSend.canWrite := by omega
    have hpass : Endpoint.sendPass close limit answers (s, calls) =
        s.copyMsg s.ioSend.canWrite calls := by
      simp [Endpoint.sendPass, hfull]
    rw [hpass]
    rcases hsound.copyMsg (Int.le_of_lt hroom) (Int.le_refl _) hroom calls with
      ⟨last, hleave, hlast⟩ | ⟨last, hagain, hlast, _, hlt⟩
    · exact Or.inr (Or.inl ⟨last, _, hleave, hlast⟩)
    · exact Or.inr (Or.inr ⟨last, _, hagain, hlast, hlt hroom⟩)

theorem Sound.again {calls : Nat} {later : Endpoint ρ × Nat} (hsound : s.Sound)
    (hpass : Endpoint.sendPass close limit answers (s, calls) = .again later) :
    later.1.Sound ∧ later.1.variant < s.variant := by
  rcases hsound.sendPass close limit answers calls with
    ⟨_, _, hleave⟩ | ⟨_, _, hleave, _⟩ | ⟨t, n, hagain, hnext, hlt⟩
  · cases hleave.symm.trans hpass
  · cases hleave.symm.trans hpass
  · cases hagain.symm.trans hpass
    exact ⟨hnext, hlt⟩

/-- The send loops end within the bound. -/
theorem Sound.exists_run (hsound : s.Sound) :
    ∃ exit, Loop.run (Endpoint.sendPass close limit answers) s.sendFuel (s, 0) = some exit := by
  have hagain : ∀ state next : Endpoint ρ × Nat, state.1.Sound →
      Endpoint.sendPass close limit answers state = .again next →
      next.1.Sound ∧ next.1.variant < state.1.variant :=
    fun _ _ hstate hpass => hstate.again close limit answers hpass
  exact Loop.exists_run_of_variant (fun state : Endpoint ρ × Nat => state.1.variant) hagain
    hsound s.variant_lt_sendFuel

theorem Sound.flush (hsound : s.Sound) (answer : SendAnswer) :
    ∃ value next, s.flush close limit answer = some (value, next) := by
  by_cases hread : 0 < s.ioSend.canRead
  · rcases hsound.sendToKernel close answer with ⟨t, hsend⟩ | hsend | ⟨t, hsend, _⟩
    · exact ⟨-1, close t, by simp [Endpoint.flush, hread, hsend]⟩
    · by_cases hlimit : (limit : Int) < s.sendQueue.size
      · exact ⟨-1, close s, by simp [Endpoint.flush, hread, hsend, hlimit]⟩
      · exact ⟨0, s, by simp [Endpoint.flush, hread, hsend, hlimit]⟩
    · exact ⟨0, t, by simp [Endpoint.flush, hread, hsend]⟩
  · exact ⟨0, s, if_neg hread⟩

/-- So a call returns, whatever the kernel answers. -/
theorem Sound.runSend (hsound : s.Sound) :
    ∃ value next, s.runSend close limit answers = some (value, next) := by
  by_cases hsock : s.sock = invalidSocket
  · exact ⟨-1, s, if_pos hsock⟩
  obtain ⟨exit, hrun⟩ := hsound.exists_run close limit answers
  obtain ⟨⟨t, calls⟩, hvisits, hleave⟩ := Loop.Yields.visits ⟨_, hrun⟩
  have hagain : ∀ state next : Endpoint ρ × Nat, state.1.Sound →
      Endpoint.sendPass close limit answers state = .again next → next.1.Sound :=
    fun _ _ hstate hpass => (hstate.again close limit answers hpass).1
  have hlast := Loop.Visits.invariant hagain hsound hvisits
  rcases Sound.sendPass close limit answers hlast calls with
    ⟨value, next, hpass⟩ | ⟨u, n, hpass, hdrained⟩ | ⟨_, _, hpass, _⟩
  · cases hpass.symm.trans hleave
    exact ⟨value, next, by simp only [Endpoint.runSend, if_neg hsock, hrun]⟩
  · cases hpass.symm.trans hleave
    obtain ⟨value, next, hflush⟩ := hdrained.flush close limit (answers n)
    exact ⟨value, next, by simp only [Endpoint.runSend, if_neg hsock, hrun, hflush]⟩
  · cases hpass.symm.trans hleave

end Calls

end SelectNet.Endpoint
