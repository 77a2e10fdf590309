import SelectNet.CommonLib.ClientSocket

/-!
# The receive buffer

Between two calls of `ProcessorRecv` less than a package is retained, so there
is always room to ask `recv` for more. During a call the loop reads only what
was received and copies no more than `_package` holds, whatever the bytes are.
-/

namespace SelectNet

/-- `recv` gives no more than it is asked for. -/
theorem RecvAnswer.length_received_le (answer : RecvAnswer) (sock : Socket) (asked : Int) :
    (answer.received sock asked).length ≤ asked.toNat := by
  cases answer with
  | failed => simp [RecvAnswer.received]
  | data bytes =>
      simp only [RecvAnswer.received]
      split
      next => simp
      next => exact List.length_take_le _ _

/-- The ranges of `_oRecv` that a pass of the receive loop reads, and
`moveDataToFront` behind the last: the position and the number of bytes. -/
inductive Reads (oRecv : OBuffer (Memory Byte)) : Int → Int → Prop where
  | size (hhead : ¬ (0 ≤ oRecv.canRead ∧ oRecv.canRead < MsgHead.sizeof)) :
      Reads oRecv oRecv.pos 2
  | package {msgLen : Nat} {next : OBuffer (Memory Byte)}
      (hfound : nextPackage oRecv = some (.found msgLen next)) : Reads oRecv next.pos msgLen
  | rest {next : OBuffer (Memory Byte)} (hstop : nextPackage oRecv = some (.stop next)) :
      Reads oRecv next.pos next.canRead

/-- A pass reads within the first `received` bytes, fits what it copies into
`_package`, and no `assert` of it fails. -/
structure InBounds (received : Int) (oRecv : OBuffer (Memory Byte)) : Prop where
  reads : ∀ start count, Reads oRecv start count →
    0 ≤ start ∧ 0 ≤ count ∧ start + count ≤ received
  copies : ∀ msgLen next, nextPackage oRecv = some (.found msgLen next) →
    msgLen ≤ packageMaxSize
  asserts : nextPackage oRecv ≠ none ∧ ∀ msgLen next,
    nextPackage oRecv = some (.found msgLen next) → next.readBytes msgLen ≠ none

section Passes

variable {τ : Type} {onPackage : τ → List Byte → Handed τ} {oRecv : OBuffer (Memory Byte)} {t : τ}

/-- What the head of a pass finds, read off the bytes that are left. -/
theorem nextPackage_cases (hvalid : oRecv.Valid) :
    nextPackage oRecv = some (.stop oRecv) ∨
    nextPackage oRecv = some .tooLong ∨
    ∃ msgLen : Nat, nextPackage oRecv = some (.found msgLen oRecv) ∧ msgLen ≤ packageMaxSize ∧
      msgLen ≤ oRecv.unread.length := by
  by_cases hshort : oRecv.unread.length < 6
  · exact Or.inl (nextPackage_of_short hvalid hshort)
  · rw [nextPackage_of_head (by omega)]
    split
    next => exact Or.inr (Or.inl rfl)
    next hle =>
      split
      next => exact Or.inl rfl
      next hlen => exact Or.inr (Or.inr ⟨_, rfl, by omega, by omega⟩)

theorem Reads.within (hvalid : oRecv.Valid) {start count : Int}
    (hreads : Reads oRecv start count) :
    0 ≤ start ∧ 0 ≤ count ∧ start + count ≤ oRecv.endPos + 1 := by
  have hpos := hvalid.pos_nonneg
  have hend := hvalid.pos_le_end
  cases hreads with
  | size hhead =>
      -- a whole header is left, so the peek at its size stays within it
      have hsize : (MsgHead.sizeof : Int) = 6 := rfl
      simp only [OBuffer.canRead] at hhead
      omega
  | package hfound =>
      rcases nextPackage_cases hvalid with hstop | hlong | ⟨msgLen, hnext, _, hlen⟩
      · simp [hstop] at hfound
      · simp [hlong] at hfound
      · simp only [hnext, Option.some.injEq, NextPackage.found.injEq] at hfound
        rw [OBuffer.length_unread, OBuffer.canRead] at hlen
        rw [← hfound.1, ← hfound.2]
        omega
  | rest hstop =>
      rcases nextPackage_cases hvalid with hnext | hlong | ⟨msgLen, hnext, _, _⟩
      · simp only [hnext, Option.some.injEq, NextPackage.stop.injEq] at hstop
        rw [← hstop, OBuffer.canRead]
        omega
      · simp [hlong] at hstop
      · simp [hnext] at hstop

theorem inBounds_of_valid (hvalid : oRecv.Valid) : InBounds (oRecv.endPos + 1) oRecv := by
  have hcases := nextPackage_cases hvalid
  refine ⟨fun start count hreads => hreads.within hvalid, ?_, ?_, ?_⟩
  · intro msgLen next hfound
    rcases hcases with hnext | hnext | ⟨count, hnext, hle, _⟩
    · simp [hnext] at hfound
    · simp [hnext] at hfound
    · simp only [hnext, Option.some.injEq, NextPackage.found.injEq] at hfound
      exact hfound.1 ▸ hle
  · rcases hcases with hnext | hnext | ⟨count, hnext, _, _⟩ <;> simp [hnext]
  · intro msgLen next hfound
    rcases hcases with hnext | hnext | ⟨count, hnext, _, hlen⟩
    · simp [hnext] at hfound
    · simp [hnext] at hfound
    · simp only [hnext, Option.some.injEq, NextPackage.found.injEq] at hfound
      obtain ⟨rfl, rfl⟩ := hfound
      simp [readBytes_spec hvalid hlen]

/-- A pass moves the position only. -/
theorem recvPass_endPos {next : OBuffer (Memory Byte)} {t' : τ} (hvalid : oRecv.Valid)
    (hagain : recvPass onPackage (oRecv, t) = .again (next, t')) : next.endPos = oRecv.endPos := by
  rcases recvPass_cases onPackage t hvalid with
    ⟨_, hpass⟩ | ⟨_, _, hpass⟩ | ⟨count, _, _, _, hpass⟩
  · simp [hpass] at hagain
  · simp [hpass] at hagain
  · rw [hagain] at hpass
    split at hpass
    next => cases hpass; rfl
    next => simp at hpass

/-- Every pass of the loop stays within the bytes it started with. -/
theorem recvPass_inBounds (hvalid : oRecv.Valid) {state : OBuffer (Memory Byte) × τ}
    (hvisits : Loop.Visits (recvPass onPackage) (oRecv, t) state) :
    InBounds (oRecv.endPos + 1) state.1 := by
  have hstep : ∀ state next : OBuffer (Memory Byte) × τ,
      state.1.Valid ∧ state.1.endPos = oRecv.endPos →
      recvPass onPackage state = .again next →
      next.1.Valid ∧ next.1.endPos = oRecv.endPos := by
    intro ⟨o, u⟩ ⟨o', u'⟩ ⟨ho, hend⟩ hagain
    obtain ⟨_, _, _, _, _, hnext, _⟩ := recvPass_again ho hagain
    exact ⟨hnext, (recvPass_endPos ho hagain).trans hend⟩
  have hstate := Loop.Visits.invariant hstep ⟨hvalid, rfl⟩ hvisits
  rw [← hstate.2]
  exact inBounds_of_valid hstate.1

end Passes

namespace ClientSocket

variable {ω : Type} {handle : MsgHandle ω} {s : ClientSocket ω}

/-- What is left after a call is less than a package. -/
theorem retainSize_bounds (hreach : (machine handle).Reachable s) :
    0 ≤ s.retainSize ∧ s.retainSize < packageMaxSize := by
  obtain ⟨rest, hretained⟩ := (inv_of_reachable hreach).recv
  exact ⟨hretained.nonneg, hretained.size_lt⟩

/-- No outcome of a call is a failed `assert`. -/
theorem processorRecv_ne_aborted (hreach : (machine handle).Reachable s) (answer : RecvAnswer)
    (fuel : Nat) : processorRecv handle answer fuel s ≠ some .aborted := by
  obtain ⟨rest, hretained⟩ := (inv_of_reachable hreach).recv
  by_cases hsome : answer.received s.sock (serverRecvBufferSize - s.retainSize) = []
  · simp [processorRecv_of_nothing handle hsome]
  · intro haborted
    have hcall : (Loop.run (recvLoop handle) fuel (recvHead s
        (answer.received s.sock (serverRecvBufferSize - s.retainSize)))).map recvLeave =
        some .aborted := by
      rw [← haborted]
      exact (if_neg hsome).symm
    obtain ⟨exit, hrun, hleave⟩ := Option.map_eq_some_iff.mp hcall
    have hvalid := (hretained.behind
      (answer.received s.sock (serverRecvBufferSize - s.retainSize))).1
    have hexit : LeavesWith _ (fun _ => True) (fun _ => True) exit :=
      recvPass_invariant (fun _ _ _ _ _ => trivial) (fun _ _ _ _ _ => trivial) hvalid trivial
        ⟨fuel, hrun⟩
    match exit, hexit, hleave with
    | some (.stopped _ _), _, hleave => simp [recvLeave] at hleave
    | some (.tooLong _), _, hleave => simp [recvLeave] at hleave
    | some (.full _), _, hleave => simp [recvLeave] at hleave

/-- The receive buffer neither fills up nor overruns. In every state between
calls `recv` is asked for something that fits behind what is retained; whatever
it gives, every pass of the loop over it stays in bounds, and the call does not
end in a failed `assert`. -/
theorem recv_in_bounds (hreach : (machine handle).Reachable s) :
    (0 ≤ s.retainSize ∧ s.retainSize < packageMaxSize) ∧
    0 < serverRecvBufferSize - s.retainSize ∧
    ∀ answer : RecvAnswer,
      let bytes := answer.received s.sock (serverRecvBufferSize - s.retainSize)
      bytes.length + s.retainSize ≤ serverRecvBufferSize ∧
      (∀ state, Loop.Visits (recvLoop handle) (recvHead s bytes) state →
        InBounds (bytes.length + s.retainSize) state.1) ∧
      ∀ fuel, processorRecv handle answer fuel s ≠ some .aborted := by
  obtain ⟨hnonneg, hlt⟩ := retainSize_bounds hreach
  have hsizes : (packageMaxSize : Int) < serverRecvBufferSize := by decide
  refine ⟨⟨hnonneg, hlt⟩, by omega, ?_⟩
  intro answer bytes
  obtain ⟨rest, hretained⟩ := (inv_of_reachable hreach).recv
  have hlen : bytes.length ≤ (serverRecvBufferSize - s.retainSize).toNat :=
    answer.length_received_le s.sock _
  refine ⟨by omega, ?_, processorRecv_ne_aborted hreach answer⟩
  intro state hvisits
  have hbounds := recvPass_inBounds (hretained.behind bytes).1 hvisits
  simpa [OBuffer.setBuffer] using hbounds

/-- After half a header there is room for the next call. -/
theorem recv_in_bounds_half :
    ∃ next, Returns (fun world _ => (world, [])) (.data [9, 0, 4])
        (new 5 () (fun _ => 0) (fun _ => 0) (fun _ => 0) none) 0 next ∧
      0 < serverRecvBufferSize - next.retainSize ∧
      ∀ answer fuel, processorRecv (fun world _ => (world, [])) answer fuel next ≠
        some .aborted := by
  let quiet : MsgHandle Unit := fun world _ => (world, [])
  let first : ClientSocket Unit := new 5 () (fun _ => 0) (fun _ => 0) (fun _ => 0) none
  have hcall : ∃ next, Returns quiet (.data [9, 0, 4]) first 0 next := ⟨_, 1, rfl⟩
  obtain ⟨next, hreturns⟩ := hcall
  have hstep : (machine quiet).step first (.processorRecv (.data [9, 0, 4])) next :=
    ⟨0, hreturns⟩
  have hreach : (machine quiet).Reachable next := .next (.start ⟨5, (), _, _, _, none, rfl⟩) hstep
  obtain ⟨_, hroom, hcalls⟩ := recv_in_bounds hreach
  exact ⟨next, hreturns, hroom, fun answer => (hcalls answer).2.2⟩

end ClientSocket

end SelectNet
