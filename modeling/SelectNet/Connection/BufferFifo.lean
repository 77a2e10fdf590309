import SelectNet.CommonLib.IOBuffer
import SelectNet.Foundation.Machine

/-!
# An IOBuffer is a bounded queue of bytes

Runs of an `IOBuffer` over an array of a given size: each call with what it
answered. Every run is one of a list that writes append to and reads take the
front of. A transfer between two buffers happens as a whole or not at all.
-/

namespace SelectNet

/-- A call whose assertions decide whether it returns. -/
inductive IOBufferOp where
  | writeBytes (bytes : List Byte)
  | readUShort
  | readPointer (len : Int)
  | readBytes (len : Int)
  | readBytesInto (iBuf : IBuffer) (len : Int)
  | moveReadPos (len : Int)
  | moveDataToFront
  | reset

/-- What a call returned, or wrote elsewhere. -/
inductive IOBufferAnswer where
  | void
  | ushort (value : Nat)
  | bytes (bytes : List Byte)
  | iBuffer (iBuf : IBuffer)

namespace IOBufferOp

/-- The length argument. -/
def len : IOBufferOp → Int
  | .writeBytes bytes => bytes.length
  | .readUShort => 2
  | .readPointer len => len
  | .readBytes len => len
  | .readBytesInto _ len => len
  | .moveReadPos len => len
  | .moveDataToFront => 0
  | .reset => 0

def IsRead : IOBufferOp → Prop
  | .writeBytes _ => False
  | .moveDataToFront => False
  | .reset => False
  | _ => True

end IOBufferOp

/-! ## The abstract queue -/

namespace BoundedFifo

/-- The calls that can be made: writes need room, reads need data. -/
def Allows (capacity : Int) (items : List Byte) : IOBufferOp → Prop
  | .writeBytes bytes => items.length + bytes.length ≤ capacity
  | .moveDataToFront => True
  | .reset => True
  | op => 0 ≤ op.len ∧ op.len ≤ items.length

def after (items : List Byte) : IOBufferOp → List Byte
  | .writeBytes bytes => items ++ bytes
  | .moveDataToFront => items
  | .reset => []
  | op => items.drop op.len.toNat

def answer (items : List Byte) : IOBufferOp → Option IOBufferAnswer
  | .readUShort => some (.ushort (ushort (items.take 2)))
  | .readPointer len => some (.bytes (items.take len.toNat))
  | .readBytes len => some (.bytes (items.take len.toNat))
  | .readBytesInto iBuf len => (iBuf.writeBytes (items.take len.toNat)).map .iBuffer
  | _ => some .void

/-- A call and its answer, as a list makes them. -/
structure Step (capacity : Int) (items : List Byte) (label : IOBufferOp × IOBufferAnswer)
    (items' : List Byte) : Prop where
  allows : Allows capacity items label.1
  answer : answer items label.1 = some label.2
  after : items' = after items label.1

end BoundedFifo

/-! ## Runs of a buffer -/

namespace IOBuffer

/-- A call, if its assertions hold. -/
def exec (io : IOBuffer) : IOBufferOp → Option (IOBufferAnswer × IOBuffer)
  | .writeBytes bytes => (io.writeBytes bytes).map fun io => (.void, io)
  | .readUShort => io.readUShort.map fun (value, io) => (.ushort value, io)
  | .readPointer len => (io.readPointer len).map fun (pos, io) =>
      (.bytes (io.buf.read pos.toNat len.toNat), io)
  | .readBytes len => (io.readBytes len).map fun (bytes, io) => (.bytes bytes, io)
  | .readBytesInto iBuf len => (io.readBytesInto iBuf len).map fun (iBuf, io) =>
      (.iBuffer iBuf, io)
  | .moveReadPos len => (io.moveReadPos len).map fun io => (.void, io)
  | .moveDataToFront => some (.void, io.moveDataToFront)
  | .reset => some (.void, io.reset)

/-- A call with a length that is not negative, and what it answered. -/
structure Step (io : IOBuffer) (label : IOBufferOp × IOBufferAnswer) (next : IOBuffer) : Prop where
  len_nonneg : 0 ≤ label.1.len
  exec : io.exec label.1 = some (label.2, next)

variable {io next : IOBuffer} {label : IOBufferOp × IOBufferAnswer} {op : IOBufferOp}
  {answer : IOBufferAnswer} {n : Int}

/-- The buffer has this capacity, and its positions are in order. -/
structure Bounded (io : IOBuffer) (n : Int) : Prop where
  valid : io.Valid
  capacity : io.endPos + 1 = n

theorem Bounded.length_unread (hbounded : io.Bounded n) :
    (io.unread.length : Int) = io.canRead := by
  have hle := hbounded.valid.read_le_write
  rw [IOBuffer.length_unread, canRead]
  omega

/-- A read moves the read position over what it returns. -/
theorem Bounded.advance {len : Int} (hbounded : io.Bounded n) (hlen : 0 ≤ len)
    (hroom : len ≤ io.canRead) :
    Bounded { io with curReadPos := io.curReadPos + len } n ∧ len ≤ io.unread.length ∧
      unread { io with curReadPos := io.curReadPos + len } = io.unread.drop len.toNat :=
  ⟨⟨hbounded.valid.advance hlen hroom, hbounded.capacity⟩, hbounded.length_unread ▸ hroom,
    unread_advance hbounded.valid hlen⟩

theorem Step.writeBytes {bytes : List Byte} (hbounded : io.Bounded n)
    (hstep : io.Step (.writeBytes bytes, answer) next) :
    next.Bounded n ∧ BoundedFifo.Step n io.unread (.writeBytes bytes, answer) next.unread := by
  obtain ⟨_, hexec⟩ := hstep
  obtain ⟨next, hwrite, hsame⟩ := Option.map_eq_some_iff.mp hexec
  obtain ⟨rfl, rfl⟩ := Prod.mk.inj hsame
  have hroom : (bytes.length : Int) ≤ io.canWrite := by
    by_contra hfull
    rw [IOBuffer.writeBytes, if_pos (by omega)] at hwrite
    cases hwrite
  obtain ⟨found, hfound, hvalid, hunread, hend, _⟩ := writeBytes_spec hbounded.valid hroom
  cases hfound.symm.trans hwrite
  refine ⟨⟨hvalid, hend ▸ hbounded.capacity⟩, ?_, rfl, hunread⟩
  have hcapacity := hbounded.capacity
  have hread := hbounded.valid.read_nonneg
  simp only [canWrite] at hroom
  change (io.unread.length : Int) + bytes.length ≤ n
  rw [hbounded.length_unread, canRead]
  omega

/-- What the calls that read have in common. -/
theorem exec_read (hread : op.IsRead) (hexec : io.exec op = some (answer, next)) :
    op.len ≤ io.canRead ∧ next = { io with curReadPos := io.curReadPos + op.len } ∧
      BoundedFifo.answer io.unread op = some answer := by
  cases op with
  | writeBytes => exact hread.elim
  | moveDataToFront => exact hread.elim
  | reset => exact hread.elim
  | readUShort =>
      obtain ⟨⟨value, _⟩, hcall, hsame⟩ := Option.map_eq_some_iff.mp hexec
      obtain ⟨rfl, rfl⟩ := Prod.mk.inj hsame
      obtain ⟨hroom, hsame⟩ := Option.ite_none_left_eq_some.mp hcall
      obtain ⟨rfl, rfl⟩ := Prod.mk.inj (Option.some.inj hsame)
      refine ⟨Int.not_lt.mp hroom, rfl, ?_⟩
      rw [BoundedFifo.answer, show 2 = (2 : Int).toNat from rfl, read_eq_take (Int.not_lt.mp hroom)]
  | readPointer len =>
      obtain ⟨⟨pos, _⟩, hcall, hsame⟩ := Option.map_eq_some_iff.mp hexec
      obtain ⟨rfl, rfl⟩ := Prod.mk.inj hsame
      obtain ⟨hroom, hsame⟩ := Option.ite_none_left_eq_some.mp hcall
      obtain ⟨rfl, rfl⟩ := Prod.mk.inj (Option.some.inj hsame)
      refine ⟨Int.not_lt.mp hroom, rfl, ?_⟩
      rw [BoundedFifo.answer, ← read_eq_take (Int.not_lt.mp hroom)]
  | readBytes len =>
      obtain ⟨⟨bytes, _⟩, hcall, hsame⟩ := Option.map_eq_some_iff.mp hexec
      obtain ⟨rfl, rfl⟩ := Prod.mk.inj hsame
      obtain ⟨hroom, hsame⟩ := Option.ite_none_left_eq_some.mp hcall
      obtain ⟨rfl, rfl⟩ := Prod.mk.inj (Option.some.inj hsame)
      refine ⟨Int.not_lt.mp hroom, rfl, ?_⟩
      rw [BoundedFifo.answer, read_eq_take (Int.not_lt.mp hroom)]
  | readBytesInto iBuf len =>
      obtain ⟨⟨iBuf', _⟩, hcall, hsame⟩ := Option.map_eq_some_iff.mp hexec
      obtain ⟨rfl, rfl⟩ := Prod.mk.inj hsame
      obtain ⟨hroom, hmap⟩ := Option.ite_none_left_eq_some.mp hcall
      obtain ⟨_, hwrite, hsame⟩ := Option.map_eq_some_iff.mp hmap
      obtain ⟨rfl, rfl⟩ := Prod.mk.inj hsame
      refine ⟨Int.not_lt.mp hroom, rfl, ?_⟩
      rw [BoundedFifo.answer, ← read_eq_take (Int.not_lt.mp hroom), hwrite, Option.map_some]
  | moveReadPos len =>
      obtain ⟨_, hcall, hsame⟩ := Option.map_eq_some_iff.mp hexec
      obtain ⟨rfl, rfl⟩ := Prod.mk.inj hsame
      obtain ⟨hroom, hsame⟩ := Option.ite_none_left_eq_some.mp hcall
      exact ⟨Int.not_lt.mp hroom, (Option.some.inj hsame).symm, rfl⟩

theorem Step.read (hread : op.IsRead) (hbounded : io.Bounded n)
    (hstep : io.Step (op, answer) next) :
    next.Bounded n ∧ BoundedFifo.Step n io.unread (op, answer) next.unread := by
  obtain ⟨hlen, hexec⟩ := hstep
  obtain ⟨hroom, rfl, hanswer⟩ := exec_read hread hexec
  obtain ⟨hnext, hhave, hdrop⟩ := hbounded.advance hlen hroom
  refine ⟨hnext, ?_, hanswer, ?_⟩
  · cases op <;> first | exact hread.elim | exact ⟨hlen, hhave⟩
  · cases op <;> first | exact hread.elim | exact hdrop

/-- Each call does to the buffer what it does to the list of its unread bytes. -/
theorem Step.refines (hbounded : io.Bounded n) (hstep : io.Step label next) :
    next.Bounded n ∧ BoundedFifo.Step n io.unread label next.unread := by
  obtain ⟨op, answer⟩ := label
  cases op with
  | writeBytes bytes => exact Step.writeBytes hbounded hstep
  | moveDataToFront =>
      obtain ⟨rfl, rfl⟩ := Prod.mk.inj (Option.some.inj hstep.exec)
      obtain ⟨hvalid, hunread, hend, _, _⟩ := moveDataToFront_spec hbounded.valid
      exact ⟨⟨hvalid, hend ▸ hbounded.capacity⟩, trivial, rfl, hunread⟩
  | reset =>
      obtain ⟨rfl, rfl⟩ := Prod.mk.inj (Option.some.inj hstep.exec)
      have hend := hbounded.valid
      refine ⟨⟨⟨Int.le_refl _, Int.le_refl _, ?_⟩, hbounded.capacity⟩, trivial, rfl, rfl⟩
      exact Int.le_trans (Int.le_trans hend.read_nonneg hend.read_le_write) hend.write_le_end
  | readUShort => exact Step.read trivial hbounded hstep
  | readPointer => exact Step.read trivial hbounded hstep
  | readBytes => exact Step.read trivial hbounded hstep
  | readBytesInto => exact Step.read trivial hbounded hstep
  | moveReadPos => exact Step.read trivial hbounded hstep

theorem runs_refine {labels : List (IOBufferOp × IOBufferAnswer)} (hbounded : io.Bounded n)
    (hruns : Machine.Runs Step io labels next) :
    next.Bounded n ∧ Machine.Runs (BoundedFifo.Step n) io.unread labels next.unread := by
  induction hruns with
  | start => exact ⟨hbounded, .start⟩
  | next _ hmove ih =>
      obtain ⟨hmiddle, hruns⟩ := ih
      obtain ⟨hnext, hstep⟩ := hmove.refines hmiddle
      exact ⟨hnext, hruns.next hstep⟩

/-- After compaction all the room that is left is at the back. -/
theorem Bounded.canWrite_moveDataToFront (hbounded : io.Bounded n) :
    io.moveDataToFront.canWrite = n - io.unread.length := by
  obtain ⟨_, _, hend, _, hwrite⟩ := moveDataToFront_spec hbounded.valid
  rw [canWrite, hend, hwrite, hbounded.length_unread, ← hbounded.capacity]
  omega

end IOBuffer

/-- A transfer moves all of its bytes, or stops at an assertion with both
buffers as they were. -/
theorem OBuffer.transfer_spec {β : Type} [CharData β] {o : OBuffer β} {io : IOBuffer} {len : Int}
    (ho : o.Valid) (hio : io.Valid) (hlen : 0 ≤ len) :
    (len ≤ o.canRead ∧ len ≤ io.canWrite → ∃ o' io', (transfer len).run (o, io) = .ok () (o', io') ∧
      o'.unread = o.unread.drop len.toNat ∧ io'.unread = io.unread ++ o.unread.take len.toNat ∧
      ((o.unread.take len.toNat).length : Int) = len) ∧
    (¬ (len ≤ o.canRead ∧ len ≤ io.canWrite) →
      (transfer len).run (o, io) = .error () (o, io)) := by
  constructor
  · rintro ⟨hhave, hroom⟩
    obtain ⟨io', hread, _, hunread, _⟩ := readBytesInto_spec hio hlen hhave hroom
    refine ⟨_, io', ?_, unread_advance ho hlen, hunread, ?_⟩
    · rw [transfer_run hlen, hread]
    · rw [List.length_take, length_unread]
      omega
  · intro hlack
    have hnone : o.readBytesInto io len = none := by
      by_cases hhave : len ≤ o.canRead
      · have hfull : io.canWrite < ((o.memory.read o.pos.toNat len.toNat).length : Int) := by
          rw [Memory.length_read]
          omega
        rw [readBytesInto, if_neg (by omega), IOBuffer.writeBytes, if_pos hfull, Option.map_none]
      · rw [readBytesInto, if_pos (by omega)]
    rw [transfer_run hlen, hnone]

/-- Every run of a buffer is one of a bounded queue of bytes: the positions stay
in order, compaction keeps the bytes and gives all free room to writes, and a
transfer into the buffer happens as a whole or not at all. -/
theorem ioBuffer_refines_fifo (buf : Memory Byte) (n : Int) (hn : 0 ≤ n)
    (labels : List (IOBufferOp × IOBufferAnswer)) (io : IOBuffer)
    (hruns : Machine.Runs IOBuffer.Step (IOBuffer.setBuffer buf n) labels io) :
    Machine.Runs (BoundedFifo.Step n) [] labels io.unread ∧
    (0 ≤ io.curReadPos ∧ io.curReadPos ≤ io.curWritePos ∧ io.curWritePos ≤ n) ∧
    (io.moveDataToFront.unread = io.unread ∧
      io.moveDataToFront.canWrite = n - io.unread.length) ∧
    ∀ (β : Type) [CharData β] (o : OBuffer β) (len : Int), o.Valid → 0 ≤ len →
      (len ≤ o.canRead ∧ len ≤ io.canWrite → ∃ o' io',
        (OBuffer.transfer len).run (o, io) = .ok () (o', io') ∧
        o'.unread = o.unread.drop len.toNat ∧ io'.unread = io.unread ++ o.unread.take len.toNat ∧
        ((o.unread.take len.toNat).length : Int) = len) ∧
      (¬ (len ≤ o.canRead ∧ len ≤ io.canWrite) →
        (OBuffer.transfer len).run (o, io) = .error () (o, io)) := by
  have hstart : (IOBuffer.setBuffer buf n).Bounded n :=
    ⟨IOBuffer.setBuffer_valid buf hn, Int.sub_add_cancel n 1⟩
  obtain ⟨hbounded, hfifo⟩ := IOBuffer.runs_refine hstart hruns
  obtain ⟨hread, hwrite, hend⟩ := hbounded.valid
  have hfront := IOBuffer.moveDataToFront_spec hbounded.valid
  refine ⟨hfifo, ⟨hread, hwrite, hbounded.capacity ▸ hend⟩,
    ⟨hfront.2.1, hbounded.canWrite_moveDataToFront⟩, ?_⟩
  intro β _ o len ho hlen
  exact OBuffer.transfer_spec ho hbounded.valid hlen

theorem ioBuffer_refines_fifo_wrapping :
    ∃ io : IOBuffer, io.unread = [3, 4, 5, 6] ∧ Machine.Runs (BoundedFifo.Step 4) []
      [(.writeBytes [1, 2, 3], .void), (.readUShort, .ushort 513), (.moveDataToFront, .void),
        (.writeBytes [4, 5, 6], .void)] io.unread := by
  have hruns : Machine.Runs IOBuffer.Step (IOBuffer.setBuffer (fun _ => 0) 4)
      [(.writeBytes [1, 2, 3], .void), (.readUShort, .ushort 513), (.moveDataToFront, .void),
        (.writeBytes [4, 5, 6], .void)] _ :=
    (((Machine.Runs.start.next ⟨by decide, rfl⟩).next ⟨by decide, rfl⟩).next
      ⟨by decide, rfl⟩).next ⟨by decide, rfl⟩
  exact ⟨_, by decide, (ioBuffer_refines_fifo _ 4 (by decide) _ _ hruns).1⟩

end SelectNet
