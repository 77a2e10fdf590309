import SelectNet.CommonLib.Msg

/-!
# Send and receive buffers

`IOBuffer` and `OBuffer` of `IOBuffer.h`. An operation whose `assert` can fail
returns `none` when it does. What a `char*` points at is a memory that starts at
the pointer.
-/

namespace SelectNet

/-- Things a `char*` of the code points at: the bytes from the pointer on. -/
class CharData (β : Type) where
  bytes : β → Memory Byte

instance : CharData (Memory Byte) := ⟨fun memory => memory⟩

/-! ## IBuffer -/

/-- `IBuffer`, over the array that `_buf` points at. -/
structure IBuffer where
  buf : Memory Byte
  pos : Int
  endPos : Int

namespace IBuffer

def setBuffer (buf : Memory Byte) (bufSize : Int) : IBuffer := ⟨buf, 0, bufSize - 1⟩

def canWrite (i : IBuffer) : Int := i.endPos - i.pos + 1

/-- `writeBytes(buf, len)`, given the `len` bytes at `buf`. -/
def writeBytes (i : IBuffer) (bytes : List Byte) : Option IBuffer :=
  if i.canWrite < bytes.length then none
  else some { i with buf := i.buf.write i.pos.toNat bytes, pos := i.pos + bytes.length }

def writeUShort (i : IBuffer) (data : Nat) : Option IBuffer :=
  if i.canWrite < 2 then none
  else some { i with buf := i.buf.write i.pos.toNat (ushortBytes data), pos := i.pos + 2 }

def seek (i : IBuffer) (pos : Int) : Option IBuffer :=
  if pos ≤ i.endPos ∧ 0 ≤ pos then some { i with pos := pos } else none

end IBuffer

/-! ## IOBuffer -/

structure IOBuffer where
  buf : Memory Byte
  endPos : Int
  curWritePos : Int
  curReadPos : Int

namespace IOBuffer

def setBuffer (buf : Memory Byte) (len : Int) : IOBuffer := ⟨buf, len - 1, 0, 0⟩

def canWrite (io : IOBuffer) : Int := io.endPos - io.curWritePos + 1

def canRead (io : IOBuffer) : Int := io.curWritePos - io.curReadPos

/-- `writeBytes(buf, len)`, given the `len` bytes at `buf`. -/
def writeBytes (io : IOBuffer) (bytes : List Byte) : Option IOBuffer :=
  if io.canWrite < bytes.length then none
  else some { io with
    buf := io.buf.write io.curWritePos.toNat bytes
    curWritePos := io.curWritePos + bytes.length }

def reset (io : IOBuffer) : IOBuffer := { io with curWritePos := 0, curReadPos := 0 }

def readUShort (io : IOBuffer) : Option (Nat × IOBuffer) :=
  if io.canRead < 2 then none
  else some (ushort (io.buf.read io.curReadPos.toNat 2),
    { io with curReadPos := io.curReadPos + 2 })

/-- `char* readBytes(len)`: the position in `_buf` that is returned. -/
def readPointer (io : IOBuffer) (len : Int) : Option (Int × IOBuffer) :=
  if io.canRead < len then none
  else some (io.curReadPos, { io with curReadPos := io.curReadPos + len })

/-- `readBytes(dst, len)`: the bytes copied to `dst`. -/
def readBytes (io : IOBuffer) (len : Int) : Option (List Byte × IOBuffer) :=
  if io.canRead < len then none
  else some (io.buf.read io.curReadPos.toNat len.toNat,
    { io with curReadPos := io.curReadPos + len })

/-- `readBytes(IBuffer*, len)`. -/
def readBytesInto (io : IOBuffer) (iBuf : IBuffer) (len : Int) : Option (IBuffer × IOBuffer) :=
  if io.canRead < len then none
  else (iBuf.writeBytes (io.buf.read io.curReadPos.toNat len.toNat)).map fun iBuf =>
    (iBuf, { io with curReadPos := io.curReadPos + len })

def moveReadPos (io : IOBuffer) (len : Int) : Option IOBuffer :=
  if io.canRead < len then none
  else some { io with curReadPos := io.curReadPos + len }

def moveDataToFront (io : IOBuffer) : IOBuffer :=
  let canReadSize := io.canRead
  if canReadSize ≤ 0 then { io with curReadPos := 0, curWritePos := 0 }
  else { io with
    buf := io.buf.write 0 (io.buf.read io.curReadPos.toNat canReadSize.toNat)
    curReadPos := 0
    curWritePos := canReadSize }

/-- The bytes written and not read. -/
def unread (io : IOBuffer) : List Byte := io.buf.read io.curReadPos.toNat io.canRead.toNat

/-- Positions are ordered and within the capacity. -/
structure Valid (io : IOBuffer) : Prop where
  read_nonneg : 0 ≤ io.curReadPos
  read_le_write : io.curReadPos ≤ io.curWritePos
  write_le_end : io.curWritePos ≤ io.endPos + 1

variable {io next : IOBuffer}

@[simp] theorem length_unread (io : IOBuffer) : io.unread.length = io.canRead.toNat := by
  simp [unread]

theorem setBuffer_valid (buf : Memory Byte) {len : Int} (hlen : 0 ≤ len) :
    (setBuffer buf len).Valid := by
  constructor <;> simp only [setBuffer] <;> omega

@[simp] theorem unread_setBuffer (buf : Memory Byte) (len : Int) :
    (setBuffer buf len).unread = [] := rfl

theorem unread_eq_nil (hempty : io.canRead ≤ 0) : io.unread = [] := by
  have hlen : io.canRead.toNat = 0 := by omega
  rw [unread, hlen, Memory.read_zero]

/-- Writing appends to what is unread, and fails only for lack of room. -/
theorem writeBytes_spec {bytes : List Byte} (hvalid : io.Valid)
    (hroom : (bytes.length : Int) ≤ io.canWrite) :
    ∃ next, io.writeBytes bytes = some next ∧ next.Valid ∧
      next.unread = io.unread ++ bytes ∧ next.endPos = io.endPos ∧
      next.curReadPos = io.curReadPos ∧ next.curWritePos = io.curWritePos + bytes.length := by
  obtain ⟨hread, hwrite, hend⟩ := hvalid
  refine ⟨_, if_neg (by omega), ?_, ?_, rfl, rfl, rfl⟩
  · simp only [canWrite] at hroom
    constructor <;> simp only <;> omega
  · have hcount : (io.curWritePos + bytes.length - io.curReadPos).toNat =
        io.canRead.toNat + bytes.length := by
      simp only [canRead]
      omega
    have hstart : io.curWritePos.toNat = io.curReadPos.toNat + io.canRead.toNat := by
      simp only [canRead]
      omega
    change (io.buf.write io.curWritePos.toNat bytes).read io.curReadPos.toNat
      (io.curWritePos + bytes.length - io.curReadPos).toNat = io.unread ++ bytes
    rw [hcount, hstart, Memory.read_write_append]
    rfl

theorem Valid.advance {len : Int} (hvalid : io.Valid) (hlen : 0 ≤ len) (hroom : len ≤ io.canRead) :
    Valid { io with curReadPos := io.curReadPos + len } := by
  obtain ⟨hread, hwrite, hend⟩ := hvalid
  simp only [canRead] at hroom
  constructor <;> simp only <;> omega

/-- Advancing the read position takes bytes off the front of what is unread. -/
theorem unread_advance {len : Int} (hvalid : io.Valid) (hlen : 0 ≤ len) :
    unread { io with curReadPos := io.curReadPos + len } = io.unread.drop len.toNat := by
  have hread := hvalid.read_nonneg
  simp only [unread, canRead]
  rw [Memory.drop_read]
  congr 1 <;> omega

/-- The bytes at the read position are the first unread ones. -/
theorem read_eq_take {len : Int} (hroom : len ≤ io.canRead) :
    io.buf.read io.curReadPos.toNat len.toNat = io.unread.take len.toNat := by
  rw [unread, Memory.take_read, Nat.min_eq_left (by omega)]

theorem moveReadPos_spec {len : Int} (hvalid : io.Valid) (hlen : 0 ≤ len)
    (hroom : len ≤ io.canRead) :
    ∃ next, io.moveReadPos len = some next ∧ next.Valid ∧
      next.unread = io.unread.drop len.toNat ∧ next.endPos = io.endPos :=
  ⟨_, if_neg (by omega), hvalid.advance hlen hroom, unread_advance hvalid hlen, rfl⟩

/-- `moveDataToFront` keeps what is unread and puts it at position 0. -/
theorem moveDataToFront_spec (hvalid : io.Valid) :
    io.moveDataToFront.Valid ∧ io.moveDataToFront.unread = io.unread ∧
      io.moveDataToFront.endPos = io.endPos ∧ io.moveDataToFront.curReadPos = 0 ∧
      io.moveDataToFront.curWritePos = io.canRead := by
  obtain ⟨hread, hwrite, hend⟩ := hvalid
  unfold moveDataToFront
  simp only
  split
  next hempty =>
    have hzero : io.canRead = 0 := by
      simp only [canRead] at hempty ⊢
      omega
    refine ⟨?_, ?_, rfl, rfl, hzero.symm⟩
    · constructor <;> simp only <;> omega
    · rw [unread_eq_nil hempty]
      rfl
  next hfull =>
    refine ⟨?_, ?_, rfl, rfl, rfl⟩
    · simp only [canRead] at hfull ⊢
      constructor <;> simp only <;> omega
    · have hread := Memory.read_write io.buf 0 (io.buf.read io.curReadPos.toNat io.canRead.toNat)
      rw [Memory.length_read] at hread
      simpa only [unread, canRead, Int.sub_zero, Int.toNat_zero] using hread

end IOBuffer

/-! ## OBuffer -/

/-- `OBuffer`, over what its `_buf` points at; `none` is the null pointer. -/
structure OBuffer (β : Type) where
  buf : Option β
  pos : Int
  endPos : Int

namespace OBuffer

variable {β : Type} [CharData β]

/-- The default constructor. -/
def empty : OBuffer β := ⟨none, 0, -1⟩

def setBuffer (buf : Option β) (bufSize : Int) : OBuffer β := ⟨buf, 0, bufSize - 1⟩

/-- The bytes that `_buf` points at. -/
def memory (o : OBuffer β) : Memory Byte :=
  match o.buf with
  | some data => CharData.bytes data
  | none => fun _ => 0

omit [CharData β] in
/-- How many bytes are left to read. -/
def canRead (o : OBuffer β) : Int := o.endPos - o.pos + 1

def readUShort (o : OBuffer β) : Option (Nat × OBuffer β) :=
  if o.canRead < 2 then none
  else some (ushort (o.memory.read o.pos.toNat 2), { o with pos := o.pos + 2 })

/-- `readBytes(dst, len)`: the bytes copied to `dst`. -/
def readBytes (o : OBuffer β) (len : Int) : Option (List Byte × OBuffer β) :=
  if o.canRead < len then none
  else some (o.memory.read o.pos.toNat len.toNat, { o with pos := o.pos + len })

/-- `readBytes(IOBuffer*, len)`. -/
def readBytesInto (o : OBuffer β) (io : IOBuffer) (len : Int) :
    Option (OBuffer β × IOBuffer) :=
  if o.canRead < len then none
  else (io.writeBytes (o.memory.read o.pos.toNat len.toNat)).map fun io =>
    ({ o with pos := o.pos + len }, io)

/-- `assert`: where the condition fails the call ends, with everything as it is then. -/
def asserted {σ : Type} (condition : σ → Prop) [DecidablePred condition] :
    EStateM Unit σ Unit := do
  unless condition (← get) do throw ()

/-- `readBytes(IOBuffer*, len)` again, statement by statement. -/
def transfer (len : Int) : EStateM Unit (OBuffer β × IOBuffer) Unit := do
  asserted fun s => len ≤ s.1.canRead
  -- `writeBytes` of the other buffer has an assertion of its own.
  asserted fun s => len ≤ s.2.canWrite
  modify fun (o, io) => (o, { io with
    buf := io.buf.write io.curWritePos.toNat (o.memory.read o.pos.toNat len.toNat) })
  modify fun (o, io) => (o, { io with curWritePos := io.curWritePos + len })
  modify fun (o, io) => ({ o with pos := o.pos + len }, io)

omit [CharData β] in
def moveReadPos (o : OBuffer β) (move : Int) : OBuffer β := { o with pos := o.pos + move }

/-- `moveDataToFront` on a buffer over an array: the array changes with it. -/
def moveDataToFront (o : OBuffer (Memory Byte)) : OBuffer (Memory Byte) :=
  let canReadSize := o.canRead
  if canReadSize ≤ 0 then { o with pos := 0, endPos := -1 }
  else
    { buf := o.buf.map fun array =>
        array.write 0 (o.memory.read o.pos.toNat canReadSize.toNat)
      pos := 0
      endPos := 0 + canReadSize - 1 }

/-- The bytes left to read. -/
def unread (o : OBuffer β) : List Byte := o.memory.read o.pos.toNat o.canRead.toNat

omit [CharData β] in
/-- The position is within the buffer. -/
structure Valid (o : OBuffer β) : Prop where
  pos_nonneg : 0 ≤ o.pos
  pos_le_end : o.pos ≤ o.endPos + 1

variable {o : OBuffer β}

@[simp] theorem length_unread (o : OBuffer β) : o.unread.length = o.canRead.toNat := by
  simp [unread]

omit [CharData β] in
theorem setBuffer_valid (buf : Option β) {bufSize : Int} (hsize : 0 ≤ bufSize) :
    (setBuffer buf bufSize).Valid := by
  constructor <;> simp only [setBuffer] <;> omega

@[simp] theorem unread_setBuffer (data : β) (bufSize : Int) :
    (setBuffer (some data) bufSize).unread = (CharData.bytes data).read 0 bufSize.toNat := by
  simp [unread, canRead, setBuffer, memory]

theorem unread_eq_nil (hempty : o.canRead ≤ 0) : o.unread = [] := by
  have hlen : o.canRead.toNat = 0 := by omega
  rw [unread, hlen, Memory.read_zero]

omit [CharData β] in
theorem Valid.canRead_nonneg (hvalid : o.Valid) : 0 ≤ o.canRead := by
  have hpos := hvalid.pos_le_end
  simp only [canRead]
  omega

theorem Valid.advance {count : Nat} (hvalid : o.Valid) (hlen : count ≤ o.unread.length) :
    OBuffer.Valid { o with pos := o.pos + count } := by
  obtain ⟨hpos, hend⟩ := hvalid
  rw [length_unread] at hlen
  simp only [canRead] at hlen
  constructor <;> simp only <;> omega

/-- A transfer moves bytes from the front of the one to the back of the other. -/
theorem readBytesInto_spec {io : IOBuffer} {len : Int} (hio : io.Valid) (hlen : 0 ≤ len)
    (hhave : len ≤ o.canRead) (hroom : len ≤ io.canWrite) :
    ∃ next, o.readBytesInto io len = some ({ o with pos := o.pos + len }, next) ∧
      next.Valid ∧ next.unread = io.unread ++ o.unread.take len.toNat ∧
      next.endPos = io.endPos ∧ next.curReadPos = io.curReadPos ∧
      next.curWritePos = io.curWritePos + len := by
  have hread : (o.memory.read o.pos.toNat len.toNat).length = len.toNat := by simp
  obtain ⟨next, hwrite, hnext, hunread, hend, hpos, hwpos⟩ :=
    IOBuffer.writeBytes_spec hio (show (_ : Int) ≤ _ by rw [hread]; omega)
  refine ⟨next, ?_, hnext, ?_, hend, hpos, ?_⟩
  · rw [readBytesInto, if_neg (by omega), hwrite, Option.map_some]
  · have hmin : min len.toNat o.canRead.toNat = len.toNat := by omega
    rw [hunread, unread, Memory.take_read, hmin]
  · rw [hwpos, hread]
    omega

theorem asserted_run {σ : Type} (condition : σ → Prop) [DecidablePred condition] (s : σ) :
    (asserted condition).run s = if condition s then .ok () s else .error () s := by
  simp only [asserted, EStateM.run_bind, EStateM.run_get]
  split
  · rfl
  · rfl

/-- Statement by statement or as a whole, a transfer does the same; where it
does nothing no statement has changed anything. -/
theorem transfer_run {io : IOBuffer} {len : Int} (hlen : 0 ≤ len) :
    (transfer len).run (o, io) = match o.readBytesInto io len with
      | some s => .ok () s
      | none => .error () (o, io) := by
  have hbytes : ((o.memory.read o.pos.toNat len.toNat).length : Int) = len := by
    rw [Memory.length_read, Int.toNat_of_nonneg hlen]
  by_cases hhave : len ≤ o.canRead
  · have hread : o.readBytesInto io len = (io.writeBytes _).map _ := if_neg (by omega)
    by_cases hroom : len ≤ io.canWrite
    · have hwrite : io.writeBytes (o.memory.read o.pos.toNat len.toNat) = some _ :=
        if_neg (by omega)
      simp only [transfer, EStateM.run_bind, asserted_run, if_pos hhave, if_pos hroom, hread,
        hwrite, hbytes, Option.map_some]
      rfl
    · have hwrite : io.writeBytes (o.memory.read o.pos.toNat len.toNat) = none :=
        if_pos (by omega)
      simp only [transfer, EStateM.run_bind, asserted_run, if_pos hhave, if_neg hroom, hread,
        hwrite, Option.map_none]
  · have hread : o.readBytesInto io len = none := if_pos (by omega)
    simp only [transfer, EStateM.run_bind, asserted_run, if_neg hhave, hread]

/-- Advancing the position drops bytes from what is left. -/
theorem unread_advance {len : Int} (hvalid : o.Valid) (hlen : 0 ≤ len) :
    OBuffer.unread { o with pos := o.pos + len } = o.unread.drop len.toNat := by
  have hpos := hvalid.pos_nonneg
  simp only [unread, Memory.drop_read, canRead]
  rw [show OBuffer.memory { o with pos := o.pos + len } = o.memory from rfl]
  congr 1 <;> omega

/-- `moveDataToFront` keeps what is unread and puts it at the start of the array. -/
theorem moveDataToFront_spec {o : OBuffer (Memory Byte)} (hvalid : o.Valid)
    (hbuf : o.buf ≠ none) :
    o.moveDataToFront.canRead = o.canRead ∧
      o.moveDataToFront.memory.read 0 o.canRead.toNat = o.unread := by
  obtain ⟨array, harray⟩ := Option.ne_none_iff_exists'.mp hbuf
  have hnonneg := hvalid.canRead_nonneg
  by_cases hempty : o.canRead ≤ 0
  · have hzero : o.canRead = 0 := by omega
    rw [moveDataToFront, if_pos hempty, unread_eq_nil hempty, hzero]
    exact ⟨rfl, rfl⟩
  · rw [moveDataToFront, if_neg hempty]
    constructor
    · change 0 + o.canRead - 1 - 0 + 1 = o.canRead
      omega
    · have hread := Memory.read_write array 0 o.unread
      rw [length_unread] at hread
      simpa only [unread, memory, harray, Option.map_some, CharData.bytes] using hread

end OBuffer

end SelectNet
