import SelectNet.CommonLib.Messages
import SelectNet.CommonLib.SendLoop
import SelectNet.CommonLib.RecvLoop
import SelectNet.Foundation.StringFields

/-!
# What a built message says

The constructors of `Msg.h` that the clients ask with, and what is read back from a
built message: its header, and the strings in its fields. A message that has been
sent is seen in a package, with zeros behind it.
-/

namespace SelectNet

/-! ## Requests -/

/-- `MsgBroadcast(str)`. Its size is that of the string. -/
def MsgBroadcast.new (memory : Memory Byte) (str : List Byte) : Built :=
  .make memory ⟨(MsgHead.sizeof + (str.length + 1)) % 65536, MsgID.broadcast.code, 0⟩
    [⟨6, 256, .ofList str 0⟩]

/-- `MsgLogoutReq(id)`. -/
def MsgLogoutReq.new (memory id : Memory Byte) : Built :=
  .make memory ⟨262, MsgID.logout.code, 0⟩ [⟨6, 256, id⟩]

/-! ## Reading a built message -/

variable {memory : Memory Byte} {head : MsgHead} {copies : List FieldCopy}

namespace FieldCopy

/-- Copies behind a field leave it as it is. -/
theorem foldl_before {start limit : Nat} (hbehind : ∀ copy ∈ copies, start + limit ≤ copy.field) :
    (copies.foldl (fun message copy => copy.run message) memory).cstring start limit =
        memory.cstring start limit ∧
      (copies.foldl (fun message copy => copy.run message) memory).read start limit =
        memory.read start limit := by
  induction copies generalizing memory with
  | nil => exact ⟨rfl, rfl⟩
  | cons copy copies ih =>
      obtain ⟨hfirst, hrest⟩ := List.forall_mem_cons.mp hbehind
      obtain ⟨hstring, hread⟩ := @ih (copy.run memory) hrest
      refine ⟨hstring.trans (Memory.cstring_strcpy_before memory copy.str hfirst), hread.trans ?_⟩
      apply Memory.read_congr
      intro address _ hupper
      exact Memory.strcpy_of_lt memory copy.str (by omega)

end FieldCopy

namespace Built

/-- The header is read back. -/
theorem load_make (hbehind : ∀ copy ∈ copies, 6 ≤ copy.field) (hsize : head.size < 65536)
    (hid : head.msgId < 65536) (hcode : head.code < 65536) :
    MsgHead.load (make memory head copies).msg = head := by
  obtain ⟨bytes, hbytes⟩ : ∃ bytes,
    ushortBytes head.size ++ ushortBytes head.msgId ++ ushortBytes head.code = bytes := ⟨_, rfl⟩
  have hlen : bytes.length = 6 := by rw [← hbytes]; rfl
  have hkept : (make memory head copies).msg.read 0 6 = (head.store memory).read 0 6 :=
    (FieldCopy.foldl_before hbehind).2
  have hread : (make memory head copies).msg.read 0 bytes.length = bytes := by
    rw [hlen, hkept, MsgHead.store, hbytes, ← hlen, Memory.read_write]
  rw [MsgHead.load_eq hread (by rw [hlen]; exact Nat.le_refl 6), ← hbytes]
  have hsize' := ushort_ushortBytes hsize
  have hid' := ushort_ushortBytes hid
  have hcode' := ushort_ushortBytes hcode
  simp only [ushortBytes, List.cons_append, List.nil_append, List.drop_succ_cons, List.drop_zero,
    ushort] at hsize' hid' hcode' ⊢
  rw [hsize', hid', hcode']

/-- The string in a field is the one that was copied there, if it ends in the field
and the later copies go behind it. -/
theorem cstring_make (earlier later : List FieldCopy) {field size : Nat} {str : Memory Byte}
    (hends : str.Terminated size) (hlater : ∀ other ∈ later, field + size ≤ other.field) :
    (make memory head (earlier ++ ⟨field, size, str⟩ :: later)).msg.cstring field size =
      str.cstring 0 size := by
  rw [make, List.foldl_append, List.foldl_cons, (FieldCopy.foldl_before hlater).1]
  exact Memory.cstring_strcpy _ hends

end Built

/-! ## What is sent of a message -/

/-- A message of a size within the limits is sent as a frame. -/
theorem isFrame_msgBytes {msg : Memory Byte} (hmin : MsgHead.sizeof ≤ (MsgHead.load msg).size)
    (hmax : (MsgHead.load msg).size ≤ packageMaxSize) :
    headRule.IsFrame (Endpoint.msgBytes msg) := by
  have hlen : (Endpoint.msgBytes msg).length = (MsgHead.load msg).size := Memory.length_read _ _ _
  have hread : msg.read 0 (Endpoint.msgBytes msg).length = Endpoint.msgBytes msg := by
    rw [hlen]
    rfl
  have hload := congrArg MsgHead.size (MsgHead.load_eq hread (by rw [hlen]; exact hmin))
  exact headRule_isFrame_iff.mpr ⟨by rw [hlen]; exact hmin, by rw [hlen, hload],
    by rw [hlen]; exact hmax⟩

/-- A message as its receiver has it in a package, zeros behind it. -/
def asPackage (frame : List Byte) : Memory Byte := .ofList frame 0

theorem asPackage_padded (frame : List Byte) : asPackage (padded frame) = asPackage frame := by
  funext address
  simp only [asPackage, Memory.ofList, padded, List.getD_eq_getElem?_getD]
  by_cases hin : address < frame.length
  · rw [List.getElem?_append_left hin]
  · rw [List.getElem?_append_right (Nat.not_lt.mp hin), List.getElem?_eq_none (Nat.not_lt.mp hin),
      List.getElem?_replicate]
    split <;> rfl

/-- What a package holds depends on the frame only. -/
theorem fillPackage_apply (package : Memory Byte) (frame : List Byte) {address : Nat}
    (hlt : address < packageMaxSize) :
    fillPackage package frame address = asPackage frame address := by
  have hzero : package.write 0 (List.replicate packageMaxSize 0) address = 0 := by
    have hindex : address < (List.replicate packageMaxSize (0 : Byte)).length := by
      rwa [List.length_replicate]
    simpa using Memory.write_add package 0 hindex
  simp only [fillPackage, Memory.write, Nat.zero_le, if_true, Nat.sub_zero] at hzero ⊢
  rw [hzero, asPackage, Memory.ofList, List.getD_eq_getElem?_getD]

theorem cstring_fillPackage (package : Memory Byte) (frame : List Byte) {start limit : Nat}
    (hle : start + limit ≤ packageMaxSize) :
    (fillPackage package frame).cstring start limit = (asPackage frame).cstring start limit :=
  Memory.cstring_congr fun _ _ hupper => fillPackage_apply package frame (by omega)

theorem load_congr {msg other : Memory Byte} (hagree : ∀ address < 6, msg address = other address) :
    MsgHead.load msg = MsgHead.load other := by
  have hread : ∀ start, start + 2 ≤ 6 → msg.read start 2 = other.read start 2 :=
    fun start hstart => Memory.read_congr msg fun address _ hupper => hagree address (by omega)
  rw [MsgHead.load, MsgHead.load, hread 0 (by omega), hread 2 (by omega), hread 4 (by omega)]

theorem load_fillPackage (package : Memory Byte) (frame : List Byte) :
    MsgHead.load (fillPackage package frame) = MsgHead.load (asPackage frame) :=
  load_congr fun _ hlt => fillPackage_apply package frame (Nat.lt_trans hlt (by decide))

/-- What is sent of a message agrees with it. -/
theorem asPackage_msgBytes (msg : Memory Byte) {address : Nat}
    (hlt : address < (MsgHead.load msg).size) :
    asPackage (Endpoint.msgBytes msg) address = msg address := by
  rw [asPackage, Memory.ofList, List.getD_eq_getElem?_getD, Endpoint.msgBytes,
    Memory.getElem?_read _ hlt, Option.getD_some, Nat.zero_add]

theorem load_asPackage_msgBytes {msg : Memory Byte}
    (hmin : MsgHead.sizeof ≤ (MsgHead.load msg).size) :
    MsgHead.load (asPackage (Endpoint.msgBytes msg)) = MsgHead.load msg :=
  load_congr fun _ hlt => asPackage_msgBytes msg (Nat.lt_of_lt_of_le hlt hmin)

theorem cstring_asPackage_msgBytes (msg : Memory Byte) {start limit : Nat}
    (hle : start + limit ≤ (MsgHead.load msg).size) :
    (asPackage (Endpoint.msgBytes msg)).cstring start limit = msg.cstring start limit :=
  Memory.cstring_congr fun _ _ hupper => asPackage_msgBytes msg (by omega)

theorem load_strcpy (memory str : Memory Byte) {dest : Nat} (hdest : 6 ≤ dest) :
    MsgHead.load (memory.strcpy dest str) = MsgHead.load memory :=
  load_congr fun _ hlt => Memory.strcpy_of_lt memory str (Nat.lt_of_lt_of_le hlt hdest)

/-- What the receiver of a built message reads: its header, and the strings copied
into fields that are sent whole. -/
theorem Built.sent_make (hbehind : ∀ copy ∈ copies, 6 ≤ copy.field)
    (hmin : MsgHead.sizeof ≤ head.size) (hmax : head.size ≤ packageMaxSize)
    (hid : head.msgId < 65536) (hcode : head.code < 65536) :
    headRule.IsFrame (Endpoint.msgBytes (make memory head copies).msg) ∧
      MsgHead.load (asPackage (Endpoint.msgBytes (make memory head copies).msg)) = head ∧
      ∀ start limit, start + limit ≤ head.size →
        (asPackage (Endpoint.msgBytes (make memory head copies).msg)).cstring start limit =
          (make memory head copies).msg.cstring start limit := by
  have hlarge : packageMaxSize < 65536 := by decide
  have hload : MsgHead.load (make memory head copies).msg = head :=
    load_make hbehind (by omega) hid hcode
  refine ⟨isFrame_msgBytes (by rwa [hload]) (by rwa [hload]), ?_, fun start limit hle => ?_⟩
  · rw [load_asPackage_msgBytes (by rwa [hload]), hload]
  · exact cstring_asPackage_msgBytes _ (by rwa [hload])

/-- A whole package is sent on as the frame it holds. -/
theorem msgBytes_fillPackage (package : Memory Byte) {frame : List Byte}
    (hframe : headRule.IsFrame frame) : Endpoint.msgBytes (fillPackage package frame) = frame := by
  obtain ⟨hhead, hsize, hmax⟩ := headRule_isFrame_iff.mp hframe
  have hread : (fillPackage package frame).read 0 frame.length = frame :=
    Memory.read_write _ 0 frame
  have hload := MsgHead.load_eq hread hhead
  rw [Endpoint.msgBytes, hload, hsize, hread]

end SelectNet
