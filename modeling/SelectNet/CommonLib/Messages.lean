import Mathlib.Data.UInt
import SelectNet.CommonLib.Msg
import SelectNet.Foundation.CString

/-!
# Messages that are built

The constructors of `Msg.h` that the servers answer with. A message is built in
whatever its memory held. Strings are copied into its fields without a length,
so every copy is recorded with the field it is for.
-/

namespace SelectNet

/-- A copy of a string into a field of a message: where the field begins, the
bytes it has, and the string. -/
structure FieldCopy where
  field : Nat
  size : Nat
  str : Memory Byte

namespace FieldCopy

def run (copy : FieldCopy) (message : Memory Byte) : Memory Byte :=
  message.strcpy copy.field copy.str

/-- The string's terminating zero is among the bytes the field has room for. -/
def Terminated (copy : FieldCopy) : Prop := copy.str.Terminated copy.size

/-- Nothing is written outside the field. -/
def InField (copy : FieldCopy) : Prop :=
  ∀ address, copy.str.CopyWrites copy.field address →
    copy.field ≤ address ∧ address < copy.field + copy.size

theorem inField_iff (copy : FieldCopy) : copy.InField ↔ copy.Terminated := by
  have hends : (∀ address, copy.str.CopyWrites copy.field address →
      address < copy.field + copy.size) ↔ copy.Terminated := Memory.copyWrites_lt_iff
  rw [← hends]
  constructor
  · intro hin address hwrites
    exact (hin address hwrites).2
  · intro hlt address hwrites
    exact ⟨hwrites.1, hlt address hwrites⟩

end FieldCopy

/-- The four bytes of an `int`, low byte first. -/
def intBytes (value : Int) : List Byte :=
  [0, 1, 2, 3].map fun place => UInt8.ofNat ((value % 2 ^ 32).toNat / 256 ^ place)

/-- Writing through a `MsgHead*`. -/
def MsgHead.store (head : MsgHead) (message : Memory Byte) : Memory Byte :=
  message.write 0 (ushortBytes head.size ++ ushortBytes head.msgId ++ ushortBytes head.code)

/-- A message, and the copies made while it was built. -/
structure Built where
  msg : Memory Byte
  copies : List FieldCopy

/-- Store the header, then copy the strings. -/
def Built.make (memory : Memory Byte) (head : MsgHead) (copies : List FieldCopy) : Built :=
  ⟨copies.foldl (fun message copy => copy.run message) (head.store memory), copies⟩

/-- `MsgHead(id)`. -/
def MsgHead.new (memory : Memory Byte) (id : MsgID) : Built :=
  .make memory ⟨MsgHead.sizeof, id.code, 0⟩ []

namespace MsgLoginReq

def sizeof : Nat := 518
def userId : Nat := 6
def passwd : Nat := 262

def new (memory id psw : Memory Byte) : Built :=
  .make memory ⟨sizeof, MsgID.login.code, 0⟩ [⟨userId, 256, id⟩, ⟨passwd, 256, psw⟩]

end MsgLoginReq

/-- `MsgLoginResp` is a `MsgLoginReq` that stores its header once more. -/
def MsgLoginResp.new (memory id psw : Memory Byte) : Built :=
  let built := MsgLoginReq.new memory id psw
  { built with
    msg := built.msg.write 0 (ushortBytes MsgLoginReq.sizeof ++ ushortBytes MsgID.login.code) }

/-- `MsgNewClientLoginResp(id)`. -/
def MsgNewClientLoginResp.new (memory id : Memory Byte) : Built :=
  .make memory ⟨262, MsgID.newClientLogin.code, 0⟩ [⟨6, 256, id⟩]

/-- `MsgInfoResp(a, n)`. Its `age` is aligned to four bytes. -/
def MsgInfoResp.new (memory : Memory Byte) (age : Int) (name : Memory Byte) : Built :=
  .make (memory.write 8 (intBytes age)) ⟨140, MsgID.info.code, 0⟩ [⟨12, 128, name⟩]

/-- `MsgUnknowResp(n)`. -/
def MsgUnknowResp.new (memory content : Memory Byte) : Built :=
  .make memory ⟨134, MsgID.unknow.code, 0⟩ [⟨6, 128, content⟩]

/-- A string literal. -/
def literal (text : String) : Memory Byte :=
  .ofList (text.toList.map fun char => UInt8.ofNat char.toNat) 0

theorem literal_terminated {text : String} {limit : Nat} (hlen : text.toList.length < limit) :
    (literal text).Terminated limit :=
  Memory.terminated_ofList (by simpa using hlen)

end SelectNet
