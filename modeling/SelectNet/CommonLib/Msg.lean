import SelectNet.Foundation.ByteMemory
import SelectNet.Foundation.Framing

/-!
# Message headers

Constants of `Macro.h`, the message header of `Msg.h`, and the framing rule its
first field imposes on a stream. `int` values are integers, `unsigned short`
values are naturals; every place that narrows a wider value says so.
-/

namespace SelectNet

abbrev Byte := UInt8

/-- `SOCKET` on Unix: an `int`. -/
abbrev Socket := Int

def invalidSocket : Socket := -1

def packageMaxSize : Nat := 2048
def serverRecvBufferSize : Nat := packageMaxSize * 10
def serverSendBufferSize : Nat := packageMaxSize * 10
def clientRecvBufferSize : Nat := packageMaxSize * 10
def clientSendBufferSize : Nat := packageMaxSize * 10
def serverSendQueueMaxAccumulateCount : Nat := 10000
def clientSendQueueMaxAccumulateCount : Nat := 10000
def clientRecvQueueMaxAccumulateCount : Nat := 10000

/-- `ThreadSafeType` of `Common.h`. -/
inductive ThreadSafeType where
  | unSafe
  | safe
  deriving DecidableEq, Repr

inductive MsgID where
  | broadcast
  | error
  | info
  | unknow
  | login
  | logout
  | newClientLogin
  | newClientConn
  | test
  deriving DecidableEq, Repr

/-- The numeric value of the enumerator. -/
def MsgID.code : MsgID → Nat
  | .broadcast => 0
  | .error => 1
  | .info => 2
  | .unknow => 3
  | .login => 4
  | .logout => 5
  | .newClientLogin => 6
  | .newClientConn => 7
  | .test => 8

/-- The `unsigned short` that the first two bytes hold, low byte first. -/
def ushort : List Byte → Nat
  | low :: high :: _ => low.toNat + 256 * high.toNat
  | _ => 0

theorem ushort_append {bytes : List Byte} (more : List Byte) (hlen : 2 ≤ bytes.length) :
    ushort (bytes ++ more) = ushort bytes := by
  match bytes, hlen with
  | _ :: _ :: _, _ => rfl

theorem ushort_take {bytes : List Byte} {count : Nat} (hcount : 2 ≤ count) :
    ushort (bytes.take count) = ushort bytes := by
  obtain ⟨count, rfl⟩ : ∃ n, count = n + 2 := ⟨count - 2, by omega⟩
  match bytes with
  | [] => rfl
  | [_] => rfl
  | _ :: _ :: _ => rfl

theorem ushort_lt (bytes : List Byte) : ushort bytes < 65536 := by
  match bytes with
  | [] => exact Nat.succ_pos _
  | [_] => exact Nat.succ_pos _
  | low :: high :: _ =>
      have hlow := low.toNat_lt
      have hhigh := high.toNat_lt
      simp only [ushort]
      omega

/-- The two bytes of an `unsigned short`, low byte first. -/
def ushortBytes (value : Nat) : List Byte := [UInt8.ofNat value, UInt8.ofNat (value / 256)]

@[simp] theorem ushortBytes_length (value : Nat) : (ushortBytes value).length = 2 := rfl

theorem ushort_ushortBytes {value : Nat} (hlt : value < 65536) :
    ushort (ushortBytes value) = value := by
  simp only [ushortBytes, ushort, UInt8.toNat_ofNat']
  omega

/-- `struct MsgHead`: three `unsigned short`. -/
structure MsgHead where
  size : Nat
  msgId : Nat
  code : Nat
  deriving DecidableEq, Repr

/-- `sizeof(MsgHead)`. -/
def MsgHead.sizeof : Nat := 6

/-- Reading through a `MsgHead*`. -/
def MsgHead.load (message : Memory Byte) : MsgHead where
  size := ushort (message.read 0 2)
  msgId := ushort (message.read 2 2)
  code := ushort (message.read 4 2)

/-- The header of a memory that begins with these bytes. -/
theorem MsgHead.load_eq {message : Memory Byte} {bytes : List Byte}
    (hread : message.read 0 bytes.length = bytes) (hlen : MsgHead.sizeof ≤ bytes.length) :
    MsgHead.load message = ⟨ushort bytes, ushort (bytes.drop 2), ushort (bytes.drop 4)⟩ := by
  have hsizeof : MsgHead.sizeof = 6 := rfl
  have hpart : ∀ start, start + 2 ≤ bytes.length →
      ushort (message.read start 2) = ushort (bytes.drop start) := by
    intro start hstart
    have hdrop := Memory.drop_read message 0 bytes.length start
    rw [hread, Nat.zero_add] at hdrop
    have htake := Memory.take_read message start (bytes.length - start) 2
    rw [← hdrop, Nat.min_eq_left (by omega)] at htake
    rw [← htake, ushort_take (Nat.le_refl 2)]
  rw [MsgHead.load, hpart 0 (by omega), hpart 2 (by omega), hpart 4 (by omega), List.drop_zero]

/-- The framing of a stream by `MsgHead::size`. A size above `PACKAGE_MAX_SIZE`
is refused; there is no lower bound. -/
def headRule : Framing Byte where
  headerLen := MsgHead.sizeof
  headerLen_pos := by decide
  size stream := if packageMaxSize < ushort stream then none else some (ushort stream)
  size_append stream more hlen := by
    rw [ushort_append more (Nat.le_trans (by decide) hlen)]

@[simp] theorem headRule_headerLen : headRule.headerLen = 6 := rfl

theorem headRule_size_of_gt {stream : List Byte} (hlarge : packageMaxSize < ushort stream) :
    headRule.size stream = none :=
  if_pos hlarge

theorem headRule_size_of_le {stream : List Byte} (hle : ushort stream ≤ packageMaxSize) :
    headRule.size stream = some (ushort stream) :=
  if_neg (Nat.not_lt.mpr hle)

theorem headRule_size_eq {stream : List Byte} {count : Nat}
    (hsize : headRule.size stream = some count) : count = ushort stream := by
  by_cases hle : ushort stream ≤ packageMaxSize
  · rw [headRule_size_of_le hle, Option.some.injEq] at hsize
    exact hsize.symm
  · rw [headRule_size_of_gt (Nat.lt_of_not_le hle)] at hsize
    cases hsize

theorem headRule_size_le {stream : List Byte} {count : Nat}
    (hsize : headRule.size stream = some count) : count ≤ packageMaxSize := by
  by_cases hle : ushort stream ≤ packageMaxSize
  · exact headRule_size_eq hsize ▸ hle
  · rw [headRule_size_of_gt (Nat.lt_of_not_le hle)] at hsize
    cases hsize

/-- A message whose header announces its own length, within the limits. -/
theorem headRule_isFrame_iff {frame : List Byte} :
    headRule.IsFrame frame ↔
      MsgHead.sizeof ≤ frame.length ∧ ushort frame = frame.length ∧
        frame.length ≤ packageMaxSize := by
  unfold Framing.IsFrame
  rw [headRule_headerLen]
  constructor
  · rintro ⟨hlen, hsize⟩
    by_cases hle : ushort frame ≤ packageMaxSize
    · rw [headRule_size_of_le hle, Option.some.injEq] at hsize
      exact ⟨hlen, hsize, hsize ▸ hle⟩
    · rw [headRule_size_of_gt (Nat.lt_of_not_le hle)] at hsize
      cases hsize
  · rintro ⟨hlen, hsize, hle⟩
    exact ⟨hlen, by rw [headRule_size_of_le (hsize ▸ hle), hsize]⟩

theorem length_le_of_mem_frames {stream frame : List Byte}
    (hmem : frame ∈ (headRule.parse stream).frames) : frame.length ≤ packageMaxSize := by
  obtain ⟨cells, hsize⟩ := Framing.size_of_mem_frames hmem
  exact headRule_size_le hsize

/-- A frame that holds its size field is as long as that says. -/
theorem ushort_of_mem_frames {stream frame : List Byte}
    (hmem : frame ∈ (headRule.parse stream).frames) (hhead : 2 ≤ frame.length) :
    ushort frame = frame.length := by
  obtain ⟨cells, hsize, _, hframe⟩ := Framing.take_of_mem_frames hmem
  rw [hframe, ushort_take hhead, ← hframe]
  exact (headRule_size_eq hsize).symm

/-- The rest that a receiver keeps is always shorter than a largest package. -/
theorem length_lt_of_unfinished {rest : List Byte} (hpart : headRule.Unfinished rest) :
    rest.length < packageMaxSize := by
  rcases hpart with hshort | ⟨count, hsize, hlen⟩
  · exact Nat.lt_trans hshort (by decide)
  · by_cases hle : ushort rest ≤ packageMaxSize
    · rw [headRule_size_of_le hle, Option.some.injEq] at hsize
      omega
    · rw [headRule_size_of_gt (Nat.lt_of_not_le hle)] at hsize
      cases hsize

end SelectNet
