import SelectNet.ServerTest.Server02

/-!
# The strings a handler copies

The handlers of the test servers take the strings of a `Login` as they find them
in `_package`. A string that is not ended within its own field is copied past the
end of the field it is for.
-/

namespace SelectNet

/-- The strings that a server's handler copies when `ProcessorRecv` hands it a
package. -/
def madeCopies (handle : ServerHandle Locals) (sender : ClientId) (s : ClientSocket Locals)
    (frame : List Byte) : List FieldCopy :=
  (ClientSocket.handled (handle.forSender sender) s frame).1.copies.drop
    s.ext.world.copies.length

/-- Every copy finds its string's end within the first bytes that its field has
room for, and writes nothing outside the field. -/
def CopiesFit (copies : List FieldCopy) : Prop :=
  ∀ copy ∈ copies, copy.Terminated ∧ copy.InField

/-- The 256 bytes of a frame from `start` on hold a zero, or end behind the frame,
where the padding is. -/
def EndsIn (frame : List Byte) (start : Nat) : Prop :=
  frame.length < start + 256 ∨ 0 ∈ (frame.drop start).take 256

/-- The frame is no `Login`, or both of its strings end within their fields. -/
def LoginEnds (frame : List Byte) : Prop :=
  ushort ((padded frame).drop 2) ≠ MsgID.login.code ∨
    EndsIn frame MsgLoginReq.userId ∧ EndsIn frame MsgLoginReq.passwd

variable {frame : List Byte} {package : Memory Byte} {copies : List FieldCopy}

/-! ## The package -/

theorem padded_length (hlen : frame.length ≤ packageMaxSize) :
    (padded frame).length = packageMaxSize := by
  simp [padded]
  omega

/-- Where a window of the padded frame holds a zero. -/
theorem mem_padded_iff {start : Nat} (hlen : frame.length ≤ packageMaxSize)
    (hstart : start + 256 ≤ packageMaxSize) :
    0 ∈ ((padded frame).drop start).take 256 ↔ EndsIn frame start := by
  by_cases hshort : frame.length < start + 256
  · refine iff_of_true ?_ (Or.inl hshort)
    -- the first byte of the padding that is in the window
    rw [List.mem_iff_getElem?]
    refine ⟨frame.length - start, ?_⟩
    rw [List.getElem?_take_of_lt (by omega), List.getElem?_drop, padded,
      List.getElem?_append_right (by omega), List.getElem?_replicate_of_lt (by omega)]
  · have hwindow : ((padded frame).drop start).take 256 = (frame.drop start).take 256 := by
      rw [padded, List.drop_append_of_le_length (by omega),
        List.take_append_of_le_length (by simp; omega)]
    rw [hwindow]
    exact ⟨Or.inr, fun hends => hends.resolve_left hshort⟩

theorem terminated_fillPackage {start : Nat} (hlen : frame.length ≤ packageMaxSize)
    (hstart : start + 256 ≤ packageMaxSize) :
    ((fillPackage package frame).behind start).Terminated 256 ↔ EndsIn frame start := by
  have hwindow : (fillPackage package frame).read start 256 =
      ((padded frame).drop start).take 256 := by
    have hmin : min 256 (packageMaxSize - start) = 256 := by omega
    rw [← read_fillPackage package hlen, Memory.drop_read, Memory.take_read, hmin, Nat.zero_add]
  rw [Memory.terminated_iff_mem, Memory.read_behind, hwindow, mem_padded_iff hlen hstart]

theorem msgId_fillPackage (hlen : frame.length ≤ packageMaxSize) :
    (MsgHead.load (fillPackage package frame)).msgId = ushort ((padded frame).drop 2) := by
  have hpadded := padded_length hlen
  have hread : (fillPackage package frame).read 0 (padded frame).length = padded frame := by
    rw [hpadded, read_fillPackage package hlen]
  exact congrArg MsgHead.msgId (MsgHead.load_eq hread (by rw [hpadded]; decide))

/-! ## The copies -/

@[simp] theorem copiesFit_nil : CopiesFit [] := by simp [CopiesFit]

theorem copiesFit_cons (copy : FieldCopy) :
    CopiesFit (copy :: copies) ↔ copy.Terminated ∧ CopiesFit copies := by
  simp [CopiesFit, FieldCopy.inField_iff]

/-- A branch adds copies that fit. -/
def AddsFitting (own : Locals) (result : Locals × List HandleAct) : Prop :=
  ∃ made, result.1.copies = own.copies ++ made ∧ CopiesFit made

theorem onInfo_fits (own : Locals) : AddsFitting own (onInfo own) := by
  refine ⟨_, rfl, (copiesFit_cons _).mpr ⟨?_, copiesFit_nil⟩⟩
  exact literal_terminated (by decide)

theorem onLogout_fits (own : Locals) : AddsFitting own (onLogout own) :=
  ⟨[], rfl, copiesFit_nil⟩

theorem onUnknow_fits (own : Locals) : AddsFitting own (onUnknow own) := by
  refine ⟨_, rfl, (copiesFit_cons _).mpr ⟨?_, copiesFit_nil⟩⟩
  exact literal_terminated (by decide)

theorem acts_fit (own : Locals) (acts : List HandleAct) : AddsFitting own (own, acts) :=
  ⟨[], (List.append_nil _).symm, copiesFit_nil⟩

theorem server01_fits {own : Locals} {sender : ClientId} {msg : Memory Byte}
    (hid : (MsgHead.load msg).msgId ≠ MsgID.login.code) :
    AddsFitting own (Server01.onMsgHandle own sender msg) := by
  unfold Server01.onMsgHandle
  simp only
  split
  next => exact onInfo_fits own
  next =>
    split
    next => exact onLogout_fits own
    next =>
      split
      next => exact acts_fit own _
      next => exact onUnknow_fits own

theorem server02_fits {own : Locals} {sender : ClientId} {msg : Memory Byte}
    (hid : (MsgHead.load msg).msgId ≠ MsgID.login.code) :
    AddsFitting own (Server02.serverHandle own sender msg) := by
  unfold Server02.serverHandle
  split
  next => exact acts_fit own _
  next =>
    unfold Server02.otherBranches
    simp only
    split
    next => exact onInfo_fits own
    next =>
      split
      next => exact onLogout_fits own
      next =>
        split
        next => exact acts_fit own _
        next => exact onUnknow_fits own

/-- The strings of a `Login` as they lie in its message. -/
def userIdCopy (msg : Memory Byte) : FieldCopy :=
  ⟨MsgLoginReq.userId, 256, msg.behind MsgLoginReq.userId⟩

def passwdCopy (msg : Memory Byte) : FieldCopy :=
  ⟨MsgLoginReq.passwd, 256, msg.behind MsgLoginReq.passwd⟩

theorem server01_login {own : Locals} {sender : ClientId} {msg : Memory Byte}
    (hid : (MsgHead.load msg).msgId = MsgID.login.code) :
    (Server01.onMsgHandle own sender msg).1.copies =
      own.copies ++ [userIdCopy msg, passwdCopy msg, userIdCopy msg] := by
  have hinfo : MsgID.login.code ≠ MsgID.info.code := by decide
  simp only [Server01.onMsgHandle, hid, if_neg hinfo, if_true]
  rfl

theorem server02_login {own : Locals} {sender : ClientId} {msg : Memory Byte}
    (hid : (MsgHead.load msg).msgId = MsgID.login.code) :
    (Server02.serverHandle own sender msg).1.copies =
      own.copies ++ [userIdCopy msg, passwdCopy msg] := by
  have htest : MsgID.login.code ≠ MsgID.test.code := by decide
  have hinfo : MsgID.login.code ≠ MsgID.info.code := by decide
  simp only [Server02.serverHandle, Server02.otherBranches, hid, if_neg htest, if_neg hinfo,
    if_true]
  rfl

section Handed

variable {handle : ServerHandle Locals} {sender : ClientId} {s : ClientSocket Locals}

theorem madeCopies_eq
    (hmade : (handle s.ext.world sender (fillPackage s.package frame)).1.copies =
      s.ext.world.copies ++ copies) : madeCopies handle sender s frame = copies := by
  change List.drop _ (handle s.ext.world sender (fillPackage s.package frame)).1.copies = copies
  rw [hmade, List.drop_left]

/-- A handler fits what it copies of a frame as the frame is a `Login` that ends,
if it copies the two strings of a `Login` and little else. -/
theorem madeCopies_fit_iff (hlen : frame.length ≤ packageMaxSize)
    (hother : ∀ own msg, (MsgHead.load msg).msgId ≠ MsgID.login.code →
      AddsFitting own (handle own sender msg))
    (hlogin : ∀ own msg, (MsgHead.load msg).msgId = MsgID.login.code →
      ∃ made, (handle own sender msg).1.copies = own.copies ++ made ∧
        (CopiesFit made ↔ (userIdCopy msg).Terminated ∧ (passwdCopy msg).Terminated)) :
    CopiesFit (madeCopies handle sender s frame) ↔ LoginEnds frame := by
  have hmsgId : (MsgHead.load (fillPackage s.package frame)).msgId =
      ushort ((padded frame).drop 2) := msgId_fillPackage hlen
  by_cases hid : (MsgHead.load (fillPackage s.package frame)).msgId = MsgID.login.code
  · obtain ⟨made, hmade, hfit⟩ := hlogin s.ext.world _ hid
    have huser : (userIdCopy (fillPackage s.package frame)).Terminated ↔ EndsIn frame 6 :=
      terminated_fillPackage hlen (by decide)
    have hpass : (passwdCopy (fillPackage s.package frame)).Terminated ↔ EndsIn frame 262 :=
      terminated_fillPackage hlen (by decide)
    rw [madeCopies_eq hmade, hfit, huser, hpass]
    exact ⟨Or.inr, fun hends => hends.resolve_left (not_not.mpr (hmsgId.symm.trans hid))⟩
  · obtain ⟨made, hmade, hfit⟩ := hother s.ext.world _ hid
    rw [madeCopies_eq hmade]
    exact iff_of_true hfit (Or.inl fun hlogin => hid (hmsgId.trans hlogin))

/-- The handlers of both servers copy within the fields of their answers exactly
if a `Login` ends its strings in time. -/
theorem copies_fit_iff (sender : ClientId) (s : ClientSocket Locals)
    (hlen : frame.length ≤ packageMaxSize) :
    (CopiesFit (madeCopies Server01.onMsgHandle sender s frame) ↔ LoginEnds frame) ∧
      (CopiesFit (madeCopies Server02.serverHandle sender s frame) ↔ LoginEnds frame) := by
  constructor
  · refine madeCopies_fit_iff hlen (fun own msg hid => server01_fits hid) ?_
    intro own msg hid
    refine ⟨_, server01_login hid, ?_⟩
    simp [copiesFit_cons]
    tauto
  · refine madeCopies_fit_iff hlen (fun own msg hid => server02_fits hid) ?_
    intro own msg hid
    refine ⟨_, server02_login hid, ?_⟩
    simp [copiesFit_cons]

end Handed

/-- A `Login` with two short strings. -/
theorem copies_fit_short :
    let s := ClientSocket.new 5 (⟨fun _ _ => 0, []⟩ : Locals) (fun _ => 0) (fun _ => 0)
      (fun _ => 0) none
    CopiesFit (madeCopies Server01.onMsgHandle 7 s [10, 0, 4, 0, 0, 0, 97, 98, 0, 99]) ∧
      CopiesFit (madeCopies Server02.serverHandle 7 s [10, 0, 4, 0, 0, 0, 97, 98, 0, 99]) := by
  intro s
  have hlen : ([10, 0, 4, 0, 0, 0, 97, 98, 0, 99] : List Byte).length ≤ packageMaxSize := by decide
  have hends : LoginEnds [10, 0, 4, 0, 0, 0, 97, 98, 0, 99] :=
    Or.inr ⟨Or.inl (by decide), Or.inl (by decide)⟩
  obtain ⟨hfirst, hsecond⟩ := copies_fit_iff 7 s hlen
  exact ⟨hfirst.mpr hends, hsecond.mpr hends⟩

/-- A `Login` of 518 bytes without a zero behind its header. -/
def endlessLogin : List Byte := [6, 2, 4, 0, 0, 0] ++ List.replicate 512 1

/-- It is received as a package, and its strings are copied past their fields. -/
theorem endlessLogin_overruns :
    headRule.parse endlessLogin = ⟨[endlessLogin], .rest []⟩ ∧
      ¬ CopiesFit (madeCopies Server01.onMsgHandle 7
        (ClientSocket.new 5 ⟨fun _ _ => 0, []⟩ (fun _ => 0) (fun _ => 0) (fun _ => 0) none)
        endlessLogin) := by
  have hlen : endlessLogin.length = 518 := by
    rw [endlessLogin, List.length_append, List.length_replicate]
    rfl
  constructor
  · have hframe : headRule.IsFrame endlessLogin := by
      rw [headRule_isFrame_iff, hlen]
      exact ⟨by decide, by decide, by decide⟩
    have hparse : headRule.parse [endlessLogin].flatten = ⟨[endlessLogin], .rest []⟩ :=
      Framing.parse_flatten (by simpa using hframe)
    rwa [List.flatten_singleton] at hparse
  · have hmax : endlessLogin.length ≤ packageMaxSize := by rw [hlen]; decide
    intro hfit
    have hlogin : (MsgHead.load (fillPackage (fun _ => 0) endlessLogin)).msgId =
        MsgID.login.code := by
      rw [msgId_fillPackage hmax]
      rfl
    rw [madeCopies_eq (server01_login hlogin), copiesFit_cons] at hfit
    have huser : EndsIn endlessLogin 6 := (terminated_fillPackage hmax (by decide)).mp hfit.1
    rcases huser with hshort | hzero
    · rw [hlen] at hshort
      omega
    · have hones : endlessLogin.drop 6 = List.replicate 512 1 := rfl
      rw [hones, List.take_replicate] at hzero
      exact absurd (List.eq_of_mem_replicate hzero) (by decide)

end SelectNet
