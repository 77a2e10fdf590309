import SelectNet.ServerTest.Server01

/-!
# The handler of Server02

The `Test` branch sends the message back to its sender. What the other branches
do is a parameter where only that matters.
-/

namespace SelectNet

namespace Server02

variable {ω : Type}

/-- `ServerHandle::OnMsgHandle`. -/
def onMsgHandle (otherBranches : MsgHandle ω) : MsgHandle ω := fun world msg =>
  if (MsgHead.load msg).msgId = MsgID.test.code then (world, [msg])
  else otherBranches world msg

/-- The `Login` branch. The announcement to the others is commented out. -/
def onLogin (own : Locals) (msg : Memory Byte) : Locals × List HandleAct :=
  own.replies (MsgLoginResp.new (own.stack 0) (msg.behind MsgLoginReq.userId)
    (msg.behind MsgLoginReq.passwd))

/-- The other branches. -/
def otherBranches : ServerHandle Locals := fun own sender msg =>
  let msgId := (MsgHead.load msg).msgId
  if msgId = MsgID.info.code then onInfo own
  else if msgId = MsgID.login.code then onLogin own msg
  else if msgId = MsgID.logout.code then onLogout own
  else if msgId = MsgID.broadcast.code then
    (own, [.broadcast msg fun client => client = sender])
  else onUnknow own

/-- The whole of `ServerHandle::OnMsgHandle`, with the other clients in view. -/
def serverHandle : ServerHandle Locals := fun own sender msg =>
  if (MsgHead.load msg).msgId = MsgID.test.code then (own, [.reply msg])
  else otherBranches own sender msg

theorem serverHandle_forSender (sender : ClientId) :
    serverHandle.forSender sender = onMsgHandle (otherBranches.forSender sender) := by
  funext own msg
  simp only [ServerHandle.forSender, serverHandle, onMsgHandle]
  split
  next => simp [HandleAct.toSender]
  next => rfl

/-- A message with the id `Test`, of the length it says. -/
structure IsTest (frame : List Byte) : Prop where
  isFrame : headRule.IsFrame frame
  msgId : ushort (frame.drop 2) = MsgID.test.code

variable {s : ClientSocket ω} {frame : List Byte} {frames : List (List Byte)}

/-- What `SendMsg` queues of a `Test` message within the limits. -/
theorem isTest_msgBytes {msg : Memory Byte} (hmin : MsgHead.sizeof ≤ (MsgHead.load msg).size)
    (hmax : (MsgHead.load msg).size ≤ packageMaxSize)
    (hid : (MsgHead.load msg).msgId = MsgID.test.code) : IsTest (Endpoint.msgBytes msg) := by
  have hlen : (Endpoint.msgBytes msg).length = (MsgHead.load msg).size := Memory.length_read _ _ _
  have hread : msg.read 0 (Endpoint.msgBytes msg).length = Endpoint.msgBytes msg := by
    rw [hlen]
    rfl
  have hload := MsgHead.load_eq hread (by rw [hlen]; exact hmin)
  have hsize : (MsgHead.load msg).size = ushort (Endpoint.msgBytes msg) :=
    congrArg MsgHead.size hload
  have hmsgId : (MsgHead.load msg).msgId = ushort ((Endpoint.msgBytes msg).drop 2) :=
    congrArg MsgHead.msgId hload
  exact ⟨headRule_isFrame_iff.mpr ⟨by rw [hlen]; exact hmin, by rw [hlen, hsize],
    by rw [hlen]; exact hmax⟩, hmsgId.symm.trans hid⟩

/-- The handler answers a `Test` message with exactly its bytes. -/
theorem handled_test (otherBranches : MsgHandle ω) (s : ClientSocket ω) (htest : IsTest frame) :
    (ClientSocket.handled (onMsgHandle otherBranches) s frame).2.flatMap Endpoint.msgBytes =
      frame := by
  obtain ⟨hhead, hsize, hmax⟩ := headRule_isFrame_iff.mp htest.isFrame
  have hread : (fillPackage s.package frame).read 0 frame.length = frame :=
    Memory.read_write _ 0 frame
  have hload := MsgHead.load_eq hread hhead
  have hid : (MsgHead.load (fillPackage s.package frame)).msgId = MsgID.test.code := by
    rw [hload]
    exact htest.msgId
  rw [ClientSocket.handled, onMsgHandle, if_pos hid, List.flatMap_singleton, Endpoint.msgBytes,
    hload, hsize, hread]

/-- Handing over `Test` messages puts them on their way back, in order. -/
theorem onPackages_test (otherBranches : MsgHandle ω) (hinv : s.SendInv)
    (hopen : s.sock ≠ invalidSocket) (hframes : ∀ frame ∈ frames, IsTest frame) :
    (frames.foldl (ClientSocket.onPackage (onMsgHandle otherBranches)) s).kernel = s.kernel ∧
      (frames.foldl (ClientSocket.onPackage (onMsgHandle otherBranches)) s).accepted ++
          (frames.foldl (ClientSocket.onPackage (onMsgHandle otherBranches)) s).outgoing =
        s.accepted ++ s.outgoing ++ frames.flatten := by
  induction frames generalizing s with
  | nil => exact ⟨rfl, (List.append_nil _).symm⟩
  | cons frame frames ih =>
      have htest := hframes frame List.mem_cons_self
      obtain ⟨_, _, hmax⟩ := headRule_isFrame_iff.mp htest.isFrame
      obtain ⟨hsock, _, _, _, hnext, hstream⟩ :=
        ClientSocket.onPackage_spec (onMsgHandle otherBranches) hinv hmax
      obtain ⟨hkernel, hrest⟩ := ih hnext (hsock ▸ hopen) fun other hother =>
        hframes other (List.mem_cons_of_mem _ hother)
      refine ⟨hkernel.trans (Endpoint.sendMsgs_kernel _ _), ?_⟩
      rw [List.foldl_cons, hrest, hstream hopen, handled_test otherBranches s htest,
        List.flatten_cons, List.append_assoc]

end Server02

end SelectNet
