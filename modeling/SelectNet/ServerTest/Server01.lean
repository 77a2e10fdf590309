import SelectNet.CommonLib.Messages
import SelectNet.CommonLib.SelectServer

/-!
# The handler of Server01

A `Login` is answered to its sender and announced to the others. The handlers of
the test servers build their answers on the stack; what that held, and the
strings they copied, are the state of the model's handler.
-/

namespace SelectNet

/-- The locals of a message handler: what their memory holds when it is called,
in order of declaration, and a record of the strings copied into them. -/
structure Locals where
  stack : Nat → Memory Byte
  copies : List FieldCopy

namespace Locals

def copied (own : Locals) (copies : List FieldCopy) : Locals :=
  { own with copies := own.copies ++ copies }

/-- Build an answer and send it back. -/
def replies (own : Locals) (built : Built) : Locals × List HandleAct :=
  (own.copied built.copies, [.reply built.msg])

end Locals

/-- The `Info` branch of the test servers. -/
def onInfo (own : Locals) : Locals × List HandleAct :=
  own.replies (MsgInfoResp.new (own.stack 0) 80 (literal "lwj"))

/-- The `Logout` branch of the test servers. -/
def onLogout (own : Locals) : Locals × List HandleAct :=
  own.replies (MsgHead.new (own.stack 0) .logout)

/-- The `default` branch of the test servers. -/
def onUnknow (own : Locals) : Locals × List HandleAct :=
  own.replies (MsgUnknowResp.new (own.stack 0) (literal "what do you want to do"))

namespace Server01

/-- The `Login` branch. -/
def onLogin (own : Locals) (sender : ClientId) (msg : Memory Byte) : Locals × List HandleAct :=
  let userId := msg.behind MsgLoginReq.userId
  let passwd := msg.behind MsgLoginReq.passwd
  let loginResp := MsgLoginResp.new (own.stack 0) userId passwd
  let newClient := MsgNewClientLoginResp.new (own.stack 1) userId
  (own.copied (loginResp.copies ++ newClient.copies),
    [.reply loginResp.msg, .broadcast newClient.msg (fun client => client = sender)])

/-- `ServerHandle::OnMsgHandle`. -/
def onMsgHandle : ServerHandle Locals := fun own sender msg =>
  let msgId := (MsgHead.load msg).msgId
  if msgId = MsgID.info.code then onInfo own
  else if msgId = MsgID.login.code then onLogin own sender msg
  else if msgId = MsgID.logout.code then onLogout own
  else if msgId = MsgID.broadcast.code then (own, [.broadcast msg fun _ => false])
  else onUnknow own

end Server01

end SelectNet
