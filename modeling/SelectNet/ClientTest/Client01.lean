import SelectNet.CommonLib.ConfigHelp
import SelectNet.CommonLib.MessageStrings
import SelectNet.CommonLib.SelectClientThread

/-!
# Client01

The client that a user types at. A line is one word, which `scanf` has read; what
the client logs of a message is what the user is shown.
-/

namespace SelectNet

namespace Client01

/-- What `OnRecvMsg` logs of a message behind its header. -/
inductive Shown where
  | info (age : Int) (name : List Byte)
  | unknow (content : List Byte)
  | login (userId passwd : List Byte)
  | loginFailed
  | logout
  | logoutFailed
  | newClient (userId : List Byte)
  | broadcast (content : List Byte)
  deriving DecidableEq

/-- The `int` that four bytes hold, low byte first. -/
def int (bytes : List Byte) : Int :=
  Int.bmod (bytes.foldr (fun byte value => byte.toNat + 256 * value) 0 : Nat) (2 ^ 32)

/-- `ClientHandle::OnRecvMsg`. Strings are shown up to the end of their fields. -/
def onRecvMsg (msg : Memory Byte) : List Shown :=
  let head := MsgHead.load msg
  if head.msgId = MsgID.info.code then [.info (int (msg.read 8 4)) (msg.cstring 12 128)]
  else if head.msgId = MsgID.unknow.code then [.unknow (msg.cstring 6 128)]
  else if head.msgId = MsgID.login.code then
    if head.code = 0 then
      [.login (msg.cstring MsgLoginReq.userId 256) (msg.cstring MsgLoginReq.passwd 256)]
    else [.loginFailed]
  else if head.msgId = MsgID.logout.code then
    if head.code = 0 then [.logout] else [.logoutFailed]
  else if head.msgId = MsgID.newClientLogin.code then [.newClient (msg.cstring 6 256)]
  else if head.msgId = MsgID.broadcast.code then [.broadcast (msg.cstring 6 256)]
  else []

def bar : StdString := ⟨[124], by decide⟩

/-- `c_str()`. -/
def cStr (str : StdString) : Memory Byte := .ofList str.bytes 0

/-- What `sprintf` writes for a word with a number behind it. -/
def numbered (word : String) (i : Nat) : Memory Byte := .ofList (ascii word ++ Decimal.natText i) 0

/-- One pass of the loop of `loginall`: both fields are written, and the message
sent. -/
def loginPass (login : Memory Byte) (i : Nat) : Memory Byte :=
  (login.strcpy MsgLoginReq.userId (numbered "lwj" i)).strcpy MsgLoginReq.passwd
    (numbered "psw" i)

def loginAll (login : Memory Byte) (client : SelectClientThread) (count : Nat) :
    Memory Byte × SelectClientThread :=
  (List.range count).foldl
    (fun (login, client) i =>
      (loginPass login i, (SelectClientThread.sendMsg client (loginPass login i)).2))
    (login, client)

/-- `strsplit(inputBuf, "|")`. It is `none` for an exception, or if its loop needs
more passes than the line has positions. -/
def split (inputBuf : StdString) : Option (List StdString) :=
  (strsplit (inputBuf.length + 1) inputBuf bar).join

/-- The `login` branch, with the fields of the line. -/
def sendLogin (stack : Memory Byte) (client : SelectClientThread) :
    List StdString → Int × SelectClientThread
  | _ :: id :: psw :: _ => (0, (client.sendMsg (MsgLoginReq.new stack (cStr id) (cStr psw)).msg).2)
  | _ => (0, client)

/-- The `logout` branch, with the fields of the line. -/
def sendLogout (stack : Memory Byte) (client : SelectClientThread) :
    List StdString → Int × SelectClientThread
  | _ :: id :: _ => (0, (client.sendMsg (MsgLogoutReq.new stack (cStr id)).msg).2)
  | _ => (0, client)

/-- `processorSend(inputBuf, client)`, given what the memory of its local message
holds. -/
def processorSend (inputBuf : StdString) (stack : Memory Byte) (client : SelectClientThread) :
    Option (Int × SelectClientThread) :=
  let begins word := strcmpEx inputBuf.bytes (ascii word) (-1) = 0
  if begins "exit" then some (-1, client.close)
  else if begins "loginall" then
    let login := (Built.make stack ⟨MsgLoginReq.sizeof, MsgID.login.code, 0⟩ []).msg
    some (0, (loginAll login client 10000).2)
  else if begins "login" then (split inputBuf).map (sendLogin stack client)
  else if begins "logout" then (split inputBuf).map (sendLogout stack client)
  else if begins "getInfo" then some (0, (client.sendMsg (MsgHead.new stack .info).msg).2)
  else if begins "broadcast" then
    some (0, (client.sendMsg (MsgBroadcast.new stack (ascii "TestBroadcast")).msg).2)
  else some (0, (client.sendMsg (MsgHead.new stack .unknow).msg).2)

end Client01

end SelectNet
