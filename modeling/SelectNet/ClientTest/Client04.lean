import SelectNet.CommonLib.IOBuffer
import SelectNet.CommonLib.SelectClientThread
import SelectNet.CommonLib.Utils

/-!
# Client04

The load generator builds a batch of equal messages once, and every thread sends
its copy of the batch as the data of one call. The values of `ClientConfig.txt`
are given.
-/

namespace SelectNet

/-- What the constructor of `Client04` reads from `ClientConfig.txt`. -/
structure ClientConfig where
  clientNum : Int
  threadNum : Int
  serverIP : StdString
  port : Int
  msgLen : Int
  msgNum : Int
  msgContent : StdString

namespace ClientConfig

/-- The checks, in order: what the first one that fails logs. -/
def illegal (config : ClientConfig) : Option String :=
  if config.clientNum < 1 then some "ClientConfig ClientNum Format illegal\n"
  else if config.threadNum < 1 then some "ClientConfig ThreadNum Format illegal \n"
  else if config.serverIP.bytes = [] then some "ClientConfig ServerIP Format illegal \n"
  else if config.port < 0 then some "ClientConfig Port Format illegal \n"
  else if config.msgLen ≤ 0 then some "ClientConfig MsgLen Format illegal \n"
  else if config.msgNum ≤ 0 then some "ClientConfig MsgNum Format illegal \n"
  else if config.msgContent.bytes = [] then some "ClientConfig MsgContent Format illegal \n"
  else none

/-- The `strlen(words)` bytes at `words`. -/
def words (config : ClientConfig) : List Byte := config.msgContent.bytes.takeWhile (· ≠ 0)

/-- `_msgTotalLen`, a product of `int`s. -/
def msgTotalLen (config : ClientConfig) : Int := Int.bmod (config.msgLen * config.msgNum) (2 ^ 32)

/-- One pass of the loop that fills `_msgData`. -/
def writeMsg (config : ClientConfig) (iBuffer : IBuffer) (i : Nat) : Option IBuffer := do
  let iBuffer ← iBuffer.seek (Int.bmod (i * config.msgLen) (2 ^ 32))
  let iBuffer ← iBuffer.writeUShort (config.msgLen % 65536).toNat
  let iBuffer ← iBuffer.writeUShort MsgID.test.code
  let iBuffer ← iBuffer.writeUShort 0
  iBuffer.writeBytes (config.words ++ [0])

/-- The loop over the zeroed array. It is `none` if an `assert` fails. -/
def fill (config : ClientConfig) : Option IBuffer :=
  (List.range config.msgNum.toNat).foldlM config.writeMsg
    (.setBuffer (fun _ => 0) config.msgTotalLen)

end ClientConfig

/-- `Client04::ClientMgr`: what it connects to and what it sends. -/
structure ClientMgr where
  clientNum : Int
  serverIP : StdString
  port : Int
  msgData : Memory Byte
  msgLen : Int

namespace ClientMgr

/-- The constructor copies the data into an array of its own, given what that held. -/
def new (clientNum : Int) (serverIP : StdString) (port : Int) (msgData : Memory Byte)
    (msgLen : Int) (fresh : Memory Byte) : ClientMgr :=
  ⟨clientNum, serverIP, port, fresh.write 0 (msgData.read 0 msgLen.toNat), msgLen⟩

/-- `SendData(_msgData, _msgLen)`, whose second parameter is an `unsigned short`. -/
def sendData (mgr : ClientMgr) (client : SelectClientThread) : Int × SelectClientThread :=
  client.sendData mgr.msgData (mgr.msgLen % 65536).toNat

end ClientMgr

/-- The constructor of `Client04` up to the threads: the text it logs when it
refuses the configuration, or its `_clientArr`. -/
def Client04.new (config : ClientConfig) (fresh : Nat → Memory Byte) :
    Option (Except String (List ClientMgr)) :=
  match config.illegal with
  | some text => some (.error text)
  | none => config.fill.map fun iBuffer =>
      .ok ((List.range config.threadNum.toNat).map fun i =>
        .new (config.clientNum.tdiv config.threadNum) config.serverIP config.port iBuffer.buf
          config.msgTotalLen (fresh i))

end SelectNet
