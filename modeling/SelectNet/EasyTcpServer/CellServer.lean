import SelectNet.EasyTcpClient.EasyTcpClient

/-!
# Receiving in a CellServer

A `CellServer` receives for many clients through one buffer of its own. Each client
has a message buffer, and `RecvData` treats it just as an `EasyTcpClient` treats
its own: `msgPass_asClient` and `recvData_asClient` say so.
-/

namespace SelectNet

namespace EasyTcpServer

/-- The `ClientSocket` of this server, which has no queues. -/
structure ClientSocket where
  sockfd : Socket
  szMsgBuf : Memory Byte
  lastPos : Int

def ClientSocket.new (sockfd : Socket) : ClientSocket where
  sockfd
  szMsgBuf := fun _ => 0
  lastPos := 0

namespace CellServer

/-- What `RecvData(pClient)` reads and writes: the client, the server's `_szRecv`, and
the messages that `OnNetMsg` was called with for this client. The handlers leave the
client's buffer alone. -/
structure Receiving where
  pClient : ClientSocket
  szRecv : Memory Byte
  netMsgs : List (List Byte)

/-- The message buffer behind what `recv` gave. -/
def recvStart (s : Receiving) (bytes : List Byte) : Receiving :=
  let szRecv := s.szRecv.write 0 bytes
  { s with
    szRecv
    pClient := { s.pClient with
      szMsgBuf := s.pClient.szMsgBuf.write s.pClient.lastPos.toNat (szRecv.read 0 bytes.length)
      lastPos := s.pClient.lastPos + bytes.length } }

/-- One pass of `while (pClient->getLastPos() >= sizeof(DataHeader))`. The comparison
is one of unsigned values. `none` is a copy from in front of `_szMsgBuf`. -/
def msgPass (s : Receiving) : Pass Receiving (Option Receiving) :=
  let pClient := s.pClient
  if 0 ≤ pClient.lastPos ∧ pClient.lastPos < DataHeader.sizeof then .leave (some s)
  else
    let header := DataHeader.load pClient.szMsgBuf
    if header.dataLength ≤ pClient.lastPos then
      let nSize := pClient.lastPos - header.dataLength
      if header.dataLength < 0 then .leave none
      else
        let netMsg := pClient.szMsgBuf.read 0 header.dataLength.toNat
        let rest := pClient.szMsgBuf.read header.dataLength.toNat nSize.toNat
        .again { s with
          netMsgs := s.netMsgs ++ [netMsg]
          pClient := { pClient with szMsgBuf := pClient.szMsgBuf.write 0 rest, lastPos := nSize } }
    else .leave (some s)

/-- How `RecvData` returns from its loop. -/
def recvLeave : Option Receiving → Outcome Receiving
  | none => .aborted
  | some s => .returned 0 s

/-- `RecvData(pClient)`, with a bound on the passes of its loop. -/
def recvData (answer : RecvAnswer) (fuel : Nat) (s : Receiving) : Option (Outcome Receiving) :=
  let bytes := answer.received s.pClient.sockfd recvBuffSize
  if bytes = [] then some (.returned (-1) s)
  else (Loop.run msgPass fuel (recvStart s bytes)).map recvLeave

/-! ## As an EasyTcpClient -/

/-- The client with the same buffers, which receives the same. -/
def asClient (s : Receiving) : EasyTcpClient where
  sock := s.pClient.sockfd
  isConnect := true
  szMsgBuf := s.pClient.szMsgBuf
  lastPos := s.pClient.lastPos
  szRecv := s.szRecv
  closesocket := []
  netMsgs := s.netMsgs

theorem msgPass_asClient (s : Receiving) :
    (asClient s).msgPass = Loop.mapPass asClient (Option.map asClient) (msgPass s) := by
  have hpos : (asClient s).lastPos = s.pClient.lastPos := rfl
  have hbuf : (asClient s).szMsgBuf = s.pClient.szMsgBuf := rfl
  unfold EasyTcpClient.msgPass msgPass
  simp only [hpos, hbuf]
  split
  next => rfl
  next =>
    -- the client tests for the rest, the server for the whole message
    by_cases hwhole : (DataHeader.load s.pClient.szMsgBuf).dataLength ≤ s.pClient.lastPos
    · have hrest : ¬ s.pClient.lastPos < (DataHeader.load s.pClient.szMsgBuf).dataLength :=
        Int.not_lt.mpr hwhole
      rw [if_neg hrest, if_pos hwhole]
      split
      next => rfl
      next => rfl
    · have hrest : s.pClient.lastPos < (DataHeader.load s.pClient.szMsgBuf).dataLength :=
        Int.not_le.mp hwhole
      rw [if_pos hrest, if_neg hwhole]
      rfl

/-- An outcome, seen as the client's. -/
def asOutcome : Outcome Receiving → Outcome EasyTcpClient
  | .aborted => .aborted
  | .returned value s => .returned value (asClient s)

theorem recvData_asClient (answer : RecvAnswer) (fuel : Nat) (s : Receiving) :
    (asClient s).recvData answer fuel = (recvData answer fuel s).map asOutcome := by
  have hsock : (asClient s).sock = s.pClient.sockfd := rfl
  unfold EasyTcpClient.recvData recvData
  simp only [hsock]
  split
  next => rfl
  next =>
    have hstart : (asClient s).recvStart (answer.received s.pClient.sockfd recvBuffSize) =
        asClient (recvStart s (answer.received s.pClient.sockfd recvBuffSize)) := rfl
    rw [hstart, Loop.run_map msgPass_asClient, Option.map_map, Option.map_map]
    congr 1
    funext result
    cases result <;> rfl

end CellServer

end EasyTcpServer

end SelectNet
