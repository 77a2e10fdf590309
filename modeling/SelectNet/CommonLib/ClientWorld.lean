import SelectNet.CommonLib.ClientTurn

/-!
# Turns in different worlds

A client passes its handler's world on and never looks into it. So a turn in the
image of a world, with a handler that acts the same there, is the image of the
turn: the same calls, bytes, answers and failures.
-/

namespace SelectNet

/-- The same exit with the image of the receiver's state. -/
def RecvExit.map {τ τ' : Type} (f : τ → τ') : RecvExit τ → RecvExit τ'
  | .stopped oRecv t => .stopped oRecv (f t)
  | .tooLong t => .tooLong (f t)
  | .full t => .full (f t)

/-- The same outcome with the image of the state. -/
def Outcome.map {σ σ' : Type} (f : σ → σ') : Outcome σ → Outcome σ'
  | .aborted => .aborted
  | .returned value s => .returned value (f s)

namespace Endpoint

variable {ρ ρ' : Type} (f : ρ → ρ') {close : Endpoint ρ → Endpoint ρ}
  {close' : Endpoint ρ' → Endpoint ρ'}

/-- The endpoint with another class's members. -/
def mapExt (s : Endpoint ρ) : Endpoint ρ' := { s with ext := f s.ext }

theorem sendMsg_mapExt (s : Endpoint ρ) (msg : Memory Byte) :
    ((s.mapExt f).sendMsg msg).2 = (s.sendMsg msg).2.mapExt f := by
  by_cases hsock : s.sock = invalidSocket
  · rw [sendMsg, sendMsg, if_pos hsock, if_pos (show (s.mapExt f).sock = invalidSocket from hsock)]
  · have hopen : ¬ (s.mapExt f).sock = invalidSocket := hsock
    rw [sendMsg, sendMsg, if_neg hsock, if_neg hopen,
      sendData_of_open hsock, sendData_of_open hopen]
    rfl

theorem clearSendQueue_mapExt (s : Endpoint ρ) :
    (s.mapExt f).clearSendQueue = s.clearSendQueue.mapExt f :=
  List.foldl_hom (mapExt f) fun _ _ => rfl

theorem finishMsg_mapExt (s : Endpoint ρ) :
    (s.mapExt f).finishMsg = s.finishMsg.map (mapExt f) := by
  unfold finishMsg
  split
  next hsome =>
    rw [if_pos (show s.oMsg.buf.isSome = true from hsome)]
    simp only [count, mapExt]
    cases s.sendQueue.pop with
    | mk front queue =>
        cases front with
        | none => rfl
        | some entry => rfl
  next hnone =>
    rw [if_neg (show ¬ s.oMsg.buf.isSome = true from hnone)]
    rfl

/-- A pass over an endpoint with other members. -/
def mapExit : Option (SendExit ρ) → Option (SendExit ρ')
  | none => none
  | some (.ret value s) => some (.ret value (s.mapExt f))
  | some (.drained s calls) => some (.drained (s.mapExt f) calls)

def mapCalls (state : Endpoint ρ × Nat) : Endpoint ρ' × Nat := (state.1.mapExt f, state.2)

theorem loadMsg_mapExt (s : Endpoint ρ) (calls : Nat) :
    (s.mapExt f).loadMsg calls = Loop.mapPass (mapCalls f) (mapExit f) (s.loadMsg calls) := by
  by_cases hempty : s.sendQueue.hasData = false
  · rw [loadMsg, loadMsg, if_pos hempty,
      if_pos (show (s.mapExt f).sendQueue.hasData = false from hempty)]
    rfl
  · rw [loadMsg, loadMsg, if_neg hempty,
      if_neg (show ¬ (s.mapExt f).sendQueue.hasData = false from hempty)]
    have hfront : (s.mapExt f).sendQueue.front = s.sendQueue.front := rfl
    rw [hfront]
    cases s.sendQueue.front with
    | none => rfl
    | some entry => rfl

theorem copyMsg_mapExt (canWrite : Int) (s : Endpoint ρ) (calls : Nat) :
    (s.mapExt f).copyMsg canWrite calls =
      Loop.mapPass (mapCalls f) (mapExit f) (s.copyMsg canWrite calls) := by
  by_cases hdone : s.oMsg.canRead ≤ 0
  · simp only [copyMsg, if_pos hdone, if_pos (show (s.mapExt f).oMsg.canRead ≤ 0 from hdone),
      finishMsg_mapExt]
    cases s.finishMsg with
    | none => rfl
    | some next => exact loadMsg_mapExt f next calls
  · simp only [copyMsg, if_neg hdone, if_neg (show ¬ (s.mapExt f).oMsg.canRead ≤ 0 from hdone)]
    have hcopy : ∀ writeLen, (s.mapExt f).oMsg.readBytesInto (s.mapExt f).ioSend writeLen =
        s.oMsg.readBytesInto s.ioSend writeLen := fun _ => rfl
    have hread : (s.mapExt f).oMsg.canRead = s.oMsg.canRead := rfl
    rw [hcopy, hread]
    cases s.oMsg.readBytesInto s.ioSend
        (if s.oMsg.canRead < canWrite then s.oMsg.canRead else canWrite) with
    | none => rfl
    | some pair => rfl

section Close

variable (hclose : ∀ s, close' (s.mapExt f) = (close s).mapExt f)

include hclose

theorem sendToKernel_mapExt (answer : SendAnswer) (s : Endpoint ρ) :
    sendToKernel close' answer (s.mapExt f) =
      (sendToKernel close answer s).map fun (value, s) => (value, s.mapExt f) := by
  cases answer with
  | selectFailed => simp [sendToKernel, hclose]
  | notWritable => rfl
  | writable count =>
      let called (sent : Nat) : Endpoint ρ := { s with kernel := s.kernel ++ [⟨s.ioSend, sent⟩] }
      by_cases hnone : min count s.ioSend.canRead.toNat = 0
      · simp only [sendToKernel, if_pos hnone,
          if_pos (show min count (s.mapExt f).ioSend.canRead.toNat = 0 from hnone)]
        exact congrArg (fun s => some (-1, s)) (hclose (called _))
      · simp only [sendToKernel, if_neg hnone,
          if_neg (show ¬ min count (s.mapExt f).ioSend.canRead.toNat = 0 from hnone)]
        have hio : (s.mapExt f).ioSend = s.ioSend := rfl
        rw [hio]
        cases s.ioSend.moveReadPos (min count s.ioSend.canRead.toNat : Nat) with
        | none => rfl
        | some io => rfl

theorem sendPass_mapExt (limit : Nat) (answers : Nat → SendAnswer) (state : Endpoint ρ × Nat) :
    sendPass close' limit answers (mapCalls f state) =
      Loop.mapPass (mapCalls f) (mapExit f) (sendPass close limit answers state) := by
  obtain ⟨s, calls⟩ := state
  by_cases hfull : s.ioSend.canWrite ≤ 0
  · have hfull' : (s.mapExt f).ioSend.canWrite ≤ 0 := hfull
    simp only [mapCalls, sendPass, if_pos hfull, if_pos hfull', sendToKernel_mapExt f hclose]
    cases sendToKernel close (answers calls) s with
    | none => rfl
    | some result =>
        obtain ⟨value, next⟩ := result
        simp only [Option.map_some]
        by_cases hfailed : value < 0
        · simp only [if_pos hfailed]
          rfl
        · by_cases hbusy : value = 0
          · by_cases hlimit : (limit : Int) < next.sendQueue.size
            · simp only [if_neg hfailed, if_pos hbusy, if_pos hlimit, hclose,
                if_pos (show (limit : Int) < (next.mapExt f).sendQueue.size from hlimit)]
              rfl
            · simp only [if_neg hfailed, if_pos hbusy, if_neg hlimit,
                if_neg (show ¬ (limit : Int) < (next.mapExt f).sendQueue.size from hlimit)]
              rfl
          · simp only [if_neg hfailed, if_neg hbusy]
            exact copyMsg_mapExt f _ next _
  · have hroom : ¬ (s.mapExt f).ioSend.canWrite ≤ 0 := hfull
    have hpass : sendPass close limit answers (s, calls) = s.copyMsg s.ioSend.canWrite calls :=
      if_neg hfull
    have hpass' : sendPass close' limit answers (mapCalls f (s, calls)) =
        (s.mapExt f).copyMsg s.ioSend.canWrite calls := if_neg hroom
    rw [hpass, hpass', copyMsg_mapExt]

theorem flush_mapExt (limit : Nat) (answer : SendAnswer) (s : Endpoint ρ) :
    (s.mapExt f).flush close' limit answer =
      (s.flush close limit answer).map fun (value, s) => (value, s.mapExt f) := by
  by_cases hread : 0 < s.ioSend.canRead
  · simp only [flush, if_pos hread, if_pos (show 0 < (s.mapExt f).ioSend.canRead from hread),
      sendToKernel_mapExt f hclose]
    cases sendToKernel close answer s with
    | none => rfl
    | some result =>
        obtain ⟨value, next⟩ := result
        simp only [Option.map_some]
        by_cases hfailed : value < 0
        · simp only [if_pos hfailed]
          rfl
        · by_cases hlimit : value = 0 ∧ (limit : Int) < next.sendQueue.size
          · simp only [if_neg hfailed, if_pos hlimit, hclose,
              if_pos (show value = 0 ∧ (limit : Int) < (next.mapExt f).sendQueue.size from hlimit)]
            rfl
          · simp only [if_neg hfailed, if_neg hlimit,
              if_neg (show ¬ (value = 0 ∧ (limit : Int) < (next.mapExt f).sendQueue.size)
                from hlimit)]
            rfl
  · rw [flush, flush, if_neg hread, if_neg (show ¬ 0 < (s.mapExt f).ioSend.canRead from hread)]
    rfl

theorem runSend_mapExt (limit : Nat) (answers : Nat → SendAnswer) (s : Endpoint ρ) :
    (s.mapExt f).runSend close' limit answers =
      (s.runSend close limit answers).map fun (value, s) => (value, s.mapExt f) := by
  by_cases hsock : s.sock = invalidSocket
  · rw [runSend, runSend, if_pos hsock, if_pos (show (s.mapExt f).sock = invalidSocket from hsock)]
    rfl
  · have hrun : Loop.run (sendPass close' limit answers) s.sendFuel (s.mapExt f, 0) =
        (Loop.run (sendPass close limit answers) s.sendFuel (s, 0)).map (mapExit f) :=
      Loop.run_map (sendPass_mapExt f hclose limit answers) s.sendFuel (s, 0)
    rw [runSend, runSend, if_neg hsock,
      if_neg (show ¬ (s.mapExt f).sock = invalidSocket from hsock),
      show (s.mapExt f).sendFuel = s.sendFuel from rfl, hrun]
    cases Loop.run (sendPass close limit answers) s.sendFuel (s, 0) with
    | none => rfl
    | some exit =>
        cases exit with
        | none => rfl
        | some exit =>
            cases exit with
            | ret value s => rfl
            | drained s calls => exact flush_mapExt f hclose limit _ s

end Close

end Endpoint

namespace ClientSocket

variable {ω ω' : Type} (f : ω → ω') {handle : MsgHandle ω} {handle' : MsgHandle ω'}

/-- The client with the image of its handler's world. -/
def mapWorld (s : ClientSocket ω) : ClientSocket ω' :=
  s.mapExt fun side => ⟨f side.world, side.calls⟩

theorem close_mapWorld (s : ClientSocket ω) : close (s.mapWorld f) = (close s).mapWorld f := by
  by_cases hopen : s.sock ≠ invalidSocket
  · have hclear := Endpoint.clearSendQueue_mapExt
      (fun side : HandleSide ω => (⟨f side.world, side.calls⟩ : HandleSide ω')) s.shut
    rw [close, close, if_pos hopen, if_pos (show (s.mapWorld f).sock ≠ invalidSocket from hopen)]
    exact congrArg (Endpoint.clearBuffer · serverSendBufferSize) hclear
  · rw [close, close, if_neg hopen, if_neg (show ¬ (s.mapWorld f).sock ≠ invalidSocket from hopen)]

theorem processorSend_mapWorld (answers : Nat → SendAnswer) (s : ClientSocket ω) :
    processorSend answers (s.mapWorld f) =
      (processorSend answers s).map fun (value, s) => (value, s.mapWorld f) :=
  Endpoint.runSend_mapExt _ (close_mapWorld f) _ answers s

/-- The handler acts alike in a world and in its image. -/
def ActsAlike (handle : MsgHandle ω) (handle' : MsgHandle ω') : Prop :=
  ∀ world msg, handle' (f world) msg = (f (handle world msg).1, (handle world msg).2)

section Handle

variable (hhandle : ActsAlike f handle handle')

include hhandle

theorem onPackage_mapWorld (s : ClientSocket ω) (bytes : List Byte) :
    onPackage handle' (s.mapWorld f) bytes = (onPackage handle s bytes).mapWorld f := by
  let package := fillPackage s.package bytes
  let called (world : ω) : ClientSocket ω :=
    { s.count fun test => { test with msgTimes := test.msgTimes + 1 } with
      package
      ext := ⟨world, s.ext.calls ++ [package.read 0 packageMaxSize]⟩ }
  have hcalled := congrArg
    (fun result : ω' × List (Memory Byte) => result.2.foldl (fun s msg => (sendMsg s msg).2)
      { (called s.ext.world).mapWorld f with
        ext := ⟨result.1, s.ext.calls ++ [package.read 0 packageMaxSize]⟩ })
    (hhandle s.ext.world package)
  have hreplies : ∀ (replies : List (Memory Byte)) (t : ClientSocket ω),
      replies.foldl (fun s msg => (sendMsg s msg).2) (t.mapWorld f) =
        (replies.foldl (fun s msg => (sendMsg s msg).2) t).mapWorld f :=
    fun replies t => List.foldl_hom (mapWorld f) fun s msg => Endpoint.sendMsg_mapExt _ s msg
  exact hcalled.trans (hreplies (handle s.ext.world package).2
    (called (handle s.ext.world package).1))

theorem recvLoop_mapWorld (state : OBuffer (Memory Byte) × ClientSocket ω) :
    recvLoop handle' (state.1, state.2.mapWorld f) =
      Loop.mapPass (fun state => (state.1, state.2.mapWorld f))
        (Option.map (RecvExit.map (mapWorld f))) (recvLoop handle state) := by
  obtain ⟨oRecv, s⟩ := state
  simp only [recvLoop, recvPass]
  cases nextPackage oRecv with
  | none => rfl
  | some package =>
      cases package with
      | stop oRecv => rfl
      | tooLong => rfl
      | found msgLen oRecv =>
          simp only
          cases oRecv.readBytes msgLen with
          | none => rfl
          | some read =>
              simp only [onPackage_mapWorld f hhandle]
              rfl

theorem processorRecv_mapWorld (answer : RecvAnswer) (fuel : Nat) (s : ClientSocket ω) :
    processorRecv handle' answer fuel (s.mapWorld f) =
      (processorRecv handle answer fuel s).map (Outcome.map (mapWorld f)) := by
  by_cases hnone : answer.received s.sock (serverRecvBufferSize - s.retainSize) = []
  · rw [processorRecv_of_nothing handle hnone, processorRecv_of_nothing handle' hnone]
    exact congrArg (fun s : ClientSocket ω' => some (Outcome.returned (-1) s))
      (close_mapWorld f (countRecv s))
  · have hrun := Loop.run_map (recvLoop_mapWorld f hhandle) fuel
      (recvHead s (answer.received s.sock (serverRecvBufferSize - s.retainSize)))
    have hcall : processorRecv handle answer fuel s = _ := if_neg hnone
    have hcall' : processorRecv handle' answer fuel (s.mapWorld f) = _ := if_neg hnone
    rw [hcall, hcall', Option.map_map]
    refine (congrArg (Option.map recvLeave) hrun).trans ?_
    rw [Option.map_map]
    congr 1
    funext exit
    cases exit with
    | none => rfl
    | some exit =>
        cases exit with
        | tooLong s => exact congrArg (Outcome.returned (-1)) (close_mapWorld f s)
        | full s => exact congrArg (Outcome.returned (-1)) (close_mapWorld f s)
        | stopped oRecv s => rfl

/-- The turn in the image of a world is the image of the turn. -/
theorem turn_mapWorld (fuel : Nat) (readable : Bool) (answer : RecvAnswer)
    (answers : Nat → SendAnswer) (s : ClientSocket ω) :
    turn handle' fuel readable answer answers (s.mapWorld f) =
      (turn handle fuel readable answer answers s).map fun (failed, s) =>
        (failed, s.mapWorld f) := by
  have hrecv : recvFails handle' fuel readable answer (s.mapWorld f) =
      (recvFails handle fuel readable answer s).map fun (failed, s) => (failed, s.mapWorld f) := by
    cases readable with
    | false => rfl
    | true =>
        simp only [recvFails, if_true, processorRecv_mapWorld f hhandle]
        cases processorRecv handle answer fuel s with
        | none => rfl
        | some outcome => cases outcome <;> rfl
  simp only [turn, hrecv]
  cases recvFails handle fuel readable answer s with
  | none => rfl
  | some result =>
      obtain ⟨failed, s⟩ := result
      cases failed with
      | true => rfl
      | false =>
          simp only [Option.map_some, processorSend_mapWorld, Option.map_map]
          rfl

end Handle

end ClientSocket

end SelectNet
