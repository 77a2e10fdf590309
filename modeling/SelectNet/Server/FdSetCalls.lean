import Mathlib.Data.Finset.Card
import SelectNet.CommonLib.SelectServerThread
import SelectNet.Server.Sweep

/-!
# The calls of FD_SET

Every descriptor that `OnRun`, `HandleThread` or `SendToKernelBuf` puts into a set,
with what the set holds by then. On Unix the set has one bit for each descriptor
below the system's `FD_SETSIZE`; on Windows it is an array of `FD_SETSIZE` sockets.
-/

namespace SelectNet

/-- A call of `FD_SET`. -/
structure FdSetCall where
  set : FdSet
  sock : Socket

/-- The system. The `FD_SETSIZE` of Unix is its own. -/
inductive Platform where
  | unix (fdSetSize : Nat)
  | windows

/-- The `FD_SETSIZE` that `SocketHeader.h` sets for Windows. -/
def windowsFdSetSize : Nat := 5000

/-- A descriptor has a bit in the sets of Unix. -/
def HasBit (fdSetSize : Nat) (sock : Socket) : Prop := 0 ≤ sock ∧ sock < fdSetSize

instance (fdSetSize : Nat) (sock : Socket) : Decidable (HasBit fdSetSize sock) :=
  inferInstanceAs (Decidable (_ ∧ _))

/-- The set has room for the descriptor. -/
def FdSetCall.Fits (call : FdSetCall) : Platform → Prop
  | .unix fdSetSize => HasBit fdSetSize call.sock
  | .windows => call.set.card < windowsFdSetSize

/-- The calls in the loop over the clients. -/
def Client.fdSetCalls : List Client → FdSet → List FdSetCall
  | [], _ => []
  | client :: clients, set => ⟨set, client.sock⟩ :: fdSetCalls clients (insert client.sock set)

/-! ## Sending -/

namespace Endpoint

variable {ρ : Type}

/-- The states in which the send loops, or what follows them, call
`SendToKernelBuf`. -/
inductive Attempts (close : Endpoint ρ → Endpoint ρ) (limit : Nat) (answers : Nat → SendAnswer)
    (s : Endpoint ρ) : Endpoint ρ → Prop where
  | full {t : Endpoint ρ} {calls : Nat}
      (hvisits : Loop.Visits (sendPass close limit answers) (s, 0) (t, calls))
      (hfull : t.ioSend.canWrite ≤ 0) : Attempts close limit answers s t
  | rest {t : Endpoint ρ} {calls : Nat}
      (hdrained : Loop.Yields (sendPass close limit answers) (s, 0) (some (.drained t calls)))
      (hrest : 0 < t.ioSend.canRead) : Attempts close limit answers s t

end Endpoint

/-- The states in which `SendToKernelBuf` is called in a client's turn. -/
def ClientSocket.Attempts {ω : Type} (handle : MsgHandle ω) (fuel : Nat) (readable : Bool)
    (answer : RecvAnswer) (answers : Nat → SendAnswer) (s t : ClientSocket ω) : Prop :=
  ∃ middle : ClientSocket ω, recvFails handle fuel readable answer s = some (false, middle) ∧
    middle.sock ≠ invalidSocket ∧
    Endpoint.Attempts ClientSocket.close serverSendQueueMaxAccumulateCount answers middle t

/-! ## SelectServer -/

namespace SelectServer

variable {σ : Type}

/-- The calls under `if (_clientChange)`. -/
def rebuildCalls (s : SelectServer σ) : List FdSetCall :=
  if s.clientChange then
    ⟨∅, s.serverSock⟩ :: Client.fdSetCalls (s.clientSockArr.map Member.client) {s.serverSock}
  else []

/-- The clients that a sweep comes to, with what their handlers find. -/
inductive SweepTurn (handle : ServerHandle σ) (fuel : Nat) (fdRead : FdSet)
    (turns : ClientId → ClientAnswers) :
    List Member → List Member → SelectServer σ → Member → Sweeping σ → Prop where
  | now {before after : List Member} {member : Member} {s : SelectServer σ} :
      SweepTurn handle fuel fdRead turns before (member :: after) s member
        ⟨s.world, before, after, s.broadcasts, member.pushed⟩
  | later {before after : List Member} {member other : Member} {s : SelectServer σ}
      {failed : Bool} {client : ClientSocket (Sweeping σ)} {world : Sweeping σ}
      (hturn : ClientSocket.turn (Sweeping.onMsgHandle handle member.pClient) fuel
        (decide (member.client.sock ∈ fdRead)) (turns member.pClient).recv
        (turns member.pClient).send
        (member.client.lend ⟨s.world, before, after, s.broadcasts, member.pushed⟩) =
        some (failed, client))
      (hlater : SweepTurn handle fuel fdRead turns
        (if failed then client.ext.world.before
          else client.ext.world.before ++ [member.resumed client])
        client.ext.world.after
        (if failed then
          { deleteClient { s with
              world := client.ext.world.own, broadcasts := client.ext.world.broadcasts }
            (member.resumed client) with clientChange := true }
          else { s with
            world := client.ext.world.own, broadcasts := client.ext.world.broadcasts })
        other world) :
      SweepTurn handle fuel fdRead turns before (member :: after) s other world

/-- The calls of `FD_SET` in a call of `OnRun`. -/
inductive FdSets (handle : ServerHandle σ) (fuel : Nat) (s : SelectServer σ) :
    Event σ → FdSetCall → Prop where
  | rebuild {answers : OnRunAnswers} {call : FdSetCall} (hopen : s.serverSock ≠ invalidSocket)
      (hcall : call ∈ s.rebuildCalls) : FdSets handle fuel s (.onRun answers) call
  | send {answers : OnRunAnswers} {fdRead : FdSet} {member : Member} {world : Sweeping σ}
      {t : ClientSocket (Sweeping σ)} (hopen : s.serverSock ≠ invalidSocket)
      (hselect : answers.select = some fdRead)
      (hturn : SweepTurn handle fuel (fdRead.erase s.serverSock) answers.turns []
        (s.joined fdRead answers.accept).clientSockArr (s.joined fdRead answers.accept)
          member world)
      (hattempt : ClientSocket.Attempts (Sweeping.onMsgHandle handle member.pClient) fuel
        (decide (member.client.sock ∈ fdRead.erase s.serverSock))
        (answers.turns member.pClient).recv (answers.turns member.pClient).send
        (member.client.lend world) t) : FdSets handle fuel s (.onRun answers) ⟨∅, t.sock⟩

end SelectServer

/-! ## SelectServer_Thread -/

namespace SelectClientHandle

variable {ω : Type}

/-- The calls under `if (_hasChangeClient)`. -/
def rebuildCalls (h : SelectClientHandle) : List FdSetCall :=
  if h.hasChangeClient then Client.fdSetCalls h.clientSockArr ∅ else []

/-- The clients that a sweep comes to, with their turns and the handler by then. -/
inductive SweepTurn (handle : MsgHandle ω) (fuel : Nat) (fdRead : FdSet)
    (turns : Nat → ClientTurn ω) :
    List Client → Nat → SelectClientHandle → Client → ClientTurn ω → SelectClientHandle → Prop where
  | now {client : Client} {rest : List Client} {count : Nat} {h : SelectClientHandle} :
      SweepTurn handle fuel fdRead turns (client :: rest) count h client (turns count) h
  | later {client other : Client} {rest : List Client} {count : Nat} {h last : SelectClientHandle}
      {failed : Bool} {s : ClientSocket ω} {turn : ClientTurn ω}
      (hturn : ClientSocket.turn handle fuel (decide (client.sock ∈ fdRead)) (turns count).recv
        (turns count).send (client.enter (turns count).world h.test) = some (failed, s))
      (hlater : SweepTurn handle fuel fdRead turns rest (count + 1)
        (if failed then deleteClient { h with test := Client.counters s h.test } (Client.leave s)
          else { h with test := Client.counters s h.test })
        other turn last) :
      SweepTurn handle fuel fdRead turns (client :: rest) count h other turn last

/-- The calls of `FD_SET` in a pass of `HandleThread`. -/
inductive FdSets (handle : MsgHandle ω) (fuel : Nat) (h : SelectClientHandle) :
    HandleLabel ω → FdSetCall → Prop where
  | rebuild {answer : PollAnswer ω} {call : FdSetCall} (hpoint : h.point = .poll)
      (hcall : call ∈ h.rebuildCalls) : FdSets handle fuel h (.poll answer) call
  | send {readable : Socket → Bool} {turns : Nat → ClientTurn ω} {client : Client}
      {turn : ClientTurn ω} {h' : SelectClientHandle} {t : ClientSocket ω}
      (hpoint : h.point = .poll)
      (hturn : SweepTurn handle fuel (h.rebuild.fdReadBackup.filter fun sock => readable sock)
        turns h.rebuild.clientSockArr 0 h.rebuild client turn h')
      (hattempt : ClientSocket.Attempts handle fuel
        (decide (client.sock ∈ h.rebuild.fdReadBackup.filter fun sock => readable sock)) turn.recv
        turn.send (client.enter turn.world h'.test) t) :
      FdSets handle fuel h (.poll (.ready readable turns)) ⟨∅, t.sock⟩

end SelectClientHandle

namespace SelectServerThread

variable {ω : Type}

/-- The calls of `FD_SET` in a step of the main thread or of a handler. -/
inductive FdSets (handle : MsgHandle ω) (fuel : Nat) (s : SelectServerThread) :
    ServerLabel ω → FdSetCall → Prop where
  | onRun {answer : AcceptAnswer} (hidle : s.point = .idle)
      (hopen : s.serverSock ≠ invalidSocket) :
      FdSets handle fuel s (.onRun answer) ⟨∅, s.serverSock⟩
  | handle {position : Nat} {label : HandleLabel ω} {h : SelectClientHandle} {call : FdSetCall}
      (hat : s.clientHandleArr[position]? = some h)
      (hcall : h.FdSets handle fuel label call) :
      FdSets handle fuel s (.handle position label) call

end SelectServerThread

end SelectNet
