import SelectNet.CommonLib.ClientTurn
import SelectNet.Foundation.Machine

/-!
# SelectServer

The server of one thread: it polls the listening socket and its clients, accepts,
and gives every client its turn. A message handler may answer the sender and call
`Broadcast` while the sweep stands at the sender. The counters that `OnRun` prints
are left out.
-/

namespace SelectNet

/-- A client by its address, as `IMsgSend*`. -/
abbrev ClientId : Type := Nat

/-- What `SendMsg` put into a client's queue, with the number of the broadcast it
was for, if any. -/
structure Sent where
  origin : Option Nat
  bytes : List Byte
  deriving DecidableEq

/-- An entry of `_clientSockArr`, with a record of what was sent to it. -/
structure Member where
  pClient : ClientId
  client : Client
  pushed : List Sent

namespace Member

def sendMsg (msg : Memory Byte) (origin : Option Nat) (member : Member) : Member :=
  let (value, client) := ClientSocket.sendMsg member.client msg
  { member with
    client
    pushed := if value = 0 then member.pushed ++ [⟨origin, Endpoint.msgBytes msg⟩]
      else member.pushed }

/-- The inside of `Broadcast`'s loop. -/
def broadcast (msg : Memory Byte) (exclude : ClientId → Bool) (number : Nat) (member : Member) :
    Member :=
  if exclude member.pClient then member else member.sendMsg msg (some number)

end Member

/-- What a message handler does: answer the sender, or call `Broadcast`. -/
inductive HandleAct where
  | reply (msg : Memory Byte)
  | broadcast (msg : Memory Byte) (exclude : ClientId → Bool)

/-- `OnMsgHandle` of a server: its new state and its acts, given the sender and
the message. -/
abbrev ServerHandle (σ : Type) : Type := σ → ClientId → Memory Byte → σ × List HandleAct

/-- What of an act goes to the sender of the message. -/
def HandleAct.toSender (sender : ClientId) : HandleAct → List (Memory Byte)
  | .reply msg => [msg]
  | .broadcast msg exclude => if exclude sender then [] else [msg]

/-- A server's handler as the receive loop of one of its clients sees it. -/
def ServerHandle.forSender {σ : Type} (handle : ServerHandle σ) (sender : ClientId) :
    MsgHandle σ :=
  fun own msg =>
    let (own, acts) := handle own sender msg
    (own, acts.flatMap (HandleAct.toSender sender))

/-- What the handler finds while the sweep stands at a client: the clients in
front of it and behind it, and the record of what was sent to it. `broadcasts`
are the messages that `Broadcast` was called with; their places number them. -/
structure Sweeping (σ : Type) where
  own : σ
  before : List Member
  after : List Member
  broadcasts : List (List Byte)
  pushed : List Sent

namespace Sweeping

variable {σ : Type}

/-- One act. What the sender is sent goes into its queue in the same order. -/
def act (sender : ClientId) : Sweeping σ × List (Memory Byte) → HandleAct →
    Sweeping σ × List (Memory Byte)
  | (sweep, replies), .reply msg =>
      ({ sweep with pushed := sweep.pushed ++ [⟨none, Endpoint.msgBytes msg⟩] }, replies ++ [msg])
  | (sweep, replies), .broadcast msg exclude =>
      let number := sweep.broadcasts.length
      let sweep := { sweep with
        before := sweep.before.map (Member.broadcast msg exclude number)
        after := sweep.after.map (Member.broadcast msg exclude number)
        broadcasts := sweep.broadcasts ++ [Endpoint.msgBytes msg] }
      if exclude sender then (sweep, replies)
      else
        ({ sweep with pushed := sweep.pushed ++ [⟨some number, Endpoint.msgBytes msg⟩] },
          replies ++ [msg])

/-- The handler as a client's receive loop calls it. -/
def onMsgHandle (handle : ServerHandle σ) (sender : ClientId) : MsgHandle (Sweeping σ) :=
  fun sweep msg =>
    let (own, acts) := handle sweep.own sender msg
    acts.foldl (act sender) ({ sweep with own }, [])

/-- To the sender the handler is what it is without the other clients. -/
theorem onMsgHandle_forSender (handle : ServerHandle σ) (sender : ClientId) (sweep : Sweeping σ)
    (msg : Memory Byte) :
    (onMsgHandle handle sender sweep msg).1.own = (handle.forSender sender sweep.own msg).1 ∧
      (onMsgHandle handle sender sweep msg).2 = (handle.forSender sender sweep.own msg).2 := by
  have hacts : ∀ (acts : List HandleAct) (state : Sweeping σ) (replies : List (Memory Byte)),
      (acts.foldl (act sender) (state, replies)).1.own = state.own ∧
        (acts.foldl (act sender) (state, replies)).2 =
          replies ++ acts.flatMap (HandleAct.toSender sender) := by
    intro acts
    induction acts with
    | nil => simp
    | cons first acts ih =>
        intro state replies
        cases first with
        | reply msg => simp [act, ih, HandleAct.toSender]
        | broadcast msg exclude =>
            by_cases hexclude : exclude sender = true
            · simp [act, ih, HandleAct.toSender, hexclude]
            · simp [act, ih, HandleAct.toSender, hexclude]
  have hall := hacts (handle sweep.own sender msg).2
    { sweep with own := (handle sweep.own sender msg).1 } []
  simpa [onMsgHandle, ServerHandle.forSender] using hall

end Sweeping

/-- What `accept` and `new` return for a new client. -/
structure NewClient where
  sock : Socket
  pClient : ClientId
  fresh : Fresh

/-- How the calls in a client's turn are answered. -/
structure ClientAnswers where
  recv : RecvAnswer
  send : Nat → SendAnswer

/-- How the calls in `OnRun` are answered: what `select` leaves in `fdRead`
(`none` when it fails), what `accept` returns, and each client's turn. -/
structure OnRunAnswers where
  select : Option FdSet
  accept : Option NewClient
  turns : ClientId → ClientAnswers

/-- The server. `departed` are the clients it has deleted, as their destructors
left them; `closesocket` records what was passed to `closesocket`. -/
structure SelectServer (σ : Type) where
  clientSockArr : List Member
  serverSock : Socket
  maxSock : Socket
  fdReadBackup : FdSet
  clientChange : Bool
  world : σ
  broadcasts : List (List Byte)
  departed : List Member
  closesocket : List Socket

/-- How `socket` and then `bind` answer `SelectServer`. -/
inductive ListenAnswer where
  | noSocket
  | refused (sock : Socket)
  | bound (sock : Socket)

namespace SelectServer

variable {σ : Type}

def new (world : σ) : SelectServer σ where
  clientSockArr := []
  serverSock := invalidSocket
  maxSock := invalidSocket
  fdReadBackup := ∅
  clientChange := true
  world
  broadcasts := []
  departed := []
  closesocket := []

/-- `delete` of a client: its destructor closes it. -/
def deleteClient (s : SelectServer σ) (member : Member) : SelectServer σ :=
  let client := ClientSocket.close member.client
  { s with
    departed := s.departed ++ [{ member with client }]
    closesocket := s.closesocket ++ client.closesocket }

def close (s : SelectServer σ) : SelectServer σ :=
  if s.serverSock ≠ invalidSocket then
    let s := { s.clientSockArr.foldl deleteClient s with clientSockArr := [] }
    { s with closesocket := s.closesocket ++ [s.serverSock], serverSock := invalidSocket }
  else s

def bind (answer : ListenAnswer) (s : SelectServer σ) : Int × SelectServer σ :=
  match answer with
  | .noSocket => (-1, { s with serverSock := invalidSocket })
  | .refused sock => (-1, close { s with serverSock := sock })
  | .bound sock => (0, { s with serverSock := sock })

def listen (success : Bool) (s : SelectServer σ) : Int × SelectServer σ :=
  if success then (0, s) else (-1, s.close)

/-- `if (_clientChange)`: the set made anew, and the maximum from the front
client on. Without clients the maximum stays what it was. -/
def rebuild (s : SelectServer σ) : SelectServer σ :=
  if s.clientChange then
    let maxSock := match s.clientSockArr with
      | [] => s.maxSock
      | front :: _ => front.client.sock
    let (fdReadBackup, maxSock) :=
      Client.pollSet (s.clientSockArr.map Member.client) {s.serverSock} maxSock
    { s with fdReadBackup, maxSock, clientChange := false }
  else s

/-- A readable listening socket: a new client, unless `accept` fails. -/
def accept (answer : Option NewClient) (s : SelectServer σ) : SelectServer σ :=
  match answer with
  | none => s
  | some new =>
      let client : Client := ClientSocket.new new.sock () new.fresh.sendBuf new.fresh.recvBuf
        new.fresh.package none
      { s with
        clientSockArr := s.clientSockArr ++ [⟨new.pClient, client, []⟩]
        clientChange := true }

/-- The sweep, between the clients that have had their turn and those from `it`
on. No client joins meanwhile, so the number of turns is known. -/
def sweep (handle : ServerHandle σ) (fuel : Nat) (fdRead : FdSet)
    (turns : ClientId → ClientAnswers) :
    Nat → List Member → List Member → SelectServer σ → Option (SelectServer σ)
  | count + 1, before, member :: after, s =>
      let world : Sweeping σ := ⟨s.world, before, after, s.broadcasts, member.pushed⟩
      match ClientSocket.turn (Sweeping.onMsgHandle handle member.pClient) fuel
          (decide (member.client.sock ∈ fdRead)) (turns member.pClient).recv
          (turns member.pClient).send (member.client.lend world) with
      | none => none
      | some (failed, client) =>
          let world := client.ext.world
          let s := { s with world := world.own, broadcasts := world.broadcasts }
          let member := { member with client := Client.leave client, pushed := world.pushed }
          if failed then
            sweep handle fuel fdRead turns count world.before world.after
              { s.deleteClient member with clientChange := true }
          else
            sweep handle fuel fdRead turns count (world.before ++ [member]) world.after s
  | _, before, after, s => some { s with clientSockArr := before ++ after }

/-- `OnRun`, with a bound on the passes of the clients' receive loops. -/
def onRun (handle : ServerHandle σ) (fuel : Nat) (answers : OnRunAnswers) (s : SelectServer σ) :
    Option (Int × SelectServer σ) :=
  if s.serverSock = invalidSocket then some (-1, s)
  else
    let s := s.rebuild
    match answers.select with
    | none => some (-1, s.close)
    | some fdRead =>
        let (fdRead, s) :=
          if s.serverSock ∈ fdRead then (fdRead.erase s.serverSock, s.accept answers.accept)
          else (fdRead, s)
        (s.sweep handle fuel fdRead answers.turns s.clientSockArr.length [] s.clientSockArr).map
          fun s => (0, s)

def broadcast (msg : Memory Byte) (exclude : ClientId → Bool) (s : SelectServer σ) :
    SelectServer σ :=
  if s.serverSock = invalidSocket then s
  else
    { s with
      clientSockArr := s.clientSockArr.map (Member.broadcast msg exclude s.broadcasts.length)
      broadcasts := s.broadcasts ++ [Endpoint.msgBytes msg] }

/-! ## Runs -/

/-- What can happen to a server: its calls, and its handler's state moving on
between them. -/
inductive Event (σ : Type) where
  | bind (answer : ListenAnswer)
  | listen (success : Bool)
  | onRun (answers : OnRunAnswers)
  | broadcast (msg : Memory Byte) (exclude : ClientId → Bool)
  | close
  | elsewhere (world : σ)

/-- What the system guarantees: descriptors are not negative, and a new client
lies where no other does. -/
def Possible (s : SelectServer σ) : Event σ → Prop
  | .bind (.refused sock) | .bind (.bound sock) => 0 ≤ sock
  | .onRun answers => ∀ new, answers.accept = some new →
      0 ≤ new.sock ∧ ∀ member ∈ s.clientSockArr, member.pClient ≠ new.pClient
  | _ => True

/-- A call that has returned. -/
def Moves (handle : ServerHandle σ) (s : SelectServer σ) (event : Event σ)
    (next : SelectServer σ) : Prop :=
  match event with
  | .bind answer => next = (bind answer s).2
  | .listen success => next = (listen success s).2
  | .onRun answers => ∃ fuel value, onRun handle fuel answers s = some (value, next)
  | .broadcast msg exclude => next = broadcast msg exclude s
  | .close => next = close s
  | .elsewhere world => next = { s with world }

def machine (handle : ServerHandle σ) : Machine (SelectServer σ) (Event σ) where
  initial s := ∃ world, s = new world
  step s event next := Possible s event ∧ Moves handle s event next

end SelectServer

end SelectNet
