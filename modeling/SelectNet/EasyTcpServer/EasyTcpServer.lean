import SelectNet.EasyTcpServer.CellServer
import SelectNet.Foundation.Lifetimes

/-!
# EasyTcpServer

The header-only server accepts clients and gives them to its `CellServer`s, each
of which serves its clients in a thread of its own. The steps are the calls of the
main thread and the accesses of a `CellServer` to what it shares with it. What the
main thread and the `CellServer`s open and close goes into one record. The counters
that are printed are left out.
-/

namespace SelectNet

/-- What a descriptor was opened for. -/
inductive SocketKind where
  | listening
  | accepted
  deriving DecidableEq, Repr

abbrev SocketEvent : Type := Lifetimes.Event SocketKind Socket

namespace EasyTcpServer

/-- Where the thread of a `CellServer` stands between its steps. -/
inductive CellPoint where
  | take
  | poll
  | stopped
  deriving DecidableEq, Repr

structure CellServer where
  sock : Socket
  clients : List ClientSocket
  clientsBuff : List ClientSocket
  szRecv : Memory Byte
  point : CellPoint

/-- How `select` answers a `CellServer`, and then `recv` for the client at each
position. -/
inductive CellAnswer where
  | failed
  | ready (readable : Socket → Bool) (recv : Nat → RecvAnswer)

/-- A step of the thread of a `CellServer`. -/
inductive CellLabel where
  | take
  | poll (answer : CellAnswer)

namespace CellServer

def new (sock : Socket) : CellServer where
  sock
  clients := []
  clientsBuff := []
  szRecv := fun _ => 0
  point := .take

/-- `Close`, with the descriptors it passes to `close`. `_sock` stays what it is. -/
def close (s : CellServer) : List Socket × CellServer :=
  if s.sock ≠ invalidSocket then
    ((s.clients.map ClientSocket.sockfd).reverse ++ [s.sock], { s with clients := [] })
  else ([], s)

def isRun (s : CellServer) : Bool := decide (s.sock ≠ invalidSocket)

def addClient (pClient : ClientSocket) (s : CellServer) : CellServer :=
  { s with clientsBuff := s.clientsBuff ++ [pClient] }

/-- The clients in the buffer are moved to those that are served. -/
def takeClients (s : CellServer) : CellServer :=
  if 0 < s.clientsBuff.length then
    { s with clients := s.clients ++ s.clientsBuff, clientsBuff := [] }
  else s

/-- What `select` leaves in `fdRead`, the set of the clients' descriptors. -/
def fdRead (s : CellServer) (readable : Socket → Bool) : List Socket :=
  (s.clients.map ClientSocket.sockfd).reverse.filter readable

/-- The sweep over the positions below a bound, from the last one down. It is
`none` while a `RecvData` has not returned. -/
def sweep (fdRead : List Socket) (recv : Nat → RecvAnswer) (fuel : Nat) :
    Nat → CellServer → Option CellServer
  | 0, s => some s
  | n + 1, s =>
      match s.clients[n]? with
      | none => none
      | some pClient =>
          if pClient.sockfd ∈ fdRead then
            match recvData (recv n) fuel ⟨pClient, s.szRecv, []⟩ with
            | some (.returned value r) =>
                if value = -1 then
                  sweep fdRead recv fuel n
                    { s with szRecv := r.szRecv, clients := s.clients.eraseIdx n }
                else
                  sweep fdRead recv fuel n
                    { s with szRecv := r.szRecv, clients := s.clients.set n r.pClient }
            | _ => none
          else sweep fdRead recv fuel n s

/-- A pass of `OnRun` behind the buffer, with the descriptors it closes. -/
def poll (fuel : Nat) (answer : CellAnswer) (s : CellServer) : Option (List Socket × CellServer) :=
  if s.clients.isEmpty then some ([], { s with point := .take })
  else match answer with
    | .failed => some (s.close.1, { s.close.2 with point := .stopped })
    | .ready readable recv =>
        (s.sweep (s.fdRead readable) recv fuel s.clients.length).map fun s =>
          ([], { s with point := .take })

/-- A step of `OnRun`. -/
def step (fuel : Nat) (label : CellLabel) (s : CellServer) : Option (List Socket × CellServer) :=
  match s.point, label with
  | .take, .take =>
      if s.isRun then some ([], { s.takeClients with point := .poll })
      else some ([], { s with point := .stopped })
  | .poll, .poll answer => s.poll fuel answer
  | _, _ => none

end CellServer

/-- What `getClientCount` returns for `pMinServer` and for the `CellServer` it is
compared with, at each pass of the search, while the threads go on. -/
structure Counts where
  pMinServer : Nat → Nat
  pCellServer : Nat → Nat

/-- How `select` and `accept` answer `OnRun`, and what it then reads. -/
inductive OnRunAnswer where
  | selectFailed
  | nothing
  | invalid
  | client (cSock : Socket) (counts : Counts)

/-- A call of the main thread, or a step of the `CellServer` at a position. -/
inductive Label where
  | initSocket (answer : Option Socket)
  | start (nCellServer : Int)
  | onRun (answer : OnRunAnswer)
  | close
  | cell (position : Nat) (label : CellLabel)

end EasyTcpServer

/-- The server. `sockets` records what it and its `CellServer`s have opened and
closed. -/
structure EasyTcpServer where
  sock : Socket
  cellServers : List EasyTcpServer.CellServer
  sockets : List SocketEvent

namespace EasyTcpServer

def new : EasyTcpServer where
  sock := invalidSocket
  cellServers := []
  sockets := []

/-- What is passed to `close`, in this order. -/
def closesocket (socks : List Socket) (s : EasyTcpServer) : EasyTcpServer :=
  { s with sockets := s.sockets ++ socks.map .released }

/-- `Close`. `_sock` stays what it is. -/
def close (s : EasyTcpServer) : EasyTcpServer :=
  if s.sock ≠ invalidSocket then s.closesocket [s.sock] else s

/-- `InitSocket`, given what `socket` returns. -/
def initSocket (answer : Option Socket) (s : EasyTcpServer) : EasyTcpServer :=
  match answer with
  | none => { s.close with sock := invalidSocket }
  | some sock =>
      { s.close with sock, sockets := s.close.sockets ++ [.acquired .listening sock] }

/-- `Start`: `nCellServer` new `CellServer`s, all with the server's `_sock`. -/
def start (nCellServer : Int) (s : EasyTcpServer) : EasyTcpServer :=
  { s with
    cellServers := s.cellServers ++ List.replicate nCellServer.toNat (CellServer.new s.sock) }

/-- The search for the `CellServer` with the fewest clients. -/
def findMinServer (counts : Counts) (count : Nat) : Nat :=
  (List.range count).foldl
    (fun pMinServer n => if counts.pMinServer n > counts.pCellServer n then n else pMinServer) 0

/-- `addClientToCellServer`, undefined without `CellServer`s. -/
def addClientToCellServer (pClient : ClientSocket) (counts : Counts) (s : EasyTcpServer) :
    Option EasyTcpServer :=
  let position := findMinServer counts s.cellServers.length
  (s.cellServers[position]?).map fun cell =>
    { s with cellServers := s.cellServers.set position (cell.addClient pClient) }

/-- `Accept` of a client. -/
def accept (cSock : Socket) (counts : Counts) (s : EasyTcpServer) : Option EasyTcpServer :=
  addClientToCellServer (.new cSock) counts
    { s with sockets := s.sockets ++ [.acquired .accepted cSock] }

def isRun (s : EasyTcpServer) : Bool := decide (s.sock ≠ invalidSocket)

def onRun (answer : OnRunAnswer) (s : EasyTcpServer) : Option EasyTcpServer :=
  if s.isRun then
    match answer with
    | .selectFailed => some s.close
    | .nothing | .invalid => some s
    | .client cSock counts => s.accept cSock counts
  else some s

/-- A step of the `CellServer` at a position. -/
def cellStep (fuel position : Nat) (label : CellLabel) (s : EasyTcpServer) :
    Option EasyTcpServer :=
  match s.cellServers[position]? with
  | none => none
  | some cell =>
      (cell.step fuel label).map fun (closed, cell) =>
        { s.closesocket closed with cellServers := s.cellServers.set position cell }

def step (fuel : Nat) (label : Label) (s : EasyTcpServer) : Option EasyTcpServer :=
  match label with
  | .initSocket answer => some (s.initSocket answer)
  | .start nCellServer => some (s.start nCellServer)
  | .onRun answer => s.onRun answer
  | .close => some s.close
  | .cell position label => s.cellStep fuel position label

/-- What the system guarantees of a new descriptor: it is not negative, and not
open. -/
def Possible (s : EasyTcpServer) : Label → Prop
  | .initSocket (some sock) => 0 ≤ sock ∧ sock ∉ Lifetimes.ids s.close.sockets
  | .onRun (.client cSock _) => 0 ≤ cSock ∧ cSock ∉ Lifetimes.ids s.sockets
  | _ => True

def machine : Machine EasyTcpServer Label where
  initial s := s = new
  step s label next := Possible s label ∧ ∃ fuel, step fuel label s = some next

/-- The descriptors of the clients of a `CellServer`, in the buffer or not. -/
def CellServer.held (s : CellServer) : List Socket :=
  (s.clientsBuff ++ s.clients).map ClientSocket.sockfd

/-- The descriptors of all clients. -/
def held (s : EasyTcpServer) : List Socket :=
  s.cellServers.flatMap CellServer.held

end EasyTcpServer

end SelectNet
