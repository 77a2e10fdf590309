import Mathlib.Data.Finset.Union
import SelectNet.CommonLib.ClientSocket

/-!
# A client's turn

What `SelectServer` and `SelectClientHandle` do with a client in the same words:
put its descriptor into the set to poll, and give it its turn in the sweep. The
handler's world and the counters behind the `_test...` pointers belong to the
server and are lent to the client for its turn.
-/

namespace SelectNet

/-- `fd_set`, as the descriptors whose bits are set. -/
abbrev FdSet : Type := Finset Socket

/-- A client as its server keeps it, without the handler's world. -/
abbrev Client : Type := ClientSocket Unit

/-- What the arrays of a new object happen to hold. -/
structure Fresh where
  sendBuf : Memory Byte
  recvBuf : Memory Byte
  package : Memory Byte

def TestCounters.zero : TestCounters := ⟨0, 0, 0, 0, 0⟩

namespace Client

/-- `new ClientSocket(...)`, and the pointers to the counters set. -/
def new (sock : Socket) (fresh : Fresh) (test : TestCounters) : Client :=
  ClientSocket.new sock () fresh.sendBuf fresh.recvBuf fresh.package (some test)

/-- The client with the world that its handler finds. -/
def lend {ω : Type} (client : Client) (world : ω) : ClientSocket ω :=
  { client with ext := ⟨world, client.ext.calls⟩ }

/-- The client with the world and the counters that its server lends it. -/
def enter {ω : Type} (client : Client) (world : ω) (test : TestCounters) : ClientSocket ω :=
  { client.lend world with test := some test }

/-- The client without what it was lent. -/
def leave {ω : Type} (s : ClientSocket ω) : Client := { s with ext := ⟨(), s.ext.calls⟩ }

/-- The counters as a client gives them back. -/
def counters {ω : Type} (s : ClientSocket ω) (test : TestCounters) : TestCounters :=
  s.test.getD test

/-- The loop that puts the clients' descriptors into the set and keeps the
greatest. -/
def pollSet (clients : List Client) (set : FdSet) (maxSock : Socket) : FdSet × Socket :=
  clients.foldl
    (fun (set, maxSock) client =>
      (insert client.sock set, if maxSock < client.sock then client.sock else maxSock))
    (set, maxSock)

end Client

namespace ClientSocket

variable {ω : Type}

/-- `FD_ISSET(...) && ProcessorRecv() == -1`. -/
def recvFails (handle : MsgHandle ω) (fuel : Nat) (readable : Bool) (answer : RecvAnswer)
    (s : ClientSocket ω) : Option (Bool × ClientSocket ω) :=
  if readable then
    match processorRecv handle answer fuel s with
    | some (.returned value s) => some (decide (value = -1), s)
    | _ => none
  else some (false, s)

/-- The condition on which the sweep removes a client. It is `none` while a
receive loop has not ended. -/
def turn (handle : MsgHandle ω) (fuel : Nat) (readable : Bool) (answer : RecvAnswer)
    (answers : Nat → SendAnswer) (s : ClientSocket ω) : Option (Bool × ClientSocket ω) :=
  match recvFails handle fuel readable answer s with
  | none => none
  | some (true, s) => some (true, s)
  | some (false, s) => (processorSend answers s).map fun (value, s) => (decide (value = -1), s)

/-- More passes never change how a turn ends. -/
theorem turn_mono {handle : MsgHandle ω} {fuel more : Nat} {readable : Bool} {answer : RecvAnswer}
    {answers : Nat → SendAnswer} {s : ClientSocket ω} {result : Bool × ClientSocket ω}
    (hturn : turn handle fuel readable answer answers s = some result) (hle : fuel ≤ more) :
    turn handle more readable answer answers s = some result := by
  have hcall : ∀ outcome, processorRecv handle answer fuel s = some outcome →
      processorRecv handle answer more s = some outcome := by
    intro outcome hcall
    by_cases hnone : answer.received s.sock (serverRecvBufferSize - s.retainSize) = []
    · rwa [processorRecv_of_nothing handle hnone] at hcall ⊢
    · obtain ⟨exit, hrun, hexit⟩ := Option.map_eq_some_iff.mp ((if_neg hnone).symm.trans hcall)
      exact (if_neg hnone).trans (Option.map_eq_some_iff.mpr ⟨exit, Loop.run_mono hrun hle, hexit⟩)
  have hrecv : ∀ result, recvFails handle fuel readable answer s = some result →
      recvFails handle more readable answer s = some result := by
    intro result hrecv
    cases readable with
    | false => exact hrecv
    | true =>
        simp only [recvFails, if_true] at hrecv ⊢
        split at hrecv
        next value last hreturned => rwa [hcall _ hreturned]
        next => cases hrecv
  simp only [turn] at hturn ⊢
  split at hturn
  next => cases hturn
  next last hfails => rwa [hrecv _ hfails]
  next last hgoes => rwa [hrecv _ hgoes]

/-! ## Where a turn leaves the descriptor -/

/-- A call keeps the descriptor open, or fails and has closed it. -/
inductive Settles (s : ClientSocket ω) : Bool → ClientSocket ω → Prop where
  | kept {next : ClientSocket ω} (hsock : next.sock = s.sock)
      (hclose : next.closesocket = s.closesocket) : Settles s false next
  | closed {next : ClientSocket ω} (hsock : next.sock = invalidSocket)
      (hclose : next.closesocket = s.closesocket ++ [s.sock]) : Settles s true next

variable {s middle next : ClientSocket ω} {handle : MsgHandle ω} {failed : Bool}

theorem Settles.close (hinv : s.SendInv) (hopen : middle.sock ≠ invalidSocket)
    (hsock : s.sock = middle.sock) (hclose : s.closesocket = middle.closesocket) :
    Settles middle true (close s) := by
  obtain ⟨hclosed, _, _⟩ := close_spec hinv
  apply Settles.closed hclosed.sock
  rw [hclosed.closesocket, hsock, hclose, if_neg hopen]

theorem Settles.after (hfirst : Settles s false middle) (hsecond : Settles middle failed next) :
    Settles s failed next := by
  cases hfirst with
  | kept hsock hclose =>
      cases hsecond with
      | kept hsock' hclose' => exact .kept (hsock'.trans hsock) (hclose'.trans hclose)
      | closed hsock' hclose' =>
          apply Settles.closed hsock'
          rw [hclose', hclose, hsock]

/-- The packages of a call, one after the other. -/
theorem taken_invariant {holds : ClientSocket ω → Prop}
    (hquiet : ∀ t next : ClientSocket ω, t.SameSend next → next.sock = t.sock →
      next.ext = t.ext → holds t → holds next)
    (hpackage : ∀ (t : ClientSocket ω) (bytes : List Byte), t.SendInv →
      bytes.length ≤ packageMaxSize → holds t → holds (onPackage handle t bytes))
    (hinv : s.SendInv) (hstart : holds s) (bytes stream : List Byte) :
    (taken handle s bytes stream).SendInv ∧ holds (taken handle s bytes stream) := by
  have hframes : ∀ (frames : List (List Byte)) (t : ClientSocket ω), t.SendInv → holds t →
      (∀ frame ∈ frames, frame.length ≤ packageMaxSize) →
      (frames.foldl (onPackage handle) t).SendInv ∧ holds (frames.foldl (onPackage handle) t) := by
    intro frames
    induction frames with
    | nil => exact fun t ht hheld _ => ⟨ht, hheld⟩
    | cons frame frames ih =>
        intro t ht hheld hlen
        rw [List.forall_mem_cons] at hlen
        obtain ⟨_, _, _, _, hnext, _⟩ := onPackage_spec handle ht hlen.1
        exact ih _ hnext (hpackage t frame ht hlen.1 hheld) hlen.2
  have hsame : Endpoint.SameSend s (recvHead s bytes).2 := ⟨rfl, rfl, rfl, rfl⟩
  exact hframes _ _ (hsame.inv hinv) (hquiet _ _ hsame rfl rfl hstart)
    fun frame hframe => length_le_of_mem_frames hframe

theorem processorRecv_settles (hinv : Inv s) (hopen : s.sock ≠ invalidSocket)
    {answer : RecvAnswer} {value : Int} (hreturns : Returns handle answer s value next) :
    Settles s (decide (value = -1)) next := by
  obtain ⟨rest, hretained⟩ := hinv.recv
  obtain ⟨hsock, hclose, _, hsend, _⟩ := taken_spec handle hinv.send
    (answer.received s.sock (serverRecvBufferSize - s.retainSize))
    (rest ++ answer.received s.sock (serverRecvBufferSize - s.retainSize))
  rcases hreturns.cases hretained with
    ⟨rfl, rfl⟩ | ⟨oRecv, left, rfl, rfl, _⟩ | ⟨rfl, rfl⟩
  · have hquiet : Endpoint.SameSend s (countRecv s) := ⟨rfl, rfl, rfl, rfl⟩
    exact Settles.close (hquiet.inv hinv.send) hopen rfl rfl
  · exact .kept hsock hclose
  · exact Settles.close hsend hopen hsock hclose

theorem processorSend_settles (hinv : Inv s) (hopen : s.sock ≠ invalidSocket)
    {answers : Nat → SendAnswer} {value : Int}
    (hsend : processorSend answers s = some (value, next)) :
    Settles s (decide (value = -1)) next := by
  obtain ⟨_, t, hrun, hreturns⟩ := Endpoint.runSend_spec ClientSocket.close
    serverSendQueueMaxAccumulateCount answers hinv.send hopen
  cases hrun.symm.trans hsend
  rcases hreturns with ⟨rfl, hkept⟩ | ⟨rfl, last, hkept, rfl⟩
  · exact .kept hkept.same.sock hkept.same.closesocket
  · exact Settles.close hkept.inv hopen hkept.same.sock hkept.same.closesocket

theorem recvFails_spec (hinv : Inv s) (hopen : s.sock ≠ invalidSocket) {fuel : Nat}
    {readable : Bool} {answer : RecvAnswer}
    (hrecv : recvFails handle fuel readable answer s = some (failed, next)) :
    Inv next ∧ Settles s failed next := by
  simp only [recvFails] at hrecv
  split at hrecv
  · split at hrecv
    next value middle hcall =>
      cases hrecv
      have hreturns : Returns handle answer s value next := ⟨fuel, hcall⟩
      exact ⟨hinv.processorRecv hreturns, processorRecv_settles hinv hopen hreturns⟩
    next => cases hrecv
  · cases hrecv
    exact ⟨hinv, .kept rfl rfl⟩

/-- After its turn a client is as open as before, or has failed and is closed. -/
theorem turn_spec (hinv : Inv s) (hopen : s.sock ≠ invalidSocket) {fuel : Nat} {readable : Bool}
    {answer : RecvAnswer} {answers : Nat → SendAnswer}
    (hturn : turn handle fuel readable answer answers s = some (failed, next)) :
    Inv next ∧ Settles s failed next := by
  simp only [turn] at hturn
  split at hturn
  next => cases hturn
  next middle hrecv =>
    cases hturn
    exact recvFails_spec hinv hopen hrecv
  next middle hrecv =>
    obtain ⟨hmiddle, hkept⟩ := recvFails_spec hinv hopen hrecv
    obtain ⟨⟨value, last⟩, hsend, hresult⟩ := Option.map_eq_some_iff.mp hturn
    cases hresult
    have hstill : middle.sock ≠ invalidSocket := by
      cases hkept with
      | kept hsock _ => rwa [hsock]
    exact ⟨hmiddle.processorSend hsend, hkept.after (processorSend_settles hmiddle hstill hsend)⟩

/-- What the bookkeeping of a call and the handing over of packages keep holds
of a client when `ProcessorRecv` returns, or when it comes to close it. -/
theorem processorRecv_invariant {holds : ClientSocket ω → Prop}
    (hquiet : ∀ t next : ClientSocket ω, t.SameSend next → next.sock = t.sock →
      next.ext = t.ext → holds t → holds next)
    (hpackage : ∀ (t : ClientSocket ω) (bytes : List Byte), t.SendInv →
      bytes.length ≤ packageMaxSize → holds t → holds (onPackage handle t bytes))
    (hinv : Inv s) (hstart : holds s) {answer : RecvAnswer} {value : Int}
    (hreturns : Returns handle answer s value next) :
    ∃ last : ClientSocket ω, last.SendInv ∧ holds last ∧
      next = if decide (value = -1) then close last else last := by
  obtain ⟨rest, hretained⟩ := hinv.recv
  have hheld := taken_invariant hquiet hpackage hinv.send hstart
    (answer.received s.sock (serverRecvBufferSize - s.retainSize))
    (rest ++ answer.received s.sock (serverRecvBufferSize - s.retainSize))
  rcases hreturns.cases hretained with
    ⟨rfl, rfl⟩ | ⟨oRecv, left, rfl, rfl, _⟩ | ⟨rfl, rfl⟩
  · have hsame : Endpoint.SameSend s (countRecv s) := ⟨rfl, rfl, rfl, rfl⟩
    exact ⟨countRecv s, hsame.inv hinv.send, hquiet _ _ hsame rfl rfl hstart, rfl⟩
  · have hsame := Endpoint.SameSend.recvStop (taken handle s
      (answer.received s.sock (serverRecvBufferSize - s.retainSize))
      (rest ++ answer.received s.sock (serverRecvBufferSize - s.retainSize))) oRecv
    exact ⟨_, hsame.inv hheld.1, hquiet _ _ hsame rfl rfl hheld.2, rfl⟩
  · exact ⟨_, hheld.1, hheld.2, rfl⟩

/-- What also the send loops keep holds of a client when its turn is over; one
that fails is closed on top of that. -/
theorem turn_invariant {holds : ClientSocket ω → Prop}
    (hquiet : ∀ t next : ClientSocket ω, t.SameSend next → next.sock = t.sock →
      next.ext = t.ext → holds t → holds next)
    (hpackage : ∀ (t : ClientSocket ω) (bytes : List Byte), t.SendInv →
      bytes.length ≤ packageMaxSize → holds t → holds (onPackage handle t bytes))
    (hkept : ∀ t next : ClientSocket ω, Endpoint.Kept t next → holds t → holds next)
    (hinv : Inv s) (hopen : s.sock ≠ invalidSocket) (hstart : holds s) {fuel : Nat}
    {readable : Bool} {answer : RecvAnswer} {answers : Nat → SendAnswer}
    (hturn : turn handle fuel readable answer answers s = some (failed, next)) :
    ∃ last : ClientSocket ω, last.SendInv ∧ holds last ∧
      next = if failed then close last else last := by
  have hrecv : ∀ failed middle, recvFails handle fuel readable answer s = some (failed, middle) →
      ∃ last : ClientSocket ω, last.SendInv ∧ holds last ∧
        middle = if failed then close last else last := by
    intro failed middle hrecv
    simp only [recvFails] at hrecv
    split at hrecv
    · split at hrecv
      next value _ hcall =>
        cases hrecv
        exact processorRecv_invariant hquiet hpackage hinv hstart ⟨fuel, hcall⟩
      next => cases hrecv
    · cases hrecv
      exact ⟨s, hinv.send, hstart, rfl⟩
  -- a failed receive ends the turn, otherwise the send loops follow
  simp only [turn] at hturn
  split at hturn
  next => cases hturn
  next middle hfails =>
    cases hturn
    exact hrecv true _ hfails
  next middle hgoes =>
    obtain ⟨hmiddle, hsettled⟩ := recvFails_spec hinv hopen hgoes
    obtain ⟨_, _, hheld, rfl⟩ := hrecv false _ hgoes
    obtain ⟨⟨value, last⟩, hsend, hresult⟩ := Option.map_eq_some_iff.mp hturn
    cases hresult
    have hstill : middle.sock ≠ invalidSocket := by
      cases hsettled with
      | kept hsock _ => rwa [hsock]
    obtain ⟨_, t, hrun, hreturns⟩ := Endpoint.runSend_spec ClientSocket.close
      serverSendQueueMaxAccumulateCount answers hmiddle.send hstill
    cases hrun.symm.trans hsend
    rcases hreturns with ⟨rfl, hlast⟩ | ⟨rfl, t, hlast, rfl⟩
    · exact ⟨_, hlast.inv, hkept _ _ hlast hheld, rfl⟩
    · exact ⟨t, hlast.inv, hkept _ _ hlast hheld, rfl⟩

/-- Deleting a client passes its descriptor to `closesocket`, unless its turn
has. -/
theorem Settles.deleted (hsettles : Settles s true next) :
    (ClientSocket.close next).closesocket = s.closesocket ++ [s.sock] := by
  cases hsettles with
  | closed hsock hclose =>
      rw [ClientSocket.close, if_neg (not_not.mpr hsock)]
      exact hclose

end ClientSocket

/-! ## Clients between their turns -/

/-- A client that a server may give a turn to. -/
structure Client.Open (client : Client) : Prop where
  inv : ClientSocket.Inv client
  sock : client.sock ≠ invalidSocket
  closesocket : client.closesocket = []

namespace Client

variable {ω : Type} {client : Client}

theorem lend_inv (hinv : ClientSocket.Inv client) (world : ω) :
    ClientSocket.Inv (client.lend world) := by
  obtain ⟨⟨hvalid, hend, hfront, hmsg, hloaded, hcounted, hsized, hcalls⟩, hrecv⟩ := hinv
  exact ⟨⟨hvalid, hend, hfront, hmsg, hloaded, hcounted, hsized, hcalls⟩, hrecv⟩

theorem enter_inv (hinv : ClientSocket.Inv client) (world : ω) (test : TestCounters) :
    ClientSocket.Inv (client.enter world test) := by
  obtain ⟨⟨hvalid, hend, hfront, hmsg, hloaded, hcounted, hsized, hcalls⟩, hrecv⟩ := hinv
  exact ⟨⟨hvalid, hend, hfront, hmsg, hloaded, hcounted, hsized, hcalls⟩, hrecv⟩

theorem leave_inv {s : ClientSocket ω} (hinv : ClientSocket.Inv s) :
    ClientSocket.Inv (leave s) := by
  obtain ⟨⟨hvalid, hend, hfront, hmsg, hloaded, hcounted, hsized, hcalls⟩, hrecv⟩ := hinv
  exact ⟨⟨hvalid, hend, hfront, hmsg, hloaded, hcounted, hsized, hcalls⟩, hrecv⟩

end Client

/-! ## The descriptors to poll -/

namespace Client

theorem pollSet_cons (client : Client) (clients : List Client) (set : FdSet) (maxSock : Socket) :
    pollSet (client :: clients) set maxSock =
      pollSet clients (insert client.sock set) (max maxSock client.sock) := by
  rw [max_def_lt]
  rfl

/-- The loop adds exactly the clients' descriptors. -/
theorem mem_pollSet {clients : List Client} {set : FdSet} {maxSock sock : Socket} :
    sock ∈ (pollSet clients set maxSock).1 ↔ sock ∈ set ∨ sock ∈ clients.map Endpoint.sock := by
  induction clients generalizing set maxSock with
  | nil => simp [pollSet]
  | cons client clients ih =>
      rw [pollSet_cons, ih]
      simp only [Finset.mem_insert, List.map_cons, List.mem_cons]
      tauto

/-- What the loop keeps is at least what it started with and every descriptor. -/
theorem pollSet_le {clients : List Client} {set : FdSet} {maxSock limit : Socket} :
    (pollSet clients set maxSock).2 ≤ limit ↔
      maxSock ≤ limit ∧ ∀ client ∈ clients, client.sock ≤ limit := by
  induction clients generalizing set maxSock with
  | nil => simp [pollSet]
  | cons client clients ih =>
      rw [pollSet_cons, ih]
      simp only [max_le_iff, List.forall_mem_cons, and_assoc]

/-- The loop keeps what it started with or one of the descriptors. -/
theorem pollSet_snd (clients : List Client) (set : FdSet) (maxSock : Socket) :
    (pollSet clients set maxSock).2 = maxSock ∨
      (pollSet clients set maxSock).2 ∈ clients.map Endpoint.sock := by
  induction clients generalizing set maxSock with
  | nil => exact Or.inl rfl
  | cons client clients ih =>
      rw [pollSet_cons, List.map_cons, List.mem_cons]
      rcases ih (insert client.sock set) (max maxSock client.sock) with hmax | hmem
      · rcases max_choice maxSock client.sock with hold | hnew
        · exact Or.inl (hmax.trans hold)
        · exact Or.inr (Or.inl (hmax.trans hnew))
      · exact Or.inr (Or.inr hmem)

end Client

end SelectNet
