import SelectNet.CommonLib.RecvLoop
import SelectNet.CommonLib.SendLoop
import SelectNet.Foundation.Machine

/-!
# ClientSocket

The server's end of a connection. A message handler is a function of the world
it lives in and the message: it may change its world, and may call `SendMsg` of
the sender it is given, which is all that `IMsgSend` offers.
-/

namespace SelectNet

/-- `IMsgHandle`: the messages it sends back, in order. -/
abbrev MsgHandle (ω : Type) : Type := ω → Memory Byte → ω × List (Memory Byte)

/-- The handler of a socket: its world, and what `OnMsgHandle` was called with,
as the contents of `_package`. -/
structure HandleSide (ω : Type) where
  world : ω
  calls : List (List Byte)

abbrev ClientSocket (ω : Type) : Type := Endpoint (HandleSide ω)

namespace ClientSocket

variable {ω : Type}

/-- The constructor. The arrays start with whatever their memory held, and the
counters are those that the creator sets right behind it. -/
def new (sock : Socket) (world : ω) (sendBuf recvBuf package : Memory Byte)
    (test : Option TestCounters) : ClientSocket ω where
  sock
  closesocket := []
  sendQueue := .new
  ioSend := .setBuffer sendBuf serverSendBufferSize
  oMsg := .empty
  memoryPool := .new
  oRecv := .empty
  retainSize := 0
  recvBuf
  package
  test
  kernel := []
  ext := ⟨world, []⟩

def close (s : ClientSocket ω) : ClientSocket ω :=
  if s.sock ≠ invalidSocket then s.shut.clearSendQueue.clearBuffer serverSendBufferSize
  else s

def sendMsg (s : ClientSocket ω) (msg : Memory Byte) : Int × ClientSocket ω :=
  Endpoint.sendMsg s msg

def sendData (s : ClientSocket ω) (data : Memory Byte) (dataLen : Nat) :
    Int × ClientSocket ω :=
  Endpoint.sendData s data dataLen

def processorSend (answers : Nat → SendAnswer) (s : ClientSocket ω) :
    Option (Int × ClientSocket ω) :=
  s.runSend close serverSendQueueMaxAccumulateCount answers

/-- The inside of the receive loop: copy a package out and call the handler. -/
def onPackage (handle : MsgHandle ω) (s : ClientSocket ω) (bytes : List Byte) :
    ClientSocket ω :=
  let s := s.count fun test => { test with msgTimes := test.msgTimes + 1 }
  let package := fillPackage s.package bytes
  let (world, replies) := handle s.ext.world package
  let s := { s with
    package
    ext := ⟨world, s.ext.calls ++ [package.read 0 packageMaxSize]⟩ }
  replies.foldl (fun s msg => (sendMsg s msg).2) s

/-- The passes of the receive loop. -/
def recvLoop (handle : MsgHandle ω) :
    OBuffer (Memory Byte) × ClientSocket ω →
      Pass (OBuffer (Memory Byte) × ClientSocket ω) (Option (RecvExit (ClientSocket ω))) :=
  recvPass fun s bytes => .more (onPackage handle s bytes)

/-- How `ProcessorRecv` returns from its loop. -/
def recvLeave : Option (RecvExit (ClientSocket ω)) → Outcome (ClientSocket ω)
  | none => .aborted
  | some (.tooLong s) | some (.full s) => .returned (-1) (close s)
  | some (.stopped oRecv s) => .returned 0 (s.recvStop oRecv)

def countRecv (s : ClientSocket ω) : ClientSocket ω :=
  s.count fun test => { test with recvTimes := test.recvTimes + 1 }

/-- `ProcessorRecv`, with a bound on the passes of its loop. It is `none` while
the loop has not ended. -/
def processorRecv (handle : MsgHandle ω) (answer : RecvAnswer) (fuel : Nat)
    (s : ClientSocket ω) : Option (Outcome (ClientSocket ω)) :=
  let s := countRecv s
  let bytes := answer.received s.sock (serverRecvBufferSize - s.retainSize)
  if bytes = [] then some (.returned (-1) (close s))
  else (Loop.run (recvLoop handle) fuel (s.recvStart bytes)).map recvLeave

/-! ## What the calls keep -/

section Specs

variable {s : ClientSocket ω}

theorem close_spec (hinv : s.SendInv) :
    s.ClosedFrom (close s) ∧ (close s).ext = s.ext ∧ (s.sock ≠ invalidSocket → (close s).Idle) := by
  unfold close
  split
  next hopen =>
    obtain ⟨hsame, hnext, hidle, hkernel⟩ := Endpoint.cleared_spec s.shut hinv.counted
      hinv.calls_front (show 0 < serverSendBufferSize by decide)
    exact ⟨⟨hnext, hsame.sock, hsame.closesocket.trans (if_neg hopen).symm, hsame.retainSize,
      hsame.recvBuf, hkernel⟩, hsame.ext, fun _ => hidle⟩
  next hclosed =>
    rw [ne_eq, not_not] at hclosed
    exact ⟨⟨hinv, hclosed, (if_pos hclosed).symm, rfl, rfl, rfl⟩, rfl,
      fun hopen => absurd hclosed hopen⟩

/-- What the handler does with a package, and what it sends back. -/
def handled (handle : MsgHandle ω) (s : ClientSocket ω) (bytes : List Byte) :
    ω × List (Memory Byte) :=
  handle s.ext.world (fillPackage s.package bytes)

theorem onPackage_spec (handle : MsgHandle ω) (hinv : s.SendInv) {bytes : List Byte}
    (hlen : bytes.length ≤ packageMaxSize) :
    (onPackage handle s bytes).sock = s.sock ∧
      (onPackage handle s bytes).closesocket = s.closesocket ∧
      (onPackage handle s bytes).retainSize = s.retainSize ∧
      (onPackage handle s bytes).ext =
        ⟨(handled handle s bytes).1, s.ext.calls ++ [padded bytes]⟩ ∧
      (onPackage handle s bytes).SendInv ∧
      (s.sock ≠ invalidSocket →
        (onPackage handle s bytes).accepted ++ (onPackage handle s bytes).outgoing =
          s.accepted ++ s.outgoing ++ (handled handle s bytes).2.flatMap Endpoint.msgBytes) := by
  let called : ClientSocket ω :=
    { s.count fun test => { test with msgTimes := test.msgTimes + 1 } with
      package := fillPackage s.package bytes
      ext := ⟨(handled handle s bytes).1,
        s.ext.calls ++ [(fillPackage s.package bytes).read 0 packageMaxSize]⟩ }
  have hquiet : Endpoint.SameSend s called := ⟨rfl, rfl, rfl, rfl⟩
  obtain ⟨hsame, hnext, hstream⟩ :=
    Endpoint.sendMsgs_spec (hquiet.inv hinv) (handled handle s bytes).2
  refine ⟨hsame.sock, hsame.closesocket, hsame.retainSize, ?_, hnext, hstream⟩
  rw [← read_fillPackage s.package hlen]
  exact hsame.ext

/-- A handler sends nothing itself. -/
theorem onPackage_kernel (handle : MsgHandle ω) (s : ClientSocket ω) (bytes : List Byte) :
    (onPackage handle s bytes).kernel = s.kernel :=
  Endpoint.sendMsgs_kernel _ _

/-- Handing over packages moves neither the socket nor what is retained, and
calls the handler once for each, in order. -/
theorem onPackages_spec (handle : MsgHandle ω) (hinv : s.SendInv) {frames : List (List Byte)}
    (hlen : ∀ frame ∈ frames, frame.length ≤ packageMaxSize) :
    (frames.foldl (onPackage handle) s).sock = s.sock ∧
      (frames.foldl (onPackage handle) s).closesocket = s.closesocket ∧
      (frames.foldl (onPackage handle) s).retainSize = s.retainSize ∧
      (frames.foldl (onPackage handle) s).SendInv ∧
      (frames.foldl (onPackage handle) s).ext.calls = s.ext.calls ++ frames.map padded := by
  induction frames generalizing s with
  | nil => exact ⟨rfl, rfl, rfl, hinv, (List.append_nil _).symm⟩
  | cons frame frames ih =>
      obtain ⟨hsock, hclose, hretain, hext, hnext, _⟩ :=
        onPackage_spec handle hinv (hlen frame List.mem_cons_self)
      obtain ⟨hsocks, hcloses, hretains, hlast, hcalls⟩ :=
        ih hnext fun other hother => hlen other (List.mem_cons_of_mem _ hother)
      refine ⟨hsocks.trans hsock, hcloses.trans hclose, hretains.trans hretain, hlast, ?_⟩
      rw [List.foldl_cons, hcalls, hext, List.map_cons, List.append_assoc,
        List.singleton_append]

/-- `ProcessorRecv` has returned. -/
def Returns (handle : MsgHandle ω) (answer : RecvAnswer) (s : ClientSocket ω) (value : Int)
    (next : ClientSocket ω) : Prop :=
  ∃ fuel, processorRecv handle answer fuel s = some (.returned value next)

/-- The state in which the loop of `ProcessorRecv` starts over received bytes. -/
def recvHead (s : ClientSocket ω) (bytes : List Byte) :
    OBuffer (Memory Byte) × ClientSocket ω :=
  (countRecv s).recvStart bytes

theorem processorRecv_of_nothing (handle : MsgHandle ω) {answer : RecvAnswer}
    (hnone : answer.received s.sock (serverRecvBufferSize - s.retainSize) = []) (fuel : Nat) :
    processorRecv handle answer fuel s = some (.returned (-1) (close (countRecv s))) :=
  if_pos hnone

theorem returns_iff (handle : MsgHandle ω) {answer : RecvAnswer} {bytes : List Byte}
    (hbytes : answer.received s.sock (serverRecvBufferSize - s.retainSize) = bytes)
    (hsome : bytes ≠ []) (value : Int) (next : ClientSocket ω) :
    Returns handle answer s value next ↔
      ∃ exit, Loop.Yields (recvLoop handle) (recvHead s bytes) exit ∧
        recvLeave exit = .returned value next := by
  rw [← Loop.exists_map_run_iff]
  have hcall : ∀ fuel, processorRecv handle answer fuel s =
      (Loop.run (recvLoop handle) fuel (recvHead s bytes)).map recvLeave := by
    intro fuel
    subst hbytes
    exact if_neg hsome
  simp only [Returns, hcall]

/-- The state once the frames of a stream are handed over. -/
def taken (handle : MsgHandle ω) (s : ClientSocket ω) (bytes stream : List Byte) :
    ClientSocket ω :=
  (headRule.parse stream).frames.foldl (onPackage handle) (recvHead s bytes).2

theorem taken_spec (handle : MsgHandle ω) (hinv : s.SendInv) (bytes stream : List Byte) :
    (taken handle s bytes stream).sock = s.sock ∧
      (taken handle s bytes stream).closesocket = s.closesocket ∧
      (taken handle s bytes stream).retainSize = 0 ∧
      (taken handle s bytes stream).SendInv ∧
      (taken handle s bytes stream).ext.calls =
        s.ext.calls ++ (headRule.parse stream).frames.map padded := by
  have hquiet : Endpoint.SameSend s (recvHead s bytes).2 := ⟨rfl, rfl, rfl, rfl⟩
  exact onPackages_spec handle (hquiet.inv hinv) fun frame hframe =>
    length_le_of_mem_frames hframe

/-- The receive loop against the reference parser. -/
theorem recvLoop_spec (handle : MsgHandle ω) {rest : List Byte}
    (hretained : Retained s.recvBuf s.retainSize rest) (bytes : List Byte) :
    let next := taken handle s bytes (rest ++ bytes)
    match (headRule.parse (rest ++ bytes)).ending with
    | .rest left => ∃ oRecv : OBuffer (Memory Byte),
        Loop.Yields (recvLoop handle) (recvHead s bytes) (some (.stopped oRecv next)) ∧
        Retained oRecv.moveDataToFront.memory oRecv.moveDataToFront.canRead left
    | .refused => Loop.Yields (recvLoop handle) (recvHead s bytes) (some (.tooLong next))
    | .stuck => ∃ oRecv : OBuffer (Memory Byte),
        Loop.Visits (recvLoop handle) (recvHead s bytes) (oRecv, next) ∧ oRecv.Valid ∧
        headRule.parse oRecv.unread = ⟨[], .stuck⟩ := by
  have hpass := recvPass_spec (fun s frame => .more (onPackage handle s frame)) hretained bytes
    (recvHead s bytes).2
  simp only [handAll_more] at hpass
  exact hpass

/-- A return from `ProcessorRecv`, and the state it leaves. -/
theorem processorRecv_spec (handle : MsgHandle ω) {answer : RecvAnswer} {rest bytes : List Byte}
    (hretained : Retained s.recvBuf s.retainSize rest)
    (hbytes : answer.received s.sock (serverRecvBufferSize - s.retainSize) = bytes)
    (hsome : bytes ≠ []) :
    let next := taken handle s bytes (rest ++ bytes)
    match (headRule.parse (rest ++ bytes)).ending with
    | .rest left => ∃ oRecv, Returns handle answer s 0 (next.recvStop oRecv) ∧
        Retained (next.recvStop oRecv).recvBuf (next.recvStop oRecv).retainSize left
    | .refused => Returns handle answer s (-1) (close next)
    | .stuck => ∀ value next, ¬ Returns handle answer s value next := by
  have hloop := recvLoop_spec handle hretained bytes
  simp only at hloop ⊢
  split at hloop
  next left _ =>
    obtain ⟨oRecv, hyields, hleft⟩ := hloop
    exact ⟨oRecv, (returns_iff handle hbytes hsome _ _).mpr ⟨_, hyields, rfl⟩, hleft⟩
  next =>
    exact (returns_iff handle hbytes hsome _ _).mpr ⟨_, hloop, rfl⟩
  next =>
    obtain ⟨oRecv, hvisits, hvalid, hparse⟩ := hloop
    intro value next hreturns
    obtain ⟨exit, hyields, _⟩ := (returns_iff handle hbytes hsome _ _).mp hreturns
    have hmore : ∀ t, ∃ t', Handed.more (onPackage handle t []) = .more t' := fun t => ⟨_, rfl⟩
    exact not_ends_of_stuck hmore hvalid hparse (hvisits.ends_iff.mp ⟨exit, hyields⟩)

theorem Returns.unique {handle : MsgHandle ω} {answer : RecvAnswer} {value other : Int}
    {next last : ClientSocket ω} (hfirst : Returns handle answer s value next)
    (hsecond : Returns handle answer s other last) : value = other ∧ next = last := by
  by_cases hsome : answer.received s.sock (serverRecvBufferSize - s.retainSize) = []
  · obtain ⟨_, hfirst⟩ := hfirst
    obtain ⟨_, hsecond⟩ := hsecond
    rw [processorRecv_of_nothing handle hsome] at hfirst hsecond
    cases hfirst
    cases hsecond
    exact ⟨rfl, rfl⟩
  · obtain ⟨exit, hyields, hleave⟩ := (returns_iff handle rfl hsome _ _).mp hfirst
    obtain ⟨exit', hyields', hleave'⟩ := (returns_iff handle rfl hsome _ _).mp hsecond
    rw [hyields.unique hyields'] at hleave
    cases hleave.symm.trans hleave'
    exact ⟨rfl, rfl⟩

/-- What a return from `ProcessorRecv` can leave: a client closed for want of bytes,
one that has handed over the frames it was sent and keeps the rest, or one closed
behind them. -/
theorem Returns.cases {handle : MsgHandle ω} {answer : RecvAnswer} {rest : List Byte}
    {value : Int} {next : ClientSocket ω} (hreturns : Returns handle answer s value next)
    (hretained : Retained s.recvBuf s.retainSize rest) :
    let bytes := answer.received s.sock (serverRecvBufferSize - s.retainSize)
    value = -1 ∧ next = close (countRecv s) ∨
    (∃ oRecv left, value = 0 ∧ next = (taken handle s bytes (rest ++ bytes)).recvStop oRecv ∧
      Retained next.recvBuf next.retainSize left) ∨
    value = -1 ∧ next = close (taken handle s bytes (rest ++ bytes)) := by
  intro bytes
  by_cases hsome : bytes = []
  · obtain ⟨_, hcall⟩ := hreturns
    rw [processorRecv_of_nothing handle hsome] at hcall
    cases hcall
    exact Or.inl ⟨rfl, rfl⟩
  · have hspec := processorRecv_spec handle hretained rfl hsome
    simp only at hspec
    split at hspec
    next left _ =>
      obtain ⟨oRecv, hreturn, hleft⟩ := hspec
      obtain ⟨rfl, rfl⟩ := hreturn.unique hreturns
      exact Or.inr (Or.inl ⟨oRecv, left, rfl, rfl, hleft⟩)
    next =>
      obtain ⟨rfl, rfl⟩ := hspec.unique hreturns
      exact Or.inr (Or.inr ⟨rfl, rfl⟩)
    next => exact absurd hreturns (hspec value next)

end Specs

/-! ## Histories -/

/-- What can happen to a socket: calls from the server, and its handler's world
moving on elsewhere. -/
inductive Event (ω : Type) where
  | sendData (data : Memory Byte) (dataLen : Nat)
  | sendMsg (msg : Memory Byte)
  | processorSend (answers : Nat → SendAnswer)
  | processorRecv (answer : RecvAnswer)
  | close
  | elsewhere (world : ω)

def machine (handle : MsgHandle ω) : Machine (ClientSocket ω) (Event ω) where
  initial s := ∃ sock world sendBuf recvBuf package test,
    s = new sock world sendBuf recvBuf package test
  step s event next :=
    match event with
    | .sendData data dataLen => next = (sendData s data dataLen).2
    | .sendMsg msg => next = (sendMsg s msg).2
    | .processorSend answers => ∃ value, processorSend answers s = some (value, next)
    | .processorRecv answer => ∃ value, Returns handle answer s value next
    | .close => next = ClientSocket.close s
    | .elsewhere world => next = { s with ext := { s.ext with world } }

/-- What holds between the calls. -/
structure Inv (s : ClientSocket ω) : Prop where
  send : s.SendInv
  recv : ∃ rest, Retained s.recvBuf s.retainSize rest

variable {s next : ClientSocket ω} {handle : MsgHandle ω}

theorem new_inv (sock : Socket) (world : ω) (sendBuf recvBuf package : Memory Byte)
    (test : Option TestCounters) :
    Inv (new sock world sendBuf recvBuf package test) :=
  ⟨(Endpoint.fresh_spec rfl rfl (by decide) rfl rfl).1, ⟨[], Retained.nothing recvBuf⟩⟩

theorem Inv.close (hinv : Inv s) : Inv (close s) := by
  obtain ⟨hclosed, _, _⟩ := close_spec hinv.send
  refine ⟨hclosed.inv, ?_⟩
  rw [hclosed.recvBuf, hclosed.retainSize]
  exact hinv.recv

theorem Inv.of_same (hinv : Inv s) (hsame : s.SameRecv next) (hsend : next.SendInv) :
    Inv next := by
  refine ⟨hsend, ?_⟩
  rw [hsame.recvBuf, hsame.retainSize]
  exact hinv.recv

theorem Inv.processorSend (hinv : Inv s) {answers : Nat → SendAnswer} {value : Int}
    (hsend : processorSend answers s = some (value, next)) : Inv next := by
  by_cases hsock : s.sock = invalidSocket
  · simp only [ClientSocket.processorSend, Endpoint.runSend, if_pos hsock, Option.some.injEq,
      Prod.mk.injEq] at hsend
    exact hsend.2 ▸ hinv
  · obtain ⟨_, t, hrun, hreturns⟩ := Endpoint.runSend_spec ClientSocket.close
      serverSendQueueMaxAccumulateCount answers hinv.send hsock
    cases hrun.symm.trans hsend
    rcases hreturns with ⟨_, hkept⟩ | ⟨_, last, hkept, rfl⟩
    · exact hinv.of_same hkept.same hkept.inv
    · exact (hinv.of_same hkept.same hkept.inv).close

theorem Inv.processorRecv (hinv : Inv s) {answer : RecvAnswer} {value : Int}
    (hreturns : Returns handle answer s value next) : Inv next := by
  obtain ⟨rest, hretained⟩ := hinv.recv
  obtain ⟨_, _, hzero, hsend, _⟩ := taken_spec handle hinv.send
    (answer.received s.sock (serverRecvBufferSize - s.retainSize))
    (rest ++ answer.received s.sock (serverRecvBufferSize - s.retainSize))
  rcases hreturns.cases hretained with
    ⟨_, rfl⟩ | ⟨oRecv, left, _, rfl, hleft⟩ | ⟨_, rfl⟩
  · have hquiet : Endpoint.SameSend s (countRecv s) := ⟨rfl, rfl, rfl, rfl⟩
    have hcount : Inv (countRecv s) := ⟨hquiet.inv hinv.send, hinv.recv⟩
    exact hcount.close
  · exact ⟨(Endpoint.SameSend.recvStop _ oRecv).inv hsend, left, hleft⟩
  · exact Inv.close ⟨hsend, [], hzero ▸ Retained.nothing _⟩

theorem inv_of_reachable (hreach : (machine handle).Reachable s) : Inv s := by
  refine Machine.Reachable.invariant ?_ ?_ hreach
  · rintro _ ⟨sock, world, sendBuf, recvBuf, package, test, rfl⟩
    exact new_inv sock world sendBuf recvBuf package test
  · intro s event next hinv hstep
    cases event with
    | sendData data dataLen =>
        obtain ⟨hsame, hsend, _⟩ := Endpoint.sendData_spec hinv.send data dataLen
        cases hstep
        exact hinv.of_same hsame hsend
    | sendMsg msg =>
        obtain ⟨hsame, hsend, _⟩ := Endpoint.sendMsg_spec hinv.send msg
        cases hstep
        exact hinv.of_same hsame hsend
    | processorSend answers =>
        obtain ⟨value, hsend⟩ := hstep
        exact hinv.processorSend hsend
    | processorRecv answer =>
        obtain ⟨value, hreturns⟩ := hstep
        exact hinv.processorRecv hreturns
    | close =>
        cases hstep
        exact hinv.close
    | elsewhere world =>
        have hquiet : Endpoint.SameSend s next := by cases hstep; exact ⟨rfl, rfl, rfl, rfl⟩
        refine ⟨hquiet.inv hinv.send, ?_⟩
        cases hstep
        exact hinv.recv

end ClientSocket

end SelectNet
