import SelectNet.Allocation.PoolLedger
import SelectNet.CommonLib.ClientThreads

/-!
# Closing under the other threads

`Close` empties the queue and frees what is in it. A thread that has looked at
the queue or at the socket before, and acts on what it saw behind the `Close`,
reads a buffer that was freed, frees a null pointer, or leaves a buffer behind.
As long as no `Close` falls between such a look and its use, every buffer is
freed once, after its last use.
-/

namespace SelectNet.ClientThreads

variable {s t next : ClientThreads} {label : ThreadLabel}

/-! ## What is asked of a run -/

/-- What the threads may do with the send buffers. -/
structure BuffersSafe (s : ClientThreads) : Prop where
  freedOnce : s.memoryPool.FreedOnce
  /-- The sender copies only from a buffer that has not been freed. -/
  noStaleRead : ∀ package pos writeLen,
    s.ext.sender = .writeBytes (some package) pos writeLen → 0 < writeLen →
      s.memoryPool.Outstanding package.unit
  noNullFree : ∀ qmSend, s.ext.sender = .free qmSend → qmSend ≠ none
  /-- Nothing is left once the socket is closed and all calls have returned. -/
  released : s.sock = invalidSocket → s.ext = ⟨.idle, .idle, .idle⟩ →
    ∀ unit, ¬ s.memoryPool.Outstanding unit

/-- A step that closes the open socket. -/
def Closes (s : ClientThreads) : ThreadLabel → Prop
  | .sender _ => s.ext.sender = .close ∧ s.sock ≠ invalidSocket
  | .receiver _ => s.ext.receiver = .close ∧ s.sock ≠ invalidSocket
  | .caller _ => False

/-- A thread stands between a look and its use: the sender is about to copy from
the buffer it saw, to pop the entry it saw, or to load it; the caller has seen the
socket open and not pushed its buffer yet. -/
inductive InWindow (s : ClientThreads) : Prop where
  | copying {package : Package} {pos writeLen : Int}
      (hpoint : s.ext.sender = .writeBytes (some package) pos writeLen) (hlen : 0 < writeLen)
  | popping (hpoint : s.ext.sender = .pop)
  | loading {qmSend : QMSend} (hpoint : s.ext.sender = .setBuffer (some qmSend))
  | allocating {data : List Byte} (hpoint : s.ext.caller = .alloc data)
  | pushing {qmSend : QMSend} (hpoint : s.ext.caller = .push qmSend)

/-- The step does not close the socket under a thread in such a window. -/
def Clear (s : ClientThreads) (label : ThreadLabel) : Prop := s.Closes label → ¬ s.InWindow

/-! ## What holds then -/

/-- The buffer that is popped and not freed yet. -/
def senderFlight : SenderPoint → List (Nat × Nat)
  | .free (some qmSend) => [(qmSend.data.unit, qmSend.size)]
  | _ => []

/-- The buffer that is allocated and not pushed yet. -/
def callerFlight : CallerPoint → List (Nat × Nat)
  | .push qmSend => [(qmSend.data.unit, qmSend.size)]
  | _ => []

/-- Besides the queue, the threads own what they have in flight. -/
def inFlight : Endpoint.Holding Points :=
  ⟨fun _ => True, fun points => senderFlight points.sender ++ callerFlight points.caller⟩

/-- An entry is the front of the queue. -/
def AtHead (s : ClientThreads) (qmSend : QMSend) : Prop :=
  ∃ rest, s.sendQueue.nodes = qmSend :: rest

/-- `_oMsg` is null or an alias of the front entry. -/
def Loaded (s : ClientThreads) : Prop :=
  ∀ package, s.oMsg.buf = some package → ∃ qmSend, s.AtHead qmSend ∧ qmSend.data = package

/-- What the sender may rely on where it stands. -/
def SenderHolds (s : ClientThreads) : SenderPoint → Prop
  | .pop => s.Loaded ∧ s.oMsg.buf ≠ none
  | .free qmSend => qmSend ≠ none
  -- the alias of what was freed is reset before anything looks at it
  | .reset => True
  | .hasData | .front => s.oMsg.buf = none
  | .setBuffer qmSend => s.oMsg.buf = none ∧ ∀ entry, qmSend = some entry → s.AtHead entry
  | .writeBytes data _ writeLen => s.Loaded ∧
      ∀ package, data = some package → 0 < writeLen →
        ∃ qmSend, s.AtHead qmSend ∧ qmSend.data = package
  | _ => s.Loaded

structure Inv (s : ClientThreads) : Prop where
  owns : s.Owns inFlight
  sender : s.SenderHolds s.ext.sender
  /-- Behind a `Close` nothing is queued, and nothing will be. -/
  emptied : s.sock = invalidSocket → s.sendQueue.nodes = [] ∧
    (∀ data, s.ext.caller ≠ .alloc data) ∧ ∀ qmSend, s.ext.caller ≠ .push qmSend

theorem owned_eq (s : ClientThreads) : s.queued ++ inFlight.units s.ext =
    s.queued ++ (senderFlight s.ext.sender ++ callerFlight s.ext.caller) := rfl

theorem loaded_of_none (hnone : s.oMsg.buf = none) : s.Loaded := by
  intro package hbuf
  simp [hnone] at hbuf

theorem Inv.safe (hinv : s.Inv) : s.BuffersSafe := by
  have haccounts := hinv.owns.accounts
  refine ⟨haccounts.freedOnce, ?_, ?_, ?_⟩
  · intro package pos writeLen hpoint hlen
    have hsender := hinv.sender
    rw [hpoint] at hsender
    obtain ⟨qmSend, ⟨rest, hnodes⟩, hdata⟩ := hsender.2 package rfl hlen
    rw [haccounts.outstanding_iff, List.map_append, List.mem_append]
    left
    simp [Endpoint.queued, hnodes, hdata]
  · intro qmSend hpoint
    have hsender := hinv.sender
    rw [hpoint] at hsender
    exact hsender
  · intro hclosed hidle unit houtstanding
    obtain ⟨hnodes, _⟩ := hinv.emptied hclosed
    rw [haccounts.outstanding_iff, owned_eq, hidle] at houtstanding
    simp [Endpoint.queued, hnodes, senderFlight, callerFlight] at houtstanding

/-! ## Steps that touch neither queue nor pool -/

/-- The step leaves the queue, the pool, the socket and the buffers in flight
alone. -/
structure Quiet (s t : ClientThreads) : Prop where
  pool : t.memoryPool = s.memoryPool
  queue : t.sendQueue = s.sendQueue
  sock : t.sock = s.sock
  sender : senderFlight t.ext.sender = senderFlight s.ext.sender
  caller : callerFlight t.ext.caller = callerFlight s.ext.caller

theorem Quiet.owns (hquiet : Quiet s t) (howns : s.Owns inFlight) : t.Owns inFlight := by
  refine ⟨trivial, ?_⟩
  have haccounts := howns.accounts
  rw [owned_eq, Endpoint.queued] at haccounts
  rw [owned_eq, Endpoint.queued, hquiet.pool, hquiet.queue, hquiet.sender, hquiet.caller]
  exact haccounts

/-- A step of the sender besides those with the queue and the pool. -/
theorem Inv.sendQuiet (hinv : s.Inv) (hquiet : Quiet s t) (hcaller : t.ext.caller = s.ext.caller)
    (hsender : t.SenderHolds t.ext.sender) : t.Inv := by
  refine ⟨hquiet.owns hinv.owns, hsender, fun hclosed => ?_⟩
  rw [hquiet.queue, hcaller]
  exact hinv.emptied (hquiet.sock.symm.trans hclosed)

/-- The sender only moves on. -/
theorem Inv.sendAt (hinv : s.Inv) {point : SenderPoint} (hfrom : senderFlight s.ext.sender = [])
    (hto : senderFlight point = []) (hsender : s.SenderHolds point) :
    Inv (ClientThreads.sendAt s point) := by
  have hquiet : Quiet s (ClientThreads.sendAt s point) :=
    ⟨rfl, rfl, rfl, hto.trans hfrom.symm, rfl⟩
  refine hinv.sendQuiet hquiet rfl ?_
  cases point <;> exact hsender

/-! ## Close -/

theorem close_of_open (hopen : s.sock ≠ invalidSocket) :
    close s = s.shut.clearSendQueue.clearBuffer clientSendBufferSize := if_pos hopen

theorem close_of_closed (hclosed : s.sock = invalidSocket) : close s = s :=
  if_neg (not_not.mpr hclosed)

/-- `Close` empties the queue, frees what was in it and resets `_oMsg`. -/
theorem close_spec (hopen : s.sock ≠ invalidSocket) (howns : s.Owns inFlight) :
    (close s).Owns inFlight ∧ (close s).sendQueue.nodes = [] ∧ (close s).oMsg.buf = none ∧
      (close s).ext = s.ext := by
  have hshut : s.shut.Owns inFlight := howns.congr rfl rfl rfl
  obtain ⟨hcleared, hnodes⟩ := hshut.clearSendQueue
  obtain ⟨sendQueue, memoryPool, test, hclear, _⟩ := Endpoint.clearSendQueue_spec s.shut
  rw [close_of_open hopen]
  refine ⟨hcleared.congr rfl rfl rfl, hnodes, rfl, ?_⟩
  rw [hclear]
  rfl

/-- Outside the windows the sender can do without what `Close` takes away. -/
theorem SenderHolds.closed {point : SenderPoint} (hwindow : ¬ s.InWindow)
    (hpoint : s.ext.sender = point) (hsender : s.SenderHolds point)
    (hnone : t.oMsg.buf = none) : t.SenderHolds point := by
  cases point with
  | pop => exact absurd (.popping hpoint) hwindow
  | free qmSend => exact hsender
  | reset => trivial
  | hasData => exact hnone
  | front => exact hnone
  | setBuffer qmSend =>
      refine ⟨hnone, ?_⟩
      intro entry hentry
      exact absurd (.loading (hentry ▸ hpoint)) hwindow
  | writeBytes data pos writeLen =>
      refine ⟨loaded_of_none hnone, ?_⟩
      intro package hdata hlen
      exact absurd (.copying (hdata ▸ hpoint) hlen) hwindow
  | _ => exact loaded_of_none hnone

/-- The receiver closes. -/
theorem Inv.receiverClose (hinv : s.Inv) (hwindow : s.sock ≠ invalidSocket → ¬ s.InWindow) :
    Inv (recvAt (close s) .idle) := by
  by_cases hclosed : s.sock = invalidSocket
  · rw [close_of_closed hclosed]
    exact hinv.sendQuiet ⟨rfl, rfl, rfl, rfl, rfl⟩ rfl hinv.sender
  · have hclear := hwindow hclosed
    obtain ⟨howns, hnodes, hnone, hext⟩ := close_spec hclosed hinv.owns
    have hquiet : Quiet (close s) (recvAt (close s) .idle) := ⟨rfl, rfl, rfl, rfl, rfl⟩
    have hpoints : (recvAt (close s) .idle).ext = { s.ext with receiver := .idle } := by
      rw [← hext]
      rfl
    refine ⟨hquiet.owns howns, ?_, fun _ => ⟨hnodes, ?_, ?_⟩⟩
    · rw [hpoints]
      exact hinv.sender.closed hclear rfl hnone
    · intro data hpoint
      rw [hpoints] at hpoint
      exact hclear (.allocating hpoint)
    · intro qmSend hpoint
      rw [hpoints] at hpoint
      exact hclear (.pushing hpoint)

/-- The sender closes, and returns. -/
theorem Inv.senderClose (hinv : s.Inv) (hpoint : s.ext.sender = .close)
    (hwindow : s.sock ≠ invalidSocket → ¬ s.InWindow) :
    Inv (ClientThreads.sendAt (close s) .idle) := by
  by_cases hclosed : s.sock = invalidSocket
  · rw [close_of_closed hclosed]
    have hsender := hinv.sender
    rw [hpoint] at hsender
    exact hinv.sendAt (by rw [hpoint]; rfl) rfl hsender
  · have hclear := hwindow hclosed
    obtain ⟨howns, hnodes, hnone, hext⟩ := close_spec hclosed hinv.owns
    have hquiet : Quiet (close s) (ClientThreads.sendAt (close s) .idle) := by
      refine ⟨rfl, rfl, rfl, ?_, rfl⟩
      rw [hext, hpoint]
      rfl
    have hpoints : (ClientThreads.sendAt (close s) .idle).ext = { s.ext with sender := .idle } := by
      rw [← hext]
      rfl
    refine ⟨hquiet.owns howns, loaded_of_none hnone, fun _ => ⟨hnodes, ?_, ?_⟩⟩
    · intro data hcaller
      rw [hpoints] at hcaller
      exact hclear (.allocating hcaller)
    · intro qmSend hcaller
      rw [hpoints] at hcaller
      exact hclear (.pushing hcaller)

/-! ## The sender -/

theorem Inv.startSender (hinv : s.Inv) {point : SenderPoint}
    (hfrom : senderFlight s.ext.sender = [])
    (hto : senderFlight point = []) (hloaded : s.Loaded) (hsender : s.SenderHolds point) :
    Inv (ClientThreads.startSender s point) := by
  unfold ClientThreads.startSender
  split
  next => exact hinv.sendAt hfrom rfl hloaded
  next => exact hinv.sendAt hfrom hto hsender

/-- An action of `ProcessorSend` other than `Close`. -/
theorem Inv.processorSend (hinv : s.Inv) (answer : SendAnswer) (hclose : s.ext.sender ≠ .close)
    (hflight : senderFlight s.ext.sender = []) (hloaded : s.Loaded) :
    Inv (ClientThreads.processorSend answer s) := by
  unfold ClientThreads.processorSend
  split
  next =>
    split
    next => exact hinv.sendAt hflight rfl hloaded
    next => exact hinv.sendAt hflight rfl hloaded
    next => exact hinv.sendAt hflight rfl hloaded
  next => exact hinv.sendAt hflight rfl hloaded
  next caller count totalLen _ =>
    -- whatever `send` takes, the queue and the message stay
    generalize (if s.sock = invalidSocket then 0 else min count totalLen.toNat) = sendLen
    simp only
    split
    next => exact hinv.sendQuiet ⟨rfl, rfl, rfl, hflight.symm, rfl⟩ rfl hloaded
    next => exact hinv.sendQuiet ⟨rfl, rfl, rfl, hflight.symm, rfl⟩ rfl hloaded
  next =>
    split
    next => exact hinv.sendAt hflight rfl hloaded
    next => exact hinv.sendQuiet ⟨rfl, rfl, rfl, hflight.symm, rfl⟩ rfl hloaded
  next =>
    simp only
    split
    next => exact hinv.sendQuiet ⟨rfl, rfl, rfl, hflight.symm, rfl⟩ rfl hloaded
    next => exact hinv.sendQuiet ⟨rfl, rfl, rfl, hflight.symm, rfl⟩ rfl hloaded
  next =>
    split
    next => exact hinv.sendAt hflight rfl hloaded
    next => exact hinv.sendAt hflight rfl hloaded
  next hpoint => exact absurd hpoint hclose
  next => exact hinv

/-- The position of `_oMsg` says nothing about its buffer. -/
theorem Inv.copyBytes (hinv : s.Inv) (hflight : senderFlight s.ext.sender = [])
    (hloaded : s.Loaded) : Inv (ClientThreads.copyBytes s) := by
  unfold ClientThreads.copyBytes
  split
  next =>
    simp only
    split
    next => exact hinv.sendAt hflight rfl hloaded
    next => exact hinv.sendAt hflight rfl hloaded
  next =>
    split
    next => exact hinv.sendAt hflight rfl hloaded
    next =>
      refine hinv.sendAt hflight rfl ⟨hloaded, ?_⟩
      intro package hdata _
      exact hloaded package hdata
  next =>
    simp only
    split
    next => exact hinv.sendAt hflight rfl hloaded
    next => exact hinv.sendQuiet ⟨rfl, rfl, rfl, hflight.symm, rfl⟩ rfl hloaded
  next => exact hinv.sendQuiet ⟨rfl, rfl, rfl, hflight.symm, rfl⟩ rfl hloaded
  next => exact hinv

/-- The popped entry goes from the queue into the sender's hands. -/
theorem Inv.pop (hinv : s.Inv) (hpoint : s.ext.sender = .pop) :
    Inv (ClientThreads.sendAt { s with sendQueue := s.sendQueue.pop.2 }
      (.free s.sendQueue.pop.1)) := by
  have hsender := hinv.sender
  rw [hpoint] at hsender
  obtain ⟨package, hbuf⟩ := Option.ne_none_iff_exists'.mp hsender.2
  obtain ⟨qmSend, ⟨rest, hnodes⟩, _⟩ := hsender.1 package hbuf
  rw [MyQueue.pop_of_cons hnodes]
  refine ⟨⟨trivial, ?_⟩, by simp [SenderHolds, ClientThreads.sendAt], fun hclosed => ?_⟩
  · have haccounts := hinv.owns.accounts
    rw [owned_eq, hpoint, Endpoint.queued, hnodes] at haccounts
    refine haccounts.perm ?_
    exact List.perm_middle.symm
  · obtain ⟨hempty, _⟩ := hinv.emptied hclosed
    simp [hnodes] at hempty

/-- And is freed from there. -/
theorem Inv.free (hinv : s.Inv) {qmSend : Option QMSend} (hpoint : s.ext.sender = .free qmSend) :
    Inv (ClientThreads.sendAt (freePopped s qmSend) .reset) := by
  have hsender := hinv.sender
  rw [hpoint] at hsender
  obtain ⟨entry, rfl⟩ := Option.ne_none_iff_exists'.mp hsender
  refine ⟨⟨trivial, ?_⟩, trivial, hinv.emptied⟩
  have haccounts := hinv.owns.accounts
  rw [owned_eq, hpoint] at haccounts
  exact (haccounts.perm List.perm_middle).free

/-- What was in the buffer's place is not looked at any more. -/
theorem Inv.reset (hinv : s.Inv) (hpoint : s.ext.sender = .reset) :
    Inv (ClientThreads.sendAt { s with oMsg := .setBuffer none 0 } .hasData) :=
  hinv.sendQuiet ⟨rfl, rfl, rfl, by rw [hpoint]; rfl, rfl⟩ rfl rfl

/-- Loading makes `_oMsg` an alias of the front. -/
theorem Inv.setBuffer (hinv : s.Inv) {qmSend : QMSend}
    (hpoint : s.ext.sender = .setBuffer (some qmSend)) :
    Inv (ClientThreads.sendAt
      { s with oMsg := .setBuffer (some qmSend.data) qmSend.size } .canWrite) := by
  have hsender := hinv.sender
  rw [hpoint] at hsender
  refine hinv.sendQuiet ⟨rfl, rfl, rfl, by rw [hpoint]; rfl, rfl⟩ rfl ?_
  intro package hbuf
  cases hbuf
  exact ⟨qmSend, hsender.2 qmSend rfl, rfl⟩

/-- Every action of the sender that does not close under the caller. -/
theorem Inv.senderStep (hinv : s.Inv) (answer : SendAnswer) (hclear : s.Clear (.sender answer)) :
    Inv (ClientThreads.senderStep answer s) := by
  have hsender := hinv.sender
  unfold ClientThreads.senderStep
  split
  next hpoint =>
    rw [hpoint] at hsender
    exact hinv.startSender (by rw [hpoint]; rfl) rfl hsender hsender
  next hpoint =>
    rw [hpoint] at hsender
    exact hinv.startSender (by rw [hpoint]; rfl) rfl hsender hsender
  next hpoint =>
    rw [hpoint] at hsender
    simp only
    split
    next => exact hinv.sendAt (by rw [hpoint]; rfl) rfl hsender
    next => exact hinv.sendAt (by rw [hpoint]; rfl) rfl hsender
  next hpoint =>
    -- only a loaded buffer leads to the pop
    rw [hpoint] at hsender
    split
    next hsome =>
      exact hinv.sendAt (by rw [hpoint]; rfl) rfl ⟨hsender, Option.isSome_iff_ne_none.mp hsome⟩
    next hnone =>
      have hnull : s.oMsg.buf = none := by simpa using hnone
      exact hinv.sendAt (by rw [hpoint]; rfl) rfl hnull
  next hpoint => exact hinv.pop hpoint
  next qmSend hpoint => exact hinv.free hpoint
  next hpoint => exact hinv.reset hpoint
  next hpoint =>
    rw [hpoint] at hsender
    split
    next => exact hinv.sendAt (by rw [hpoint]; rfl) rfl hsender
    next => exact hinv.sendAt (by rw [hpoint]; rfl) rfl (loaded_of_none hsender)
  next hpoint =>
    rw [hpoint] at hsender
    refine hinv.sendAt (by rw [hpoint]; rfl) rfl ⟨hsender, ?_⟩
    intro entry hfront
    exact List.head?_eq_some_iff.mp hfront
  next hpoint =>
    refine hinv.sendQuiet ⟨rfl, rfl, rfl, by rw [hpoint]; rfl, rfl⟩ rfl ?_
    exact loaded_of_none rfl
  next qmSend hpoint => exact hinv.setBuffer hpoint
  next hpoint =>
    rw [hpoint] at hsender
    split
    next => exact hinv.sendAt (by rw [hpoint]; rfl) rfl hsender
    next => exact hinv.sendAt (by rw [hpoint]; rfl) rfl hsender
  next hpoint =>
    rw [hpoint] at hsender
    exact hinv.copyBytes (by rw [hpoint]; rfl) hsender
  next hpoint =>
    rw [hpoint] at hsender
    exact hinv.copyBytes (by rw [hpoint]; rfl) hsender
  next hpoint =>
    rw [hpoint] at hsender
    exact hinv.copyBytes (by rw [hpoint]; rfl) hsender.1
  next hpoint =>
    rw [hpoint] at hsender
    exact hinv.copyBytes (by rw [hpoint]; rfl) hsender
  next => exact hinv
  next =>
    -- what is left are the points of ProcessorSend
    by_cases hpoint : s.ext.sender = .close
    · have hclose := hinv.senderClose hpoint fun hopen => hclear ⟨hpoint, hopen⟩
      simpa [ClientThreads.processorSend, hpoint] using hclose
    · refine hinv.processorSend answer hpoint ?_ ?_
      · cases hrest : s.ext.sender <;> simp_all [senderFlight]
      · cases hrest : s.ext.sender with
        | setBuffer qmSend => cases qmSend <;> simp_all
        | _ => simp_all [SenderHolds]

/-! ## The receiver and the caller -/

theorem Inv.receiverStep (hinv : s.Inv) (closes : Bool) (hclear : s.Clear (.receiver closes)) :
    Inv (ClientThreads.receiverStep closes s) := by
  have hmove : ∀ point, Inv (recvAt s point) := fun point =>
    hinv.sendQuiet ⟨rfl, rfl, rfl, rfl, rfl⟩ rfl hinv.sender
  unfold ClientThreads.receiverStep
  split
  next =>
    split
    next => exact hinv
    next => exact hmove _
  next => split <;> exact hmove _
  next => split <;> exact hmove _
  next hpoint => exact hinv.receiverClose fun hopen => hclear ⟨hpoint, hopen⟩

/-- A push does not change what is at the front. -/
theorem SenderHolds.push {point : SenderPoint} (hsender : s.SenderHolds point) {qmSend : QMSend}
    (hqueue : t.sendQueue = s.sendQueue.push qmSend) (hmsg : t.oMsg = s.oMsg) :
    t.SenderHolds point := by
  -- an entry at the end of the queue leaves the one at its head
  have hhead : ∀ entry, s.AtHead entry → t.AtHead entry := by
    intro entry hentry
    obtain ⟨rest, hnodes⟩ := hentry
    exact ⟨rest ++ [qmSend], by rw [hqueue, MyQueue.push_nodes, hnodes]; rfl⟩
  have hloaded : s.Loaded → t.Loaded := by
    intro hloaded package hbuf
    rw [hmsg] at hbuf
    obtain ⟨entry, hentry, hdata⟩ := hloaded package hbuf
    exact ⟨entry, hhead entry hentry, hdata⟩
  cases point with
  | pop => exact ⟨hloaded hsender.1, hmsg ▸ hsender.2⟩
  | free popped => exact hsender
  | reset => trivial
  | hasData => exact (congrArg OBuffer.buf hmsg).trans hsender
  | front => exact (congrArg OBuffer.buf hmsg).trans hsender
  | setBuffer loaded =>
      exact ⟨(congrArg OBuffer.buf hmsg).trans hsender.1,
        fun entry hentry => hhead entry (hsender.2 entry hentry)⟩
  | writeBytes data pos writeLen =>
      refine ⟨hloaded hsender.1, ?_⟩
      intro package hdata hlen
      obtain ⟨entry, hentry, hsame⟩ := hsender.2 package hdata hlen
      exact ⟨entry, hhead entry hentry, hsame⟩
  | _ => exact hloaded hsender

/-- The caller only moves on, to a point where it holds no buffer; to the
allocation only with the socket open. -/
theorem Inv.callAt (hinv : s.Inv) {point : CallerPoint} (hfrom : callerFlight s.ext.caller = [])
    (hto : callerFlight point = [])
    (hopen : s.sock = invalidSocket → ∀ data, point ≠ .alloc data) :
    Inv (ClientThreads.callAt s point) := by
  have hquiet : Quiet s (ClientThreads.callAt s point) :=
    ⟨rfl, rfl, rfl, rfl, hto.trans hfrom.symm⟩
  refine ⟨hquiet.owns hinv.owns, hinv.sender, fun hclosed => ?_⟩
  obtain ⟨hnodes, _⟩ := hinv.emptied hclosed
  refine ⟨hnodes, hopen hclosed, ?_⟩
  intro qmSend hpush
  have hpoint : point = .push qmSend := hpush
  simp [hpoint, callerFlight] at hto

theorem Inv.alloc (hinv : s.Inv) {data : List Byte} (hpoint : s.ext.caller = .alloc data) :
    Inv (ClientThreads.callAt { s with memoryPool := (s.memoryPool.alloc data.length).2 }
      (.push ⟨data.length, (s.memoryPool.alloc data.length).1, data⟩)) := by
  refine ⟨⟨trivial, ?_⟩, hinv.sender, fun hclosed => ?_⟩
  · have haccounts := hinv.owns.accounts
    rw [owned_eq, hpoint] at haccounts
    have hmore := haccounts.alloc data.length
    rw [List.append_assoc, List.append_assoc] at hmore
    exact hmore
  · exact absurd hpoint ((hinv.emptied hclosed).2.1 data)

theorem Inv.push (hinv : s.Inv) {qmSend : QMSend} (hpoint : s.ext.caller = .push qmSend) :
    Inv (ClientThreads.callAt { s with sendQueue := s.sendQueue.push qmSend } .idle) := by
  refine ⟨⟨trivial, ?_⟩, hinv.sender.push rfl rfl, fun hclosed => ?_⟩
  · have haccounts := hinv.owns.accounts
    rw [owned_eq, hpoint] at haccounts
    rw [owned_eq, Endpoint.queued]
    refine haccounts.perm ?_
    simp only [ClientThreads.callAt, MyQueue.push_nodes, List.map_append, List.map_cons,
      List.map_nil, callerFlight, List.append_nil, List.append_assoc]
    exact List.perm_append_comm.append_left _
  · exact absurd hpoint ((hinv.emptied hclosed).2.2 qmSend)

theorem Inv.callerStep (hinv : s.Inv) (data : List Byte) :
    Inv (ClientThreads.callerStep data s) := by
  unfold ClientThreads.callerStep
  split
  next hpoint => exact hinv.callAt (by rw [hpoint]; rfl) rfl (by simp)
  next hpoint =>
    split
    next => exact hinv.callAt (by rw [hpoint]; rfl) rfl (by simp)
    next => exact hinv.callAt (by rw [hpoint]; rfl) rfl (by simp)
  next hpoint =>
    split
    next => exact hinv.callAt (by rw [hpoint]; rfl) rfl (by simp)
    next hopen => exact hinv.callAt (by rw [hpoint]; rfl) rfl fun hclosed => absurd hclosed hopen
  next hpoint => exact hinv.alloc hpoint
  next hpoint => exact hinv.push hpoint

/-! ## Every run -/

theorem new_inv (sock : Socket) (sendBuf recvBuf package : Memory Byte)
    (hsock : sock ≠ invalidSocket) : Inv (new sock sendBuf recvBuf package) :=
  ⟨⟨trivial, PoolLog.accounts_new⟩, loaded_of_none rfl, fun hclosed => absurd hclosed hsock⟩

theorem Inv.step (hinv : s.Inv) (hclear : s.Clear label) : Inv (ClientThreads.step s label) := by
  cases label with
  | sender answer => exact hinv.senderStep answer hclear
  | receiver closes => exact hinv.receiverStep closes hclear
  | caller data => exact hinv.callerStep data

/-- As long as no `Close` falls into a window of another thread, every buffer is
freed once and after its last use, and none is left behind. -/
theorem buffers_safe (hreach : (machine.restrict Clear).Reachable s) : s.BuffersSafe := by
  have hinitial : ∀ s, (machine.restrict Clear).initial s → Inv s := by
    intro s hinitial
    obtain ⟨sock, sendBuf, recvBuf, package, hsock, rfl⟩ := hinitial
    exact new_inv sock sendBuf recvBuf package hsock
  have hstep : ∀ s label next, Inv s → (machine.restrict Clear).step s label next → Inv next := by
    intro s label next hinv hstep
    obtain ⟨hclear, hnext⟩ := hstep
    rw [show next = ClientThreads.step s label from hnext]
    exact hinv.step hclear
  have hinv := Machine.Reachable.invariant hinitial hstep hreach
  exact hinv.safe

/-! ## Closing in a window -/

theorem clear_of_point (hsender : s.ext.sender ≠ .close) (hreceiver : s.ext.receiver ≠ .close) :
    s.Clear label := by
  intro hcloses
  cases label with
  | sender answer => exact absurd hcloses.1 hsender
  | receiver closes => exact absurd hcloses.1 hreceiver
  | caller data => exact hcloses.elim

theorem clear_of_idle (hsender : s.ext.sender = .idle) (hcaller : s.ext.caller = .idle) :
    s.Clear label := by
  intro _ hwindow
  cases hwindow with
  | copying hpoint _ => simp [hsender] at hpoint
  | popping hpoint => simp [hsender] at hpoint
  | loading hpoint => simp [hsender] at hpoint
  | allocating hpoint => simp [hcaller] at hpoint
  | pushing hpoint => simp [hcaller] at hpoint

/-- The connected client after these actions. -/
def ran (labels : List ThreadLabel) : ClientThreads :=
  labels.foldl step (new 5 (fun _ => 0) (fun _ => 0) (fun _ => 0))

theorem ran_reachable (labels : List ThreadLabel) : machine.Reachable (ran labels) := by
  have hsteps : ∀ s, machine.Reachable s → machine.Reachable (labels.foldl step s) := by
    induction labels with
    | nil =>
        intro s hreach
        exact hreach
    | cons label labels ih =>
        intro s hreach
        exact ih _ (hreach.next rfl)
  exact hsteps _ (.start ⟨5, _, _, _, by decide, rfl⟩)

/-- A message of one byte is queued, and the receiver stands in front of `Close`. -/
def closing : List ThreadLabel :=
  List.replicate 5 (.caller [7]) ++ List.replicate 3 (.receiver true)

theorem closing_reachable : (machine.restrict Clear).Reachable (ran closing) := by
  have hmove : ∀ s label, (machine.restrict Clear).Reachable s → s.ext.sender ≠ .close →
      s.ext.receiver ≠ .close → (machine.restrict Clear).Reachable (step s label) :=
    fun s label hreach hsender hreceiver => hreach.next ⟨clear_of_point hsender hreceiver, rfl⟩
  have hnew : (machine.restrict Clear).Reachable (ran []) := .start ⟨5, _, _, _, by decide, rfl⟩
  have htested := hmove _ (.caller [7]) (hmove _ (.caller [7]) (hmove _ (.caller [7]) hnew
    nofun nofun) nofun nofun) nofun nofun
  have hpushed := hmove _ (.caller [7]) (hmove _ (.caller [7]) htested nofun nofun) nofun nofun
  exact hmove _ (.receiver true) (hmove _ (.receiver true) (hmove _ (.receiver true) hpushed
    nofun nofun) nofun nofun) nofun nofun

/-- Nobody is in a window: the queued buffer is freed by the `Close`. -/
theorem buffers_safe_queued :
    let s := ran (closing ++ [.receiver true])
    s.sock = invalidSocket ∧ s.memoryPool.allocated = [(0, 1)] ∧ ¬ s.memoryPool.Outstanding 0 := by
  have hclose : (machine.restrict Clear).step (ran closing) (.receiver true)
      (ran (closing ++ [.receiver true])) := ⟨clear_of_idle rfl rfl, rfl⟩
  have hreach := closing_reachable.next hclose
  exact ⟨rfl, rfl, (buffers_safe hreach).released rfl rfl 0⟩

/-- `Close` between the look into `_oMsg` and the copying. -/
def closeAtCopy : List ThreadLabel :=
  closing ++ List.replicate 11 (.sender .notWritable) ++ [.receiver true]

/-- `Close` between the test that a buffer is loaded and `pop`. -/
def closeAtPop : List ThreadLabel :=
  closing ++ List.replicate 16 (.sender .notWritable) ++ [.receiver true, .sender .notWritable]

/-- `Close` between the socket test of `SendData` and `push`. -/
def closeAtPush : List ThreadLabel :=
  List.replicate 3 (.caller [7]) ++ List.replicate 4 (.receiver true) ++
    List.replicate 2 (.caller [7])

/-- The sender reads a freed buffer, frees a null pointer, or the caller's buffer
is left behind. -/
theorem unsafe_closes :
    (machine.Reachable (ran closeAtCopy) ∧ ¬ (ran closeAtCopy).BuffersSafe) ∧
    (machine.Reachable (ran closeAtPop) ∧ ¬ (ran closeAtPop).BuffersSafe) ∧
    machine.Reachable (ran closeAtPush) ∧ ¬ (ran closeAtPush).BuffersSafe := by
  refine ⟨⟨ran_reachable _, ?_⟩, ⟨ran_reachable _, ?_⟩, ran_reachable _, ?_⟩
  · intro hsafe
    have hlive := hsafe.noStaleRead ⟨0, [7]⟩ 0 1 rfl (by decide)
    have hevents : (ran closeAtCopy).memoryPool.events = [.alloc 0 1, .free 0 (some 1)] := rfl
    simp [PoolLog.Outstanding, hevents] at hlive
  · intro hsafe
    exact hsafe.noNullFree none rfl rfl
  · intro hsafe
    have hevents : (ran closeAtPush).memoryPool.events = [.alloc 0 1] := rfl
    refine hsafe.released rfl rfl 0 ?_
    simp [PoolLog.Outstanding, hevents]

end SelectNet.ClientThreads
