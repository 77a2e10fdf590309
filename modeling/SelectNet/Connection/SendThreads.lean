import SelectNet.Allocation.CloseRaces
import SelectNet.CommonLib.SendLoop

/-!
# The send path across threads

One thread sends, others queue messages and close. Between two of its actions the
sender may have bytes in two places or in none. Settling what it has begun leaves
an endpoint as between two calls, and every action moves that endpoint the way the
send loops do.
-/

namespace SelectNet

/-- The threads, and the messages that have been queued. -/
structure Sending where
  threads : ClientThreads
  sent : List (List Byte)

/-- The room that was read in front of `ProcessorSend` is none. -/
def SendCaller.Full : SendCaller → Prop
  | .full canWrite => canWrite = 0
  | .flush => True

/-- What a length of the copying is. -/
structure Copies (oMsg : OBuffer Package) (ioSend : IOBuffer) (writeLen : Int) : Prop where
  nonneg : 0 ≤ writeLen
  le_canRead : writeLen ≤ oMsg.canRead
  le_canWrite : writeLen ≤ ioSend.canWrite

namespace ClientThreads

/-- What a step queues: `SendMsg` returns 0 behind it. -/
def queues (s : ClientThreads) (label : ThreadLabel) : List (List Byte) :=
  match label, s.ext.caller with
  | .caller _, .push qmSend => [qmSend.data.bytes]
  | _, _ => []

end ClientThreads

/-- Any interleaving of the threads' actions, with the history of the queue. -/
def Sending.machine : Machine Sending ThreadLabel where
  initial s := ∃ threads, ClientThreads.machine.initial threads ∧ s = ⟨threads, []⟩
  step s label next := ClientThreads.machine.step s.threads label next.threads ∧
    next.sent = s.sent ++ s.threads.queues label

namespace ClientThreads

open Endpoint (Kept SameSend SendInv)

variable {s t : ClientThreads} {stream : List Byte} {point : SenderPoint}

/-! ## What the sender has begun -/

/-- The endpoint once the sender has done what it has begun. -/
def settled (s : ClientThreads) : ClientThreads :=
  match s.ext.sender with
  | .moveReadPos _ sendLen =>
      let moved := { s.ioSend with curReadPos := s.ioSend.curReadPos + sendLen }
      { s with ioSend := moved.moveDataToFront }
  | .moveDataToFront _ => { s with ioSend := s.ioSend.moveDataToFront }
  | .advance writeLen => { s with oMsg := s.oMsg.moveReadPos writeLen }
  | .free _ | .reset => { s with oMsg := .setBuffer none 0 }
  | _ => s

/-- What the locals of the sender are where it stands. No assertion has failed. -/
def At (s : ClientThreads) : SenderPoint → Prop
  | .select caller | .totalLen caller _ => caller.Full
  | .send caller _ totalLen => caller.Full ∧ totalLen = s.ioSend.canRead
  | .moveReadPos caller sendLen =>
      caller.Full ∧ s.ioSend.Valid ∧ (sendLen : Int) ≤ s.ioSend.canRead
  | .moveDataToFront caller => caller.Full ∧ s.ioSend.Valid
  | .canRead canWrite => 0 ≤ canWrite ∧ canWrite ≤ s.ioSend.canWrite
  | .readBytes writeLen => Copies s.oMsg s.ioSend writeLen
  | .writeBytes data pos writeLen =>
      Copies s.oMsg s.ioSend writeLen ∧ data = s.oMsg.buf ∧ pos = s.oMsg.pos
  | .getBuffer => s.oMsg.canRead ≤ 0
  | .pop => s.oMsg.canRead ≤ 0 ∧ s.oMsg.buf ≠ none
  | .hasData => s.oMsg.buf = none
  | .front => s.oMsg.buf = none ∧ s.sendQueue.nodes ≠ []
  | .setBuffer qmSend => s.oMsg.buf = none ∧ qmSend.isSome ∧ qmSend = s.sendQueue.nodes.head?
  | .aborted => False
  | _ => True

/-- The settled endpoint keeps the invariant, and all bytes of the stream. -/
structure Flows (s : ClientThreads) (stream : List Byte) : Prop where
  inv : s.settled.SendInv
  stream_eq : s.settled.accepted ++ s.settled.outgoing = stream
  at_point : s.At s.ext.sender

theorem Flows.kept {u : ClientThreads} (hflows : s.Flows stream) (hkept : Kept s.settled u)
    (hsame : SameSend u t.settled) (hat : t.At t.ext.sender) : t.Flows stream :=
  ⟨hsame.inv hkept.inv, hsame.stream.trans (hkept.stream.trans hflows.stream_eq), hat⟩

/-- An action that the settled endpoint does not notice. -/
theorem Flows.still (hflows : s.Flows stream) (hsame : SameSend s.settled t.settled)
    (hat : t.At t.ext.sender) : t.Flows stream :=
  hflows.kept hflows.inv.kept hsame hat

/-- An action that moves bytes, begun where nothing else is. -/
theorem Flows.moved {u : ClientThreads} (hflows : s.Flows stream) (hsettled : s.settled = s)
    (hkept : Kept s u) (hsame : SameSend u t.settled) (hat : t.At t.ext.sender) :
    t.Flows stream :=
  hflows.kept (by rwa [hsettled]) hsame hat

theorem settled_kernel (s : ClientThreads) : s.settled.kernel = s.kernel := by
  unfold settled
  split <;> rfl

/-- Everything the kernel has taken is the front of the stream. -/
theorem Flows.prefix (hflows : s.Flows stream) : s.accepted <+: stream := by
  rw [← hflows.stream_eq, Endpoint.accepted, Endpoint.accepted, settled_kernel]
  exact List.prefix_append _ _

/-- Between two points where nothing is begun. -/
theorem Flows.sendAt (hflows : s.Flows stream) (hsettled : s.settled = s)
    (hnext : (ClientThreads.sendAt s point).settled = ClientThreads.sendAt s point)
    (hat : s.At point) : (ClientThreads.sendAt s point).Flows stream := by
  refine hflows.still ?_ ?_
  · rw [hsettled, hnext]
    exact ⟨rfl, rfl, rfl, rfl⟩
  · cases point <;> exact hat

/-! ## The actions of the sender -/

theorem Flows.startSender (hflows : s.Flows stream) (hsettled : s.settled = s)
    (hopen : s.sock ≠ invalidSocket)
    (hnext : (ClientThreads.sendAt s point).settled = ClientThreads.sendAt s point)
    (hat : s.At point) : (ClientThreads.startSender s point).Flows stream := by
  rw [ClientThreads.startSender, if_neg hopen]
  exact hflows.sendAt hsettled hnext hat

/-- `send` takes bytes from the front of the buffer, which is not moved yet. -/
theorem Flows.send (hflows : s.Flows stream) {caller : SendCaller} {count : Nat}
    (hpoint : s.ext.sender = .send caller count s.ioSend.canRead) (hfull : caller.Full)
    (hopen : s.sock ≠ invalidSocket) (answer : SendAnswer) :
    (ClientThreads.senderStep answer s).Flows stream := by
  have hsettled : s.settled = s := by rw [settled, hpoint]
  have hinv := hflows.inv
  rw [hsettled] at hinv
  simp only [ClientThreads.senderStep, hpoint, ClientThreads.processorSend, if_neg hopen]
  split
  next hnone =>
    rw [hnone]
    have hkept := hinv.taken hinv.io_valid (List.drop_zero).symm rfl hinv.io_front
    exact hflows.moved hsettled hkept ⟨rfl, rfl, rfl, rfl⟩ trivial
  next hsome =>
    have hle : ((min count s.ioSend.canRead.toNat : Nat) : Int) ≤ s.ioSend.canRead := by omega
    obtain ⟨moved, hmove, hmoved, hunread, hend⟩ :=
      IOBuffer.moveReadPos_spec hinv.io_valid (Int.natCast_nonneg _) hle
    rw [IOBuffer.moveReadPos, if_neg (by omega)] at hmove
    obtain rfl := Option.some.inj hmove
    rw [Int.toNat_natCast] at hunread
    obtain ⟨hvalid, hsame, hsameEnd, hfront, _⟩ := IOBuffer.moveDataToFront_spec hmoved
    have hkept := hinv.taken hvalid (hsame.trans hunread) (hsameEnd.trans hend) hfront
    exact hflows.moved hsettled hkept ⟨rfl, rfl, rfl, rfl⟩ ⟨hfull, hinv.io_valid, hle⟩

/-- The other actions of `ProcessorSend`, short of `Close`. -/
theorem Flows.processorSend (hflows : s.Flows stream) (answer : SendAnswer)
    (hopen : s.sock ≠ invalidSocket) (hclose : s.ext.sender ≠ .close) :
    (ClientThreads.processorSend answer s).Flows stream := by
  have hat := hflows.at_point
  unfold ClientThreads.processorSend
  split
  next caller hpoint =>
    rw [hpoint] at hat
    have hsettled : s.settled = s := by rw [settled, hpoint]
    split
    next => exact hflows.sendAt hsettled rfl trivial
    next => exact hflows.sendAt hsettled rfl trivial
    next => exact hflows.sendAt hsettled rfl hat
  next caller count hpoint =>
    rw [hpoint] at hat
    have hsettled : s.settled = s := by rw [settled, hpoint]
    exact hflows.sendAt hsettled rfl ⟨hat, rfl⟩
  next caller count totalLen hpoint =>
    rw [hpoint] at hat
    obtain ⟨hfull, rfl⟩ := hat
    have hsend := hflows.send hpoint hfull hopen answer
    simpa only [ClientThreads.senderStep, hpoint, ClientThreads.processorSend] using hsend
  next caller sendLen hpoint =>
    rw [hpoint] at hat
    obtain ⟨hfull, hvalid, hle⟩ := hat
    have hmove : s.ioSend.moveReadPos sendLen = some _ := if_neg (Int.not_lt.mpr hle)
    simp only [hmove]
    refine hflows.still ?_ ⟨hfull, hvalid.advance (Int.natCast_nonneg _) hle⟩
    rw [settled, hpoint]
    exact ⟨rfl, rfl, rfl, rfl⟩
  next caller hpoint =>
    rw [hpoint] at hat
    obtain ⟨hfull, hvalid⟩ := hat
    have hroom := (IOBuffer.moveDataToFront_spec hvalid).1.write_le_end
    simp only
    split
    next canWrite =>
      refine hflows.still ?_ ?_
      · rw [settled, hpoint]
        exact ⟨rfl, rfl, rfl, rfl⟩
      · have hzero : canWrite = 0 := hfull
        simp only [ClientThreads.sendAt, At, IOBuffer.canWrite]
        omega
    next =>
      refine hflows.still ?_ trivial
      rw [settled, hpoint]
      exact ⟨rfl, rfl, rfl, rfl⟩
  next hpoint =>
    have hsettled : s.settled = s := by rw [settled, hpoint]
    split
    next => exact hflows.sendAt hsettled rfl trivial
    next => exact hflows.sendAt hsettled rfl trivial
  next hpoint => exact absurd hpoint hclose
  next => exact hflows

/-- The actions of the copying. The bytes are in the buffer before the position of
the message has moved. -/
theorem Flows.copyBytes (hflows : s.Flows stream) : (ClientThreads.copyBytes s).Flows stream := by
  have hat := hflows.at_point
  unfold ClientThreads.copyBytes
  split
  next canWrite hpoint =>
    rw [hpoint] at hat
    obtain ⟨hnonneg, hroom⟩ := hat
    have hsettled : s.settled = s := by rw [settled, hpoint]
    simp only
    split
    next hdone => exact hflows.sendAt hsettled rfl hdone
    next hmore =>
      refine hflows.sendAt hsettled rfl ?_
      constructor <;> split <;> omega
  next writeLen hpoint =>
    rw [hpoint] at hat
    have hsettled : s.settled = s := by rw [settled, hpoint]
    rw [if_neg (Int.not_lt.mpr hat.le_canRead)]
    exact hflows.sendAt hsettled rfl ⟨hat, rfl, rfl⟩
  next data pos writeLen hpoint =>
    rw [hpoint] at hat
    obtain ⟨hcopies, rfl, rfl⟩ := hat
    have hsettled : s.settled = s := by rw [settled, hpoint]
    have hinv := hflows.inv
    rw [hsettled] at hinv
    obtain ⟨io, hread, hkept⟩ :=
      Endpoint.copy_spec hinv hcopies.nonneg hcopies.le_canRead hcopies.le_canWrite
    rw [OBuffer.readBytesInto, if_neg (Int.not_lt.mpr hcopies.le_canRead)] at hread
    obtain ⟨io', hwrite, hpair⟩ := Option.map_eq_some_iff.mp hread
    obtain ⟨_, rfl⟩ := Prod.mk.inj hpair
    have hbytes : s.ioSend.writeBytes ((OBuffer.mk s.oMsg.buf s.oMsg.pos 0).memory.read
        s.oMsg.pos.toNat writeLen.toNat) = some io' := hwrite
    simp only [hbytes]
    exact hflows.moved hsettled hkept ⟨rfl, rfl, rfl, rfl⟩ trivial
  next writeLen hpoint =>
    refine hflows.still ?_ trivial
    rw [settled, hpoint]
    exact ⟨rfl, rfl, rfl, rfl⟩
  next => exact hflows

/-- The copied message leaves the queue; `_oMsg` still points at its data. -/
theorem Flows.pop (hflows : s.Flows stream) (hpoint : s.ext.sender = .pop) :
    (ClientThreads.sendAt { s with sendQueue := s.sendQueue.pop.2 }
      (.free s.sendQueue.pop.1)).Flows stream := by
  have hat := hflows.at_point
  rw [hpoint] at hat
  obtain ⟨hdone, hbuf⟩ := hat
  have hsettled : s.settled = s := by rw [settled, hpoint]
  have hinv := hflows.inv
  rw [hsettled] at hinv
  obtain ⟨package, hpackage⟩ := Option.ne_none_iff_exists'.mp hbuf
  obtain ⟨entry, rest, hnodes, _, _⟩ := Endpoint.loaded_cons hinv hpackage
  obtain ⟨u, hfinish, hkept, _⟩ := Endpoint.finishMsg_spec hinv hdone
  rw [Endpoint.finishMsg_of_cons hpackage hnodes] at hfinish
  obtain rfl := Option.some.inj hfinish
  rw [MyQueue.pop_of_cons hnodes]
  exact hflows.moved hsettled hkept ⟨rfl, rfl, rfl, rfl⟩ trivial

/-- The front of the queue is loaded. -/
theorem Flows.setBuffer (hflows : s.Flows stream) {qmSend : QMSend}
    (hpoint : s.ext.sender = .setBuffer (some qmSend)) :
    (ClientThreads.sendAt { s with oMsg := .setBuffer (some qmSend.data) qmSend.size }
      .canWrite).Flows stream := by
  have hat := hflows.at_point
  rw [hpoint] at hat
  obtain ⟨hbuf, _, hfront⟩ := hat
  have hsettled : s.settled = s := by rw [settled, hpoint]
  have hinv := hflows.inv
  rw [hsettled] at hinv
  obtain ⟨rest, hnodes⟩ := List.head?_eq_some_iff.mp hfront.symm
  have hload := Endpoint.loadMsg_of_cons hinv.counted hnodes 0
  rcases Endpoint.loadMsg_spec hinv hbuf 0 with hleave | ⟨u, hagain, hkept⟩
  · cases hload.symm.trans hleave
  · cases hload.symm.trans hagain
    exact hflows.moved hsettled hkept ⟨rfl, rfl, rfl, rfl⟩ trivial

/-- Every action of the sender short of `Close`. -/
theorem Flows.senderStep (hflows : s.Flows stream) (answer : SendAnswer)
    (hopen : s.sock ≠ invalidSocket) (hclose : s.ext.sender ≠ .close) :
    (ClientThreads.senderStep answer s).Flows stream := by
  have hat := hflows.at_point
  unfold ClientThreads.senderStep
  split
  next hpoint =>
    exact hflows.startSender (by rw [settled, hpoint]) hopen rfl trivial
  next hpoint =>
    exact hflows.startSender (by rw [settled, hpoint]) hopen rfl trivial
  next hpoint =>
    have hsettled : s.settled = s := by rw [settled, hpoint]
    have hinv := hflows.inv
    rw [hsettled] at hinv
    simp only
    split
    next hfull => exact hflows.sendAt hsettled rfl (hinv.full hfull).1
    next hroom => exact hflows.sendAt hsettled rfl ⟨by omega, Int.le_refl _⟩
  next hpoint =>
    rw [hpoint] at hat
    have hsettled : s.settled = s := by rw [settled, hpoint]
    split
    next hsome => exact hflows.sendAt hsettled rfl ⟨hat, Option.isSome_iff_ne_none.mp hsome⟩
    next hnone =>
      have hnull : s.oMsg.buf = none := by simpa using hnone
      exact hflows.sendAt hsettled rfl hnull
  next hpoint => exact hflows.pop hpoint
  next qmSend hpoint =>
    refine hflows.still ?_ trivial
    rw [settled, hpoint]
    cases qmSend with
    | none => exact ⟨rfl, rfl, rfl, rfl⟩
    | some qmSend => exact ⟨rfl, rfl, rfl, rfl⟩
  next hpoint =>
    refine hflows.still ?_ rfl
    rw [settled, hpoint]
    exact ⟨rfl, rfl, rfl, rfl⟩
  next hpoint =>
    rw [hpoint] at hat
    have hsettled : s.settled = s := by rw [settled, hpoint]
    have hcounted := hflows.inv.counted
    rw [hsettled] at hcounted
    split
    next hdata =>
      refine hflows.sendAt hsettled rfl ⟨hat, fun hnodes => ?_⟩
      rw [hcounted.hasData_eq_false_iff.mpr hnodes] at hdata
      cases hdata
    next => exact hflows.sendAt hsettled rfl trivial
  next hpoint =>
    rw [hpoint] at hat
    obtain ⟨hbuf, hnodes⟩ := hat
    exact hflows.sendAt (by rw [settled, hpoint]) rfl
      ⟨hbuf, List.isSome_head?.mpr hnodes, rfl⟩
  next hpoint =>
    -- nobody else pops what `hasData` has seen
    rw [hpoint] at hat
    cases hat.2.1
  next qmSend hpoint => exact hflows.setBuffer hpoint
  next hpoint =>
    have hsettled : s.settled = s := by rw [settled, hpoint]
    split
    next => exact hflows.sendAt hsettled rfl trivial
    next => exact hflows.sendAt hsettled rfl trivial
  next => exact hflows.copyBytes
  next => exact hflows.copyBytes
  next => exact hflows.copyBytes
  next => exact hflows.copyBytes
  next => exact hflows
  next => exact hflows.processorSend answer hopen hclose

/-! ## The other threads -/

/-- The locals of the sender speak of the send side only, and of the queue only
what pushing keeps. -/
theorem At.congr (hat : s.At point) (hio : t.ioSend = s.ioSend) (hmsg : t.oMsg = s.oMsg)
    (hqueue : s.sendQueue.nodes <+: t.sendQueue.nodes) : t.At point := by
  cases point with
  | send caller count totalLen => exact ⟨hat.1, hio ▸ hat.2⟩
  | moveReadPos caller sendLen => exact ⟨hat.1, hio ▸ hat.2⟩
  | moveDataToFront caller => exact ⟨hat.1, hio ▸ hat.2⟩
  | canRead canWrite => exact ⟨hat.1, hio ▸ hat.2⟩
  | readBytes writeLen =>
      rw [At, hmsg, hio]
      exact hat
  | writeBytes data pos writeLen =>
      rw [At, hmsg, hio]
      exact hat
  | getBuffer =>
      rw [At, hmsg]
      exact hat
  | pop =>
      rw [At, hmsg]
      exact hat
  | hasData =>
      rw [At, hmsg]
      exact hat
  | front =>
      obtain ⟨hbuf, hnodes⟩ := hat
      exact ⟨(congrArg OBuffer.buf hmsg).trans hbuf, hqueue.ne_nil hnodes⟩
  | setBuffer qmSend =>
      obtain ⟨hbuf, hsome, hfront⟩ := hat
      refine ⟨(congrArg OBuffer.buf hmsg).trans hbuf, hsome, ?_⟩
      obtain ⟨rest, hrest⟩ := hqueue
      rw [← hrest, List.head?_append_of_ne_nil, hfront]
      rw [hfront] at hsome
      exact List.isSome_head?.mp hsome
  | _ => exact hat

/-- What is settled depends on the sender, the buffer and the message. -/
theorem settled_congr (hio : t.ioSend = s.ioSend) (hmsg : t.oMsg = s.oMsg)
    (hsender : t.ext.sender = s.ext.sender) :
    t.settled.ioSend = s.settled.ioSend ∧ t.settled.oMsg = s.settled.oMsg := by
  unfold settled
  rw [hsender]
  split
  · exact ⟨by simp only [hio], hmsg⟩
  · exact ⟨by simp only [hio], hmsg⟩
  · exact ⟨hio, by simp only [hmsg]⟩
  · exact ⟨hio, rfl⟩
  · exact ⟨hio, rfl⟩
  · exact ⟨hio, hmsg⟩

theorem settled_sendQueue (s : ClientThreads) : s.settled.sendQueue = s.sendQueue := by
  unfold settled
  split <;> rfl

/-- A step that leaves the send side and the sender where they are. -/
theorem Flows.beside (hflows : s.Flows stream) (hsame : SameSend s t)
    (hsender : t.ext.sender = s.ext.sender) : t.Flows stream := by
  obtain ⟨hio, hmsg⟩ := settled_congr hsame.ioSend hsame.oMsg hsender
  refine hflows.still ⟨?_, hio, hmsg, ?_⟩ ?_
  · rw [settled_sendQueue, settled_sendQueue, hsame.sendQueue]
  · rw [settled_kernel, settled_kernel, hsame.kernel]
  · rw [hsender]
    exact hflows.at_point.congr hsame.ioSend hsame.oMsg (hsame.sendQueue ▸ List.prefix_rfl)

/-- A message that is queued comes behind everything else, wherever the sender is. -/
theorem Flows.push (hflows : s.Flows stream) {qmSend : QMSend}
    (hsized : qmSend.data.bytes.length = qmSend.size) :
    (callAt { s with sendQueue := s.sendQueue.push qmSend } .idle).Flows
      (stream ++ qmSend.data.bytes) := by
  obtain ⟨t, ht⟩ : ∃ t, callAt { s with sendQueue := s.sendQueue.push qmSend } .idle = t :=
    ⟨_, rfl⟩
  have hqueue : t.sendQueue = s.sendQueue.push qmSend := ht ▸ rfl
  have hsender : t.ext.sender = s.ext.sender := ht ▸ rfl
  have hio : t.ioSend = s.ioSend := ht ▸ rfl
  have hmsg : t.oMsg = s.oMsg := ht ▸ rfl
  have hkernel : t.settled.kernel = s.settled.kernel := by
    rw [settled_kernel, settled_kernel]
    exact ht ▸ rfl
  have hpushed : t.settled.sendQueue = s.settled.sendQueue.push qmSend := by
    rw [settled_sendQueue, settled_sendQueue, hqueue]
  obtain ⟨hsettledIo, hsettledMsg⟩ := settled_congr hio hmsg hsender
  rw [ht]
  refine ⟨hflows.inv.push hsized hkernel hsettledIo hsettledMsg hpushed, ?_, ?_⟩
  · rw [Endpoint.stream_push hflows.inv qmSend _ hkernel hsettledIo hsettledMsg hpushed,
      hflows.stream_eq]
    rfl
  · rw [hsender]
    exact hflows.at_point.congr hio hmsg (hqueue ▸ List.prefix_append _ _)

/-! ## Every interleaving -/

/-- The step leaves the socket closed, and nothing has been sent in it. -/
structure StaysClosed (s t : ClientThreads) : Prop where
  sock : t.sock = invalidSocket
  accepted : t.accepted = s.accepted

theorem processorSend_closed (hclosed : s.sock = invalidSocket) (answer : SendAnswer) :
    StaysClosed s (processorSend answer s) := by
  unfold processorSend
  split
  next => split <;> exact ⟨hclosed, rfl⟩
  next => exact ⟨hclosed, rfl⟩
  next caller count totalLen _ =>
    -- `send` on the closed socket takes nothing
    simp only [if_pos hclosed, if_true]
    refine ⟨hclosed, ?_⟩
    simp [Endpoint.accepted, sendAt, SendCall.taken]
  next => split <;> exact ⟨hclosed, rfl⟩
  next => simp only; split <;> exact ⟨hclosed, rfl⟩
  next => split <;> exact ⟨hclosed, rfl⟩
  next =>
    rw [close_of_closed hclosed]
    exact ⟨hclosed, rfl⟩
  next => exact ⟨hclosed, rfl⟩

theorem copyBytes_closed (hclosed : s.sock = invalidSocket) : StaysClosed s (copyBytes s) := by
  unfold copyBytes
  split
  next => simp only; split <;> exact ⟨hclosed, rfl⟩
  next => split <;> exact ⟨hclosed, rfl⟩
  next => simp only; split <;> exact ⟨hclosed, rfl⟩
  next => exact ⟨hclosed, rfl⟩
  next => exact ⟨hclosed, rfl⟩

theorem senderStep_closed (hclosed : s.sock = invalidSocket) (answer : SendAnswer) :
    StaysClosed s (senderStep answer s) := by
  have hstart : ∀ point, StaysClosed s (startSender s point) := by
    intro point
    rw [startSender, if_pos hclosed]
    exact ⟨hclosed, rfl⟩
  unfold senderStep
  split
  next => exact hstart _
  next => exact hstart _
  next => simp only; split <;> exact ⟨hclosed, rfl⟩
  next => split <;> exact ⟨hclosed, rfl⟩
  next => exact ⟨hclosed, rfl⟩
  next qmSend _ => cases qmSend <;> exact ⟨hclosed, rfl⟩
  next => exact ⟨hclosed, rfl⟩
  next => split <;> exact ⟨hclosed, rfl⟩
  next => exact ⟨hclosed, rfl⟩
  next => exact ⟨hclosed, rfl⟩
  next => exact ⟨hclosed, rfl⟩
  next => split <;> exact ⟨hclosed, rfl⟩
  next => exact copyBytes_closed hclosed
  next => exact copyBytes_closed hclosed
  next => exact copyBytes_closed hclosed
  next => exact copyBytes_closed hclosed
  next => exact ⟨hclosed, rfl⟩
  next => exact processorSend_closed hclosed answer

theorem receiverStep_closed (hclosed : s.sock = invalidSocket) (closes : Bool) :
    StaysClosed s (receiverStep closes s) := by
  unfold receiverStep
  split
  next => split <;> exact ⟨hclosed, rfl⟩
  next => split <;> exact ⟨hclosed, rfl⟩
  next => split <;> exact ⟨hclosed, rfl⟩
  next =>
    rw [close_of_closed hclosed]
    exact ⟨hclosed, rfl⟩

theorem callerStep_closed (hclosed : s.sock = invalidSocket) (data : List Byte) :
    StaysClosed s (callerStep data s) := by
  unfold callerStep
  split
  next => exact ⟨hclosed, rfl⟩
  next => split <;> exact ⟨hclosed, rfl⟩
  next => split <;> exact ⟨hclosed, rfl⟩
  next => exact ⟨hclosed, rfl⟩
  next => exact ⟨hclosed, rfl⟩

theorem step_closed (hclosed : s.sock = invalidSocket) (label : ThreadLabel) :
    StaysClosed s (step s label) := by
  cases label with
  | sender answer => exact senderStep_closed hclosed answer
  | receiver closes => exact receiverStep_closed hclosed closes
  | caller data => exact callerStep_closed hclosed data

theorem close_ext (s : ClientThreads) : (close s).ext = s.ext := by
  unfold close
  split
  · obtain ⟨sendQueue, memoryPool, test, hclear, _⟩ := Endpoint.clearSendQueue_spec s.shut
    rw [hclear]
    rfl
  · rfl

/-- The other threads stay where they are while the sender moves. -/
theorem senderStep_caller (s : ClientThreads) (answer : SendAnswer) :
    (senderStep answer s).ext.caller = s.ext.caller := by
  have hstart : ∀ point, (startSender s point).ext.caller = s.ext.caller := by
    intro point
    unfold startSender
    split <;> rfl
  have hcopy : (copyBytes s).ext.caller = s.ext.caller := by
    unfold copyBytes
    split
    next => simp only; split <;> rfl
    next => split <;> rfl
    next => simp only; split <;> rfl
    next => rfl
    next => rfl
  unfold senderStep
  split
  next => exact hstart _
  next => exact hstart _
  next => simp only; split <;> rfl
  next => split <;> rfl
  next => rfl
  next qmSend _ => cases qmSend <;> rfl
  next => rfl
  next => split <;> rfl
  next => rfl
  next => rfl
  next => rfl
  next => split <;> rfl
  next => exact hcopy
  next => exact hcopy
  next => exact hcopy
  next => exact hcopy
  next => rfl
  next =>
    unfold processorSend
    split
    next => split <;> rfl
    next => rfl
    next => simp only; split <;> split <;> rfl
    next => split <;> rfl
    next => simp only; split <;> rfl
    next => split <;> rfl
    next =>
      change (close s).ext.caller = s.ext.caller
      rw [close_ext]
    next => rfl

theorem receiverStep_caller (s : ClientThreads) (closes : Bool) :
    (receiverStep closes s).ext.caller = s.ext.caller := by
  unfold receiverStep
  split
  next => split <;> rfl
  next => split <;> rfl
  next => split <;> rfl
  next =>
    change (close s).ext.caller = s.ext.caller
    rw [close_ext]

/-- `Close` takes nothing back from the kernel. -/
theorem close_closes (hopen : s.sock ≠ invalidSocket) : StaysClosed s (close s) := by
  obtain ⟨sendQueue, memoryPool, test, hclear, _⟩ := Endpoint.clearSendQueue_spec s.shut
  rw [close_of_open hopen, hclear]
  exact ⟨rfl, rfl⟩

end ClientThreads

namespace Sending

open ClientThreads

variable {s next : Sending} {label : ThreadLabel}

/-- What holds of the threads and the history. -/
structure Inv (s : Sending) : Prop where
  sized : ∀ qmSend, s.threads.ext.caller = .push qmSend →
    qmSend.data.bytes.length = qmSend.size
  flows : s.threads.sock ≠ invalidSocket → s.threads.Flows s.sent.flatten
  taken : s.threads.accepted <+: s.sent.flatten

theorem new_inv (sock : Socket) (sendBuf recvBuf package : Memory Byte) :
    Inv ⟨ClientThreads.new sock sendBuf recvBuf package, []⟩ := by
  obtain ⟨hinv, hidle⟩ := Endpoint.fresh_spec
    (s := ClientThreads.new sock sendBuf recvBuf package) rfl rfl
    (show 0 < clientSendBufferSize by decide) rfl rfl
  refine ⟨nofun, fun _ => ⟨hinv, ?_, trivial⟩, List.prefix_rfl⟩
  exact hidle.outgoing_eq hinv

/-- What the caller is about to push is as long as it says. -/
theorem Inv.sized_step (hinv : Inv s) (label : ThreadLabel) :
    ∀ qmSend, (step s.threads label).ext.caller = .push qmSend →
      qmSend.data.bytes.length = qmSend.size := by
  intro qmSend hpush
  cases label with
  | sender answer => exact hinv.sized qmSend ((senderStep_caller _ answer).symm.trans hpush)
  | receiver closes => exact hinv.sized qmSend ((receiverStep_caller _ closes).symm.trans hpush)
  | caller data =>
      simp only [step, callerStep] at hpush
      split at hpush
      next => cases hpush
      next => split at hpush <;> cases hpush
      next => split at hpush <;> cases hpush
      next =>
        cases hpush
        rfl
      next => cases hpush

/-- Behind a `Close` the history may grow, and nothing is sent. -/
theorem Inv.closed (hinv : Inv s) (hclosed : StaysClosed s.threads (step s.threads label)) :
    Inv ⟨step s.threads label, s.sent ++ s.threads.queues label⟩ := by
  refine ⟨hinv.sized_step label, fun hopen => absurd hclosed.sock hopen, ?_⟩
  rw [hclosed.accepted, List.flatten_append]
  exact hinv.taken.trans (List.prefix_append _ _)

theorem Inv.open (hinv : Inv s)
    (hflows : (step s.threads label).Flows (s.sent ++ s.threads.queues label).flatten) :
    Inv ⟨step s.threads label, s.sent ++ s.threads.queues label⟩ :=
  ⟨hinv.sized_step label, fun _ => hflows, hflows.prefix⟩

/-- One action of one thread. -/
theorem Inv.step (hinv : Inv s) (label : ThreadLabel) :
    Inv ⟨ClientThreads.step s.threads label, s.sent ++ s.threads.queues label⟩ := by
  by_cases hsock : s.threads.sock = invalidSocket
  · exact hinv.closed (step_closed hsock label)
  have hflows := hinv.flows hsock
  -- a step of another thread than the caller queues nothing
  have hsame : (s.sent ++ []).flatten = s.sent.flatten := by rw [List.append_nil]
  cases label with
  | sender answer =>
      by_cases hclose : s.threads.ext.sender = .close
      · refine hinv.closed ?_
        have hcloses := close_closes hsock
        simp only [ClientThreads.step, senderStep, hclose, processorSend]
        exact ⟨hcloses.sock, hcloses.accepted⟩
      · refine hinv.open ?_
        rw [show s.threads.queues (.sender answer) = [] from rfl, hsame]
        exact hflows.senderStep answer hsock hclose
  | receiver closes =>
      by_cases hclose : s.threads.ext.receiver = .close
      · refine hinv.closed ?_
        have hcloses := close_closes hsock
        simp only [ClientThreads.step, receiverStep, hclose]
        exact ⟨hcloses.sock, hcloses.accepted⟩
      · refine hinv.open ?_
        rw [show s.threads.queues (.receiver closes) = [] from rfl, hsame]
        have hmove : ∀ point, (recvAt s.threads point).Flows s.sent.flatten := fun point =>
          hflows.beside ⟨rfl, rfl, rfl, rfl⟩ rfl
        simp only [ClientThreads.step, receiverStep]
        split
        next => exact if_neg hsock ▸ hmove _
        next => exact if_neg hsock ▸ hmove _
        next => split <;> exact hmove _
        next hpoint => exact absurd hpoint hclose
  | caller data =>
      refine hinv.open ?_
      have hmove : ∀ point, (callAt s.threads point).Flows s.sent.flatten := fun point =>
        hflows.beside ⟨rfl, rfl, rfl, rfl⟩ rfl
      simp only [ClientThreads.step, callerStep, queues, if_neg hsock]
      split
      next hpoint =>
        rw [hpoint, hsame]
        exact hmove _
      next hpoint =>
        rw [hpoint, hsame]
        exact hmove _
      next hpoint =>
        rw [hpoint, hsame]
        exact hmove _
      next hpoint =>
        rw [hpoint, hsame]
        exact hflows.beside ⟨rfl, rfl, rfl, rfl⟩ rfl
      next qmSend hpoint =>
        rw [hpoint, List.flatten_append, List.flatten_singleton]
        exact hflows.push (hinv.sized qmSend hpoint)

theorem inv_of_reachable (hreach : machine.Reachable s) : Inv s := by
  refine Machine.Reachable.invariant ?_ ?_ hreach
  · intro s hinitial
    obtain ⟨threads, ⟨sock, sendBuf, recvBuf, package, _, rfl⟩, rfl⟩ := hinitial
    exact new_inv sock sendBuf recvBuf package
  · intro s label next hinv hstep
    obtain ⟨hthreads, hsent⟩ := hstep
    rw [show next = ⟨ClientThreads.step s.threads label, s.sent ++ s.threads.queues label⟩ from
      congr (congrArg Sending.mk hthreads) hsent]
    exact hinv.step label

/-- The actions of the threads of a connected client. -/
def ran (labels : List ThreadLabel) : Sending :=
  labels.foldl (fun s label =>
    ⟨ClientThreads.step s.threads label, s.sent ++ s.threads.queues label⟩)
    ⟨ClientThreads.new 5 (fun _ => 0) (fun _ => 0) (fun _ => 0), []⟩

theorem ran_reachable (labels : List ThreadLabel) : machine.Reachable (ran labels) := by
  have hsteps : ∀ s, machine.Reachable s → machine.Reachable (labels.foldl (fun s label =>
      ⟨ClientThreads.step s.threads label, s.sent ++ s.threads.queues label⟩) s) := by
    induction labels with
    | nil => exact fun s hreach => hreach
    | cons label labels ih => exact fun s hreach => ih _ (hreach.next ⟨rfl, rfl⟩)
  exact hsteps _ (.start ⟨_, ⟨5, _, _, _, by decide, rfl⟩, rfl⟩)

end Sending

/-- In every interleaving, closing included, the kernel takes the front of what was
queued, in the order of the calls. As long as the socket is open no assertion of the
sender fails, and between its calls nothing that was queued is missing. -/
theorem threads_send_in_order {threads : ClientThreads} {sent : List (List Byte)}
    (hreach : Sending.machine.Reachable ⟨threads, sent⟩) :
    threads.accepted <+: sent.flatten ∧
      (threads.sock ≠ invalidSocket → threads.ext.sender ≠ .aborted ∧
        (threads.ext.sender = .idle → threads.accepted ++ threads.outgoing = sent.flatten)) := by
  have hinv := Sending.inv_of_reachable hreach
  refine ⟨hinv.taken, fun hopen => ?_⟩
  have hflows := hinv.flows hopen
  constructor
  · intro haborted
    have hat := hflows.at_point
    rw [haborted] at hat
    exact hat
  · intro hidle
    have hstream := hflows.stream_eq
    rwa [show threads.settled = threads by rw [ClientThreads.settled, hidle]] at hstream

set_option maxRecDepth 4000 in
/-- The second message is queued while the first one is being copied. -/
theorem threads_send_in_order_two :
    let s := Sending.ran (List.replicate 5 (.caller [7]) ++
      List.replicate 12 (.sender .notWritable) ++ List.replicate 5 (.caller [8, 9]) ++
      List.replicate 28 (.sender (.writable 2)))
    s.threads.accepted = [7, 8] ∧ s.threads.accepted ++ s.threads.outgoing = s.sent.flatten := by
  intro s
  have hreach : Sending.machine.Reachable ⟨s.threads, s.sent⟩ := Sending.ran_reachable _
  obtain ⟨_, hopen⟩ := threads_send_in_order hreach
  have hidle : s.threads.ext.sender = .idle := rfl
  exact ⟨rfl, (hopen (by decide)).2 hidle⟩

end SelectNet
