import SelectNet.CommonLib.ReceiveThreads
import SelectNet.CommonLib.RecvLoop

/-!
# The receive path across threads

One thread cuts the received bytes into packages and queues them, another delivers
them, and any thread may close. Where the receiver stands says which bytes it has
still to cut, so every action keeps the frames that have been queued in step with
the reference parser.
-/

namespace SelectNet

/-- The handler holds no package there. -/
def OnRunPoint.Bare : OnRunPoint → Prop
  | .copy (some _) | .free _ | .onRecvMsg => False
  | _ => True

namespace ReceiveThreads

variable {s t : ReceiveThreads} {received : List Byte} {frames : List (List Byte)}
  {oRecv : OBuffer (Memory Byte)}

/-! ## Where the receiver is in the stream -/

/-- These frames have been cut off, and the bytes left in the buffer come next. -/
structure Reading (received : List Byte) (frames : List (List Byte))
    (oRecv : OBuffer (Memory Byte)) : Prop where
  valid : oRecv.Valid
  buf : oRecv.buf ≠ none
  cuts : headRule.parse received = (headRule.parse oRecv.unread).after frames

/-- At the position there is a header that says this length. -/
structure Found (received : List Byte) (frames : List (List Byte))
    (oRecv : OBuffer (Memory Byte)) (msgLen : Nat) : Prop extends
    Reading received frames oRecv where
  head : 6 ≤ oRecv.unread.length
  len : ushort oRecv.unread = msgLen
  le : msgLen ≤ packageMaxSize
  pos : 0 < msgLen

/-- What the receiver holds at its point while nothing has been closed under it. -/
def Tracked (s : ReceiveThreads) (frames : List (List Byte)) : ReceivePoint → Prop
  | .idle | .enter | .select | .recv => ∃ rest,
      Retained s.client.recvBuf s.client.retainSize rest ∧
      headRule.parse s.received = ⟨frames, .rest rest⟩
  | .setBuffer nlen => 0 ≤ s.client.retainSize ∧ headRule.parse s.received =
      (headRule.parse (s.client.recvBuf.read 0 (nlen + s.client.retainSize).toNat)).after frames
  | .resetRetain | .canRead | .queueSize => Reading s.received frames s.client.oRecv
  | .readUShort canReadSize => Reading s.received frames s.client.oRecv ∧
      6 ≤ s.client.oRecv.unread.length ∧ canReadSize = s.client.oRecv.canRead
  | .moveBack canReadSize msgLen =>
      Found s.received frames (s.client.oRecv.moveReadPos (-2)) msgLen ∧
      canReadSize = (s.client.oRecv.moveReadPos (-2)).canRead
  | .alloc msgLen | .readBytes _ msgLen => Found s.received frames s.client.oRecv msgLen ∧
      msgLen ≤ s.client.oRecv.unread.length
  | .push package => Reading s.received (frames ++ [package.bytes]) s.client.oRecv
  | .moveDataToFront => Reading s.received frames s.client.oRecv ∧
      headRule.Unfinished s.client.oRecv.unread
  | .retainSize => ∃ rest, Retained s.client.recvBuf s.client.oRecv.canRead rest ∧
      headRule.parse s.received = ⟨frames, .rest rest⟩
  | .close => True
  | .aborted => headRule.parse s.received = ⟨frames, .refused⟩

/-- What it holds once its buffer has been taken from it: at most one more package
is queued. -/
def Lost (s : ReceiveThreads) (frames : List (List Byte)) : ReceivePoint → Prop
  | .setBuffer _ => False
  | .resetRetain | .canRead | .queueSize | .readUShort _ => s.client.oRecv = .setBuffer none 0
  | .moveBack _ msgLen | .alloc msgLen | .readBytes _ msgLen =>
      s.client.oRecv.buf = none ∧ 0 < msgLen
  | .push package => s.client.oRecv = .setBuffer none 0 ∧
      frames ++ [package.bytes] <+: (headRule.parse s.received).frames
  | .moveDataToFront => s.client.oRecv.buf = none
  | _ => True

/-- Whatever the receiver does, what it has queued are the first frames of what it
has received. Where it stands decides the rest, and whether the socket is open. -/
structure Follows (s : ReceiveThreads) (frames : List (List Byte)) : Prop where
  front : frames <+: (headRule.parse s.received).frames
  at_point : s.Tracked frames s.receiver ∨
    s.client.sock = invalidSocket ∧ s.Lost frames s.receiver

theorem Reading.front (hreading : Reading received frames oRecv) :
    frames <+: (headRule.parse received).frames := by
  rw [hreading.cuts, Framing.Parsed.frames_after]
  exact List.prefix_append _ _

/-! ## The actions of the receiver -/

/-- What the receiver queues where it stands. -/
def queues (s : ReceiveThreads) : List Package :=
  match s.receiver with
  | .push package => [package]
  | _ => []

theorem queues_of_ne (hpoint : ∀ package, s.receiver ≠ .push package) : s.queues = [] := by
  unfold queues
  split
  next package hpush => exact absurd hpush (hpoint package)
  next => rfl

/-- An action that queues nothing and receives nothing. -/
theorem Follows.moved (hfollows : s.Follows frames) (hreceived : t.received = s.received)
    (hpoint : t.Tracked frames t.receiver ∨
      t.client.sock = invalidSocket ∧ t.Lost frames t.receiver) : t.Follows frames :=
  ⟨hreceived ▸ hfollows.front, hpoint⟩

/-- A whole header is in front: its length is legal, or the assertion fails. -/
theorem Reading.found (hreading : Reading received frames oRecv)
    (hstuck : (headRule.parse received).ending ≠ .stuck) (hhead : 6 ≤ oRecv.unread.length) :
    packageMaxSize < ushort oRecv.unread ∧ headRule.parse received = ⟨frames, .refused⟩ ∨
      Found received frames oRecv (ushort oRecv.unread) := by
  by_cases hle : ushort oRecv.unread ≤ packageMaxSize
  · refine Or.inr ⟨hreading, hhead, rfl, hle, Nat.pos_of_ne_zero fun hzero => hstuck ?_⟩
    have hsize := headRule_size_of_le hle
    rw [hzero] at hsize
    rw [hreading.cuts, Framing.parse_stuck hhead hsize]
    rfl
  · rw [Nat.not_le] at hle
    refine Or.inl ⟨hle, ?_⟩
    rw [hreading.cuts, Framing.parse_refused hhead (headRule_size_of_gt hle)]
    simp [Framing.Parsed.after]

/-- The package is cut off, and the position is behind it. -/
theorem Found.cut {msgLen : Nat} (hfound : Found received frames oRecv msgLen)
    (hlen : msgLen ≤ oRecv.unread.length) :
    oRecv.readBytes msgLen =
        some (oRecv.unread.take msgLen, { oRecv with pos := oRecv.pos + msgLen }) ∧
      Reading received (frames ++ [oRecv.unread.take msgLen])
        { oRecv with pos := oRecv.pos + msgLen } := by
  have hunread := OBuffer.unread_advance hfound.valid (Int.natCast_nonneg msgLen)
  rw [Int.toNat_natCast] at hunread
  have hsize : headRule.size oRecv.unread = some msgLen := by
    rw [headRule_size_of_le (hfound.len ▸ hfound.le), hfound.len]
  refine ⟨readBytes_spec hfound.valid hlen, hfound.valid.advance hlen, hfound.buf, ?_⟩
  rw [hfound.cuts, hunread, Framing.parse_frame hfound.head hsize hfound.pos hlen,
    Framing.Parsed.after_after]

/-- What is left is kept at the front of `_recvBuf`. -/
theorem Reading.kept (hreading : Reading received frames oRecv)
    (hpart : headRule.Unfinished oRecv.unread) (recvBuf : Memory Byte) :
    Retained (oRecv.moveDataToFront.buf.getD recvBuf) oRecv.moveDataToFront.canRead oRecv.unread ∧
      headRule.parse received = ⟨frames, .rest oRecv.unread⟩ := by
  have hretained := Retained.of_moveDataToFront hreading.valid hreading.buf hpart
  obtain ⟨array, harray⟩ := Option.ne_none_iff_exists'.mp hreading.buf
  obtain ⟨moved, hmoved⟩ : ∃ moved, oRecv.moveDataToFront.buf = some moved := by
    unfold OBuffer.moveDataToFront
    simp only
    split
    next => exact ⟨array, harray⟩
    next => exact ⟨_, by rw [harray, Option.map_some]⟩
  have hsame : oRecv.moveDataToFront.buf.getD recvBuf = oRecv.moveDataToFront.memory := by
    rw [OBuffer.memory, hmoved]
    rfl
  refine ⟨hsame ▸ hretained, ?_⟩
  rw [hreading.cuts, Framing.parse_of_unfinished hpart]
  simp [Framing.Parsed.after]

/-- The head of a pass, up to the decision about a header. -/
theorem Follows.canRead (hfollows : s.Follows frames) (hpoint : s.receiver = .canRead) :
    (ReceiveThreads.processorRecv s).Follows frames := by
  have hat := hfollows.at_point
  rw [hpoint] at hat
  simp only [ReceiveThreads.processorRecv, hpoint]
  rcases hat with htracked | ⟨hclosed, hlost⟩
  · have hreading : Reading s.received frames s.client.oRecv := htracked
    have hnonneg := hreading.valid.canRead_nonneg
    have hlen := OBuffer.length_unread s.client.oRecv
    split
    next hshort =>
      refine hfollows.moved rfl (Or.inl ⟨hreading, Or.inl ?_⟩)
      have hheader : (s.client.oRecv.unread.length : Int) < MsgHead.sizeof := by omega
      exact Int.ofNat_lt.mp hheader
    next hlong =>
      have hsizeof : (MsgHead.sizeof : Int) = 6 := rfl
      have hhead : 6 ≤ s.client.oRecv.unread.length := by omega
      exact hfollows.moved rfl (Or.inl ⟨hreading, hhead, rfl⟩)
  · have hnull : s.client.oRecv = .setBuffer none 0 := hlost
    split
    next => exact hfollows.moved rfl (Or.inr ⟨hclosed, by rw [recvAt, Lost, hnull]; rfl⟩)
    next => exact hfollows.moved rfl (Or.inr ⟨hclosed, hlost⟩)

/-- The peek at the length, and the way back. -/
theorem Follows.peek (hfollows : s.Follows frames)
    (hstuck : (headRule.parse s.received).ending ≠ .stuck) {canReadSize : Int}
    (hpoint : s.receiver = .readUShort canReadSize) :
    (ReceiveThreads.processorRecv s).Follows frames := by
  have hat := hfollows.at_point
  rw [hpoint] at hat
  simp only [ReceiveThreads.processorRecv, hpoint]
  rcases hat with htracked | ⟨hclosed, hlost⟩
  · obtain ⟨hreading, hhead, rfl⟩ := htracked
    simp only [readUShort_spec (show 2 ≤ s.client.oRecv.unread.length by omega)]
    rcases hreading.found hstuck hhead with ⟨hlarge, hrefused⟩ | hfound
    · rw [if_pos hlarge]
      exact hfollows.moved rfl (Or.inl hrefused)
    · rw [if_neg (Nat.not_lt.mpr hfound.le)]
      have hback : OBuffer.moveReadPos
          { s.client.oRecv with pos := s.client.oRecv.pos + 2 } (-2) = s.client.oRecv := by
        simp only [OBuffer.moveReadPos]
        rw [show s.client.oRecv.pos + 2 + -2 = s.client.oRecv.pos by omega]
      refine hfollows.moved rfl (Or.inl ?_)
      simp only [Tracked, hback]
      exact ⟨hfound, trivial⟩
  · have hnull : s.client.oRecv.readUShort = none := by
      rw [show s.client.oRecv = .setBuffer none 0 from hlost]
      rfl
    rw [hnull]
    exact hfollows.moved rfl (Or.inr ⟨hclosed, trivial⟩)

/-- Back at the header: wait for the rest of the package, or take it. -/
theorem Follows.moveBack (hfollows : s.Follows frames) {canReadSize : Int} {msgLen : Nat}
    (hpoint : s.receiver = .moveBack canReadSize msgLen) :
    (ReceiveThreads.processorRecv s).Follows frames := by
  have hat := hfollows.at_point
  rw [hpoint] at hat
  simp only [ReceiveThreads.processorRecv, hpoint]
  rcases hat with htracked | ⟨hclosed, hlost⟩
  · obtain ⟨hfound, rfl⟩ := htracked
    have hnonneg := hfound.valid.canRead_nonneg
    have hlen := OBuffer.length_unread (s.client.oRecv.moveReadPos (-2))
    have hsize := headRule_size_of_le (hfound.len ▸ hfound.le)
    split
    next hshort =>
      have hpart : (s.client.oRecv.moveReadPos (-2)).unread.length < msgLen := by omega
      exact hfollows.moved rfl (Or.inl ⟨hfound.toReading, Or.inr ⟨_, hsize, hfound.len ▸ hpart⟩⟩)
    next hwhole =>
      have hfits : msgLen ≤ (s.client.oRecv.moveReadPos (-2)).unread.length := by omega
      exact hfollows.moved rfl (Or.inl ⟨hfound, hfits⟩)
  · split
    next => exact hfollows.moved rfl (Or.inr ⟨hclosed, hlost.1⟩)
    next => exact hfollows.moved rfl (Or.inr ⟨hclosed, hlost⟩)

/-- Copying the package. Where the buffer has been taken there is nothing to copy. -/
theorem Follows.readBytes (hfollows : s.Follows frames) {unit msgLen : Nat}
    (hpoint : s.receiver = .readBytes unit msgLen) :
    (ReceiveThreads.readBytes s unit msgLen).Follows frames := by
  have hat := hfollows.at_point
  rw [hpoint] at hat
  unfold ReceiveThreads.readBytes
  rcases hat with htracked | ⟨hclosed, hlost⟩
  · obtain ⟨hfound, hlen⟩ := htracked
    obtain ⟨hread, hreading⟩ := hfound.cut hlen
    rw [if_neg fun hnull => hfound.buf hnull.1, hread]
    exact hfollows.moved rfl (Or.inl hreading)
  · have hnull : s.client.oRecv.buf = none ∧ 0 < msgLen := hlost
    rw [if_pos hnull]
    exact hfollows.moved rfl (Or.inr ⟨hclosed, trivial⟩)

/-- What was handed over is one more frame. -/
theorem Follows.push (hfollows : s.Follows frames) {package : Package}
    (hpoint : s.receiver = .push package) :
    (ReceiveThreads.processorRecv s).Follows (frames ++ [package.bytes]) := by
  have hat := hfollows.at_point
  rw [hpoint] at hat
  simp only [ReceiveThreads.processorRecv, hpoint]
  rcases hat with htracked | ⟨hclosed, hlost⟩
  · have hreading : Reading s.received (frames ++ [package.bytes]) s.client.oRecv := htracked
    exact ⟨hreading.front, Or.inl hreading⟩
  · exact ⟨hlost.2, Or.inr ⟨hclosed, hlost.1⟩⟩

theorem Follows.moveDataToFront (hfollows : s.Follows frames)
    (hpoint : s.receiver = .moveDataToFront) :
    (ReceiveThreads.moveDataToFront s).Follows frames := by
  have hat := hfollows.at_point
  rw [hpoint] at hat
  unfold ReceiveThreads.moveDataToFront
  rcases hat with htracked | ⟨hclosed, hlost⟩
  · obtain ⟨hreading, hpart⟩ := htracked
    rw [if_neg fun hnull => hreading.buf hnull.1]
    exact hfollows.moved rfl (Or.inl ⟨_, hreading.kept hpart s.client.recvBuf⟩)
  · split
    next => exact hfollows.moved rfl (Or.inr ⟨hclosed, trivial⟩)
    next => exact hfollows.moved rfl (Or.inr ⟨hclosed, trivial⟩)

/-- Every action of `ProcessorRecv` behind its `recv`. -/
theorem Follows.processorRecv (hfollows : s.Follows frames)
    (hstuck : (headRule.parse s.received).ending ≠ .stuck) :
    (ReceiveThreads.processorRecv s).Follows (frames ++ s.queues.map Package.bytes) := by
  have hat := hfollows.at_point
  have hnone : s.queues = [] → frames ++ s.queues.map Package.bytes = frames := by
    intro hqueues
    rw [hqueues, List.map_nil, List.append_nil]
  unfold ReceiveThreads.processorRecv
  split
  next nlen hpoint =>
    rw [hnone (by rw [queues, hpoint])]
    rw [hpoint] at hat
    obtain ⟨hnonneg, hcuts⟩ := hat.resolve_right fun hlost => hlost.2
    refine hfollows.moved rfl (Or.inl ⟨OBuffer.setBuffer_valid _ (by omega),
      Option.some_ne_none _, ?_⟩)
    rw [OBuffer.unread_setBuffer]
    exact hcuts
  next hpoint =>
    rw [hnone (by rw [queues, hpoint])]
    rw [hpoint] at hat
    exact hfollows.moved rfl hat
  next hpoint =>
    rw [hnone (by rw [queues, hpoint])]
    have hmoved := hfollows.canRead hpoint
    rwa [ReceiveThreads.processorRecv, hpoint] at hmoved
  next hpoint =>
    rw [hnone (by rw [queues, hpoint])]
    have hmoved := hfollows.peek hstuck hpoint
    rwa [ReceiveThreads.processorRecv, hpoint] at hmoved
  next hpoint =>
    rw [hnone (by rw [queues, hpoint])]
    have hmoved := hfollows.moveBack hpoint
    rwa [ReceiveThreads.processorRecv, hpoint] at hmoved
  next hpoint =>
    rw [hnone (by rw [queues, hpoint])]
    rw [hpoint] at hat
    exact hfollows.moved rfl hat
  next hpoint =>
    rw [hnone (by rw [queues, hpoint])]
    exact hfollows.readBytes hpoint
  next hpoint =>
    rw [queues, hpoint]
    have hmoved := hfollows.push hpoint
    rwa [ReceiveThreads.processorRecv, hpoint] at hmoved
  next hpoint =>
    rw [hnone (by rw [queues, hpoint])]
    rw [hpoint] at hat
    split
    next => exact hfollows.moved rfl (Or.inl trivial)
    next => exact hfollows.moved rfl hat
  next hpoint =>
    rw [hnone (by rw [queues, hpoint])]
    exact hfollows.moveDataToFront hpoint
  next hpoint =>
    rw [hnone (by rw [queues, hpoint])]
    rw [hpoint] at hat
    rcases hat with htracked | ⟨hclosed, _⟩
    · exact hfollows.moved rfl (Or.inl htracked)
    · exact hfollows.moved rfl (Or.inr ⟨hclosed, trivial⟩)
  next =>
    rw [hnone (queues_of_ne (by assumption))]
    exact hfollows

/-- `recv` stores bytes behind what is retained. -/
theorem Follows.recv (hfollows : s.Follows frames) (hpoint : s.receiver = .recv)
    (answer : RecvAnswer) : (ReceiveThreads.recv s answer).Follows frames := by
  have hat := hfollows.at_point
  rw [hpoint] at hat
  unfold ReceiveThreads.recv
  simp only
  split
  next => exact hfollows.moved rfl (Or.inl trivial)
  next hsome =>
    obtain ⟨bytes, hbytes⟩ : ∃ bytes, answer.received s.client.sock
      (clientRecvBufferSize - s.client.retainSize) = bytes := ⟨_, rfl⟩
    rw [hbytes] at hsome ⊢
    -- nothing is received on a closed socket
    have hopen : s.client.sock ≠ invalidSocket := by
      rintro hclosed
      refine hsome ?_
      rw [← hbytes, hclosed]
      cases answer <;> rfl
    obtain ⟨rest, hretained, hparse⟩ := hat.resolve_right fun hlost => hopen hlost.1
    refine ⟨hfollows.front.trans (Framing.frames_prefix_append _ _), Or.inl ?_⟩
    have hunread := (hretained.behind bytes).2
    rw [OBuffer.unread_setBuffer] at hunread
    have hcuts : headRule.parse (s.received ++ bytes) =
        (headRule.parse (rest ++ bytes)).after frames := by
      have hending : (headRule.parse s.received).ending = .rest rest := by rw [hparse]
      rw [Framing.parse_append_of_rest hending, hparse]
    exact ⟨hretained.nonneg, by rw [hcuts, ← hunread]; rfl⟩

/-- Every action of the receiver but `Close`. -/
theorem Follows.receiverStep (hfollows : s.Follows frames) (answer : ReadAnswer)
    (hstuck : (headRule.parse s.received).ending ≠ .stuck) (hclose : s.receiver ≠ .close) :
    (ReceiveThreads.receiverStep answer s).Follows (frames ++ s.queues.map Package.bytes) := by
  have hat := hfollows.at_point
  have hnone : s.queues = [] → frames ++ s.queues.map Package.bytes = frames := by
    intro hqueues
    rw [hqueues, List.map_nil, List.append_nil]
  unfold ReceiveThreads.receiverStep
  split
  next hpoint =>
    rw [hnone (by rw [queues, hpoint])]
    split
    next => exact hfollows
    next => exact hfollows.moved rfl (by rwa [hpoint] at hat)
  next hpoint =>
    rw [hnone (by rw [queues, hpoint])]
    rw [hpoint] at hat
    split
    next => exact hfollows.moved rfl hat
    next => exact hfollows.moved rfl hat
  next hpoint =>
    rw [hnone (by rw [queues, hpoint])]
    rw [hpoint] at hat
    split
    next => exact hfollows.moved rfl (Or.inl trivial)
    next => exact hfollows.moved rfl hat
    next => exact hfollows.moved rfl hat
  next hpoint =>
    rw [hnone (by rw [queues, hpoint])]
    split
    next => exact hfollows.recv hpoint _
    next => exact hfollows.moved rfl (Or.inl trivial)
  next hpoint => exact absurd hpoint hclose
  next hpoint =>
    rw [hnone (by rw [queues, hpoint])]
    exact hfollows
  next => exact hfollows.processorRecv hstuck

/-! ## What has been queued and delivered -/

/-- The package that the handler is about to show, padded. -/
def showing (s : ReceiveThreads) : List (List Byte) :=
  match s.handler with
  | .copy (some msg) => [padded msg.bytes]
  | .free _ | .onRecvMsg => [s.client.package.read 0 packageMaxSize]
  | _ => []

/-- What `OnRecvMsg` was called with, what it is about to be called with, and what
is queued. -/
def handed (s : ReceiveThreads) : List (List Byte) :=
  s.client.ext.delivered ++ s.showing ++
    s.client.ext.recvQueue.nodes.map fun msg => padded msg.bytes

/-- The packages that have not been looked into yet. -/
def waiting (s : ReceiveThreads) : List Package :=
  match s.handler with
  | .copy (some msg) => msg :: s.client.ext.recvQueue.nodes
  | _ => s.client.ext.recvQueue.nodes

/-- What the receiver leaves alone, besides what it queues. -/
structure Beside (s t : ReceiveThreads) : Prop where
  handler : t.handler = s.handler
  sock : t.client.sock = s.client.sock
  package : t.client.package = s.client.package
  delivered : t.client.ext.delivered = s.client.ext.delivered
  nodes : t.client.ext.recvQueue.nodes = s.client.ext.recvQueue.nodes ++ s.queues
  counted : s.client.ext.recvQueue.Counted → t.client.ext.recvQueue.Counted
  received : s.received <+: t.received

theorem Beside.of_same (hqueues : s.queues = []) (hhandler : t.handler = s.handler)
    (hsock : t.client.sock = s.client.sock) (hpackage : t.client.package = s.client.package)
    (hext : t.client.ext = s.client.ext) (hreceived : s.received <+: t.received) :
    Beside s t := by
  refine ⟨hhandler, hsock, hpackage, by rw [hext], ?_, fun hcounted => hext ▸ hcounted, hreceived⟩
  rw [hext, hqueues, List.append_nil]

theorem processorRecv_beside (s : ReceiveThreads) : Beside s (processorRecv s) := by
  unfold processorRecv
  split
  next hpoint => exact .of_same (by rw [queues, hpoint]) rfl rfl rfl rfl List.prefix_rfl
  next hpoint => exact .of_same (by rw [queues, hpoint]) rfl rfl rfl rfl List.prefix_rfl
  next hpoint =>
    have hqueues : s.queues = [] := by rw [queues, hpoint]
    simp only
    split <;> exact .of_same hqueues rfl rfl rfl rfl List.prefix_rfl
  next hpoint =>
    have hqueues : s.queues = [] := by rw [queues, hpoint]
    split
    next => exact .of_same hqueues rfl rfl rfl rfl List.prefix_rfl
    next => split <;> exact .of_same hqueues rfl rfl rfl rfl List.prefix_rfl
  next hpoint =>
    have hqueues : s.queues = [] := by rw [queues, hpoint]
    simp only
    split <;> exact .of_same hqueues rfl rfl rfl rfl List.prefix_rfl
  next hpoint => exact .of_same (by rw [queues, hpoint]) rfl rfl rfl rfl List.prefix_rfl
  next hpoint =>
    have hqueues : s.queues = [] := by rw [queues, hpoint]
    unfold readBytes
    split
    next => exact .of_same hqueues rfl rfl rfl rfl List.prefix_rfl
    next => split <;> exact .of_same hqueues rfl rfl rfl rfl List.prefix_rfl
  next package hpoint =>
    refine ⟨rfl, rfl, rfl, rfl, ?_, fun hcounted => hcounted.push package, List.prefix_rfl⟩
    rw [queues, hpoint]
    rfl
  next hpoint =>
    have hqueues : s.queues = [] := by rw [queues, hpoint]
    split <;> exact .of_same hqueues rfl rfl rfl rfl List.prefix_rfl
  next hpoint =>
    have hqueues : s.queues = [] := by rw [queues, hpoint]
    unfold moveDataToFront
    split <;> exact .of_same hqueues rfl rfl rfl rfl List.prefix_rfl
  next hpoint => exact .of_same (by rw [queues, hpoint]) rfl rfl rfl rfl List.prefix_rfl
  next => exact .of_same (queues_of_ne (by assumption)) rfl rfl rfl rfl List.prefix_rfl

theorem receiverStep_beside (s : ReceiveThreads) (answer : ReadAnswer)
    (hclose : s.receiver ≠ .close) : Beside s (receiverStep answer s) := by
  unfold receiverStep
  split
  next hpoint =>
    have hqueues : s.queues = [] := by rw [queues, hpoint]
    split <;> exact .of_same hqueues rfl rfl rfl rfl List.prefix_rfl
  next hpoint =>
    have hqueues : s.queues = [] := by rw [queues, hpoint]
    split <;> exact .of_same hqueues rfl rfl rfl rfl List.prefix_rfl
  next hpoint =>
    have hqueues : s.queues = [] := by rw [queues, hpoint]
    split <;> exact .of_same hqueues rfl rfl rfl rfl List.prefix_rfl
  next hpoint =>
    have hqueues : s.queues = [] := by rw [queues, hpoint]
    split
    next =>
      unfold recv
      simp only
      split
      next => exact .of_same hqueues rfl rfl rfl rfl List.prefix_rfl
      next => exact .of_same hqueues rfl rfl rfl rfl (List.prefix_append _ _)
    next => exact .of_same hqueues rfl rfl rfl rfl List.prefix_rfl
  next hpoint => exact absurd hpoint hclose
  next hpoint => exact .of_same (by rw [queues, hpoint]) rfl rfl rfl rfl List.prefix_rfl
  next => exact processorRecv_beside s

/-- What the handler holds at its point while the socket is open: nobody else pops
what it has seen, and only a package without a whole length stops it. -/
def Handling (s : ReceiveThreads) (frames : List (List Byte)) : OnRunPoint → Prop
  | .pop => s.client.ext.recvQueue.nodes ≠ []
  | .copy none => False
  | .aborted => ∃ frame ∈ frames, frame.length < 2
  | _ => True

structure Inv (s : ReceiveThreads) (frames : List (List Byte)) : Prop where
  follows : s.Follows frames
  order : s.handed.Sublist (frames.map padded)
  whole : s.client.sock ≠ invalidSocket → s.handler ≠ .aborted → s.handed = frames.map padded
  known : ∀ msg ∈ s.waiting, msg.bytes ∈ frames
  counted : s.client.ext.recvQueue.Counted
  handling : s.client.sock ≠ invalidSocket → s.Handling frames s.handler

theorem Beside.showing (hbeside : Beside s t) : t.showing = s.showing := by
  rw [ReceiveThreads.showing, ReceiveThreads.showing, hbeside.handler, hbeside.package]

theorem Beside.handed (hbeside : Beside s t) :
    t.handed = s.handed ++ s.queues.map fun msg => padded msg.bytes := by
  rw [ReceiveThreads.handed, ReceiveThreads.handed, hbeside.showing, hbeside.delivered,
    hbeside.nodes, List.map_append, ← List.append_assoc]

theorem Beside.waiting (hbeside : Beside s t) : t.waiting = s.waiting ++ s.queues := by
  unfold ReceiveThreads.waiting
  rw [hbeside.handler, hbeside.nodes]
  split <;> rfl

/-- The receiver has moved, and may have queued a frame. -/
theorem Inv.beside (hinv : Inv s frames) (hbeside : Beside s t)
    (hfollows : t.Follows (frames ++ s.queues.map Package.bytes)) :
    Inv t (frames ++ s.queues.map Package.bytes) := by
  have hmap : (frames ++ s.queues.map Package.bytes).map padded =
      frames.map padded ++ s.queues.map fun msg => padded msg.bytes := by
    rw [List.map_append, List.map_map]
    rfl
  refine ⟨hfollows, ?_, fun hopen halive => ?_, fun msg hmsg => ?_, hbeside.counted hinv.counted,
    fun hopen => ?_⟩
  · rw [hbeside.handed, hmap]
    exact hinv.order.append_right _
  · rw [hbeside.handed, hmap, hinv.whole (hbeside.sock ▸ hopen) (hbeside.handler ▸ halive)]
  · rw [hbeside.waiting] at hmsg
    rcases List.mem_append.mp hmsg with hold | hnew
    · exact List.mem_append_left _ (hinv.known msg hold)
    · exact List.mem_append_right _ (List.mem_map_of_mem hnew)
  · have hhandling := hinv.handling (hbeside.sock ▸ hopen)
    rw [hbeside.handler]
    cases hpoint : s.handler with
    | pop =>
        rw [hpoint] at hhandling
        rw [Handling, hbeside.nodes]
        exact List.append_ne_nil_of_left_ne_nil hhandling _
    | copy msg =>
        rw [hpoint] at hhandling
        cases msg with
        | none => exact hhandling
        | some msg => trivial
    | aborted =>
        rw [hpoint] at hhandling
        obtain ⟨frame, hframe, hshort⟩ := hhandling
        exact ⟨frame, List.mem_append_left _ hframe, hshort⟩
    | _ => trivial

/-! ## Close -/

/-- `Close` empties the queue and takes the buffer away. -/
theorem close_client {client : SelectClientThread} (hopen : client.sock ≠ invalidSocket) :
    client.close.sock = invalidSocket ∧ client.close.oRecv = .setBuffer none 0 ∧
      client.close.retainSize = client.retainSize ∧ client.close.recvBuf = client.recvBuf ∧
      client.close.package = client.package ∧
      client.close.ext.delivered = client.ext.delivered ∧ client.close.ext.recvQueue.nodes = [] ∧
      (client.ext.recvQueue.Counted → client.close.ext.recvQueue.Counted) := by
  obtain ⟨memoryPool, test, recvQueue, hclear, hnodes, hcounted⟩ :=
    SelectClientThread.clearRecvQueue_spec client.shut
  obtain ⟨sendQueue, memoryPool', test', hsend, _⟩ := Endpoint.clearSendQueue_spec
    { client.shut with memoryPool, test, ext := { client.shut.ext with recvQueue } }
  rw [SelectClientThread.close, if_pos hopen, SelectClientThread.clearQueue, hclear, hsend]
  exact ⟨rfl, rfl, rfl, rfl, rfl, rfl, hnodes, hcounted⟩

theorem close_of_closed {client : SelectClientThread} (hclosed : client.sock = invalidSocket) :
    client.close = client := by
  rw [SelectClientThread.close, if_neg (not_not.mpr hclosed)]

/-- Wherever the receiver is when its buffer is taken away, it follows. -/
theorem Follows.close (hfollows : s.Follows frames) :
    ({ s with client := s.client.close } : ReceiveThreads).Follows frames := by
  by_cases hopen : s.client.sock = invalidSocket
  · rw [close_of_closed hopen]
    exact hfollows
  obtain ⟨hsock, hbuffer, hretain, hrecvBuf, _⟩ := close_client hopen
  have htracked := hfollows.at_point.resolve_right fun hlost => hopen hlost.1
  refine hfollows.moved rfl ?_
  cases hpoint : s.receiver <;> rw [hpoint] at htracked
  case setBuffer nlen =>
    refine Or.inl ?_
    simp only [Tracked, hretain, hrecvBuf]
    exact htracked
  case resetRetain => exact Or.inr ⟨hsock, hbuffer⟩
  case canRead => exact Or.inr ⟨hsock, hbuffer⟩
  case queueSize => exact Or.inr ⟨hsock, hbuffer⟩
  case readUShort => exact Or.inr ⟨hsock, hbuffer⟩
  case moveBack => exact Or.inr ⟨hsock, congrArg OBuffer.buf hbuffer, htracked.1.pos⟩
  case alloc => exact Or.inr ⟨hsock, congrArg OBuffer.buf hbuffer, htracked.1.pos⟩
  case readBytes => exact Or.inr ⟨hsock, congrArg OBuffer.buf hbuffer, htracked.1.pos⟩
  case push => exact Or.inr ⟨hsock, hbuffer, Reading.front htracked⟩
  case moveDataToFront => exact Or.inr ⟨hsock, congrArg OBuffer.buf hbuffer⟩
  all_goals exact Or.inr ⟨hsock, trivial⟩

theorem Inv.close (hinv : Inv s frames) :
    Inv { s with client := s.client.close } frames := by
  have hfollows := hinv.follows.close
  by_cases hopen : s.client.sock = invalidSocket
  · rw [close_of_closed hopen]
    exact hinv
  obtain ⟨hsock, _, _, _, hpackage, hdelivered, hnodes, hcounted⟩ := close_client hopen
  have hshowing : ({ s with client := s.client.close } : ReceiveThreads).showing = s.showing := by
    rw [showing, showing, hpackage]
  refine ⟨hfollows, ?_, fun hstill => absurd hsock hstill, fun msg hmsg => ?_,
    hcounted hinv.counted, fun hstill => absurd hsock hstill⟩
  · rw [handed, hshowing, hdelivered, hnodes, List.map_nil, List.append_nil]
    exact (List.sublist_append_left _ _).trans hinv.order
  · refine hinv.known msg ?_
    unfold waiting at hmsg ⊢
    rw [hnodes] at hmsg
    split at hmsg
    next held hpoint =>
      rw [List.mem_singleton] at hmsg
      have hheld : s.handler = .copy (some held) := hpoint
      simp only [hheld, hmsg, List.mem_cons_self]
    next => cases hmsg

/-- The receiver closes, and is outside `RecvThread` again. -/
theorem Inv.receiverClose (hinv : Inv s frames) :
    Inv { s with client := s.client.close, receiver := .idle } frames := by
  have hclosed : s.client.close.sock = invalidSocket := by
    by_cases hopen : s.client.sock = invalidSocket
    · rw [close_of_closed hopen]
      exact hopen
    · exact (close_client hopen).1
  have hinv' := hinv.close
  exact ⟨⟨hinv'.follows.front, Or.inr ⟨hclosed, trivial⟩⟩, hinv'.order, hinv'.whole, hinv'.known,
    hinv'.counted, hinv'.handling⟩

/-! ## The actions of the handler -/

/-- The receiver does not notice what the handler does. -/
theorem Follows.beside (hfollows : s.Follows frames) (hreceiver : t.receiver = s.receiver)
    (hreceived : t.received = s.received) (hsock : t.client.sock = s.client.sock)
    (hbuffer : t.client.oRecv = s.client.oRecv)
    (hretain : t.client.retainSize = s.client.retainSize)
    (hrecvBuf : t.client.recvBuf = s.client.recvBuf) : t.Follows frames := by
  refine hfollows.moved hreceived ?_
  have htracked : ∀ point, t.Tracked frames point = s.Tracked frames point := by
    intro point
    cases point <;> simp only [Tracked, hreceived, hbuffer, hretain, hrecvBuf]
  have hlost : ∀ point, t.Lost frames point = s.Lost frames point := by
    intro point
    cases point <;> simp only [Lost, hreceived, hbuffer]
  rw [hreceiver, htracked, hlost, hsock]
  exact hfollows.at_point

/-- A package of the stream is copied whole, unless it is too short to say its length. -/
theorem copy_of_mem {msg : Package} (hmem : msg.bytes ∈ (headRule.parse received).frames)
    (hhandler : s.handler = .copy (some msg)) :
    (handlerStep s = runAt s .aborted ∧ msg.bytes.length < 2) ∨
      ∃ package, handlerStep s = { s with
        client := { s.client with package }
        handler := .free msg } ∧ package.read 0 packageMaxSize = padded msg.bytes := by
  by_cases hhead : 2 ≤ msg.bytes.length
  · have hsize := SelectClientThread.msgSize_eq hhead
    rw [ushort_of_mem_frames hmem hhead] at hsize
    have hmax := length_le_of_mem_frames hmem
    have hbytes : (CharData.bytes msg).read 0 msg.bytes.length = msg.bytes :=
      Memory.read_ofList msg.bytes 0
    refine Or.inr ⟨fillPackage s.client.package msg.bytes, ?_, read_fillPackage _ hmax⟩
    simp only [handlerStep, hhandler, hsize, hbytes]
    exact if_neg (by omega)
  · have hsize : msg.msgSize = none := if_neg hhead
    refine Or.inl ⟨?_, by omega⟩
    simp only [handlerStep, hhandler, hsize]

/-- An action that leaves the queue and what has been handed over as they are. -/
theorem Inv.still (hinv : Inv s frames) (hfollows : t.Follows frames)
    (hsock : t.client.sock = s.client.sock)
    (hqueue : t.client.ext.recvQueue = s.client.ext.recvQueue) (hhanded : t.handed = s.handed)
    (hwaiting : t.waiting ⊆ s.waiting) (halive : s.handler ≠ .aborted)
    (hhandling : t.client.sock ≠ invalidSocket → t.Handling frames t.handler) : Inv t frames :=
  ⟨hfollows, hhanded ▸ hinv.order, fun hopen _ => hhanded ▸ hinv.whole (hsock ▸ hopen) halive,
    fun msg hmsg => hinv.known msg (hwaiting hmsg), hqueue ▸ hinv.counted, hhandling⟩

/-- The handler takes the first package of the queue, if there is one. -/
theorem Inv.pop (hinv : Inv s frames) (hhandler : s.handler = .pop) :
    Inv (handlerStep s) frames := by
  simp only [handlerStep, hhandler]
  cases hnodes : s.client.ext.recvQueue.nodes with
  | nil =>
      have hpop : s.client.ext.recvQueue.pop = (none, s.client.ext.recvQueue) := by
        rw [MyQueue.pop, hnodes]
      have hclosed : s.client.sock = invalidSocket := by
        by_contra hopen
        have hsome := hinv.handling hopen
        rw [hhandler] at hsome
        exact hsome hnodes
      simp only [hpop]
      refine hinv.still (hinv.follows.beside rfl rfl rfl rfl rfl rfl) rfl rfl ?_ ?_ ?_ ?_
      · simp only [handed, showing, hhandler]
      · simp only [waiting, hhandler, List.Subset.refl]
      · rw [hhandler]
        exact OnRunPoint.noConfusion
      · exact fun hopen => absurd hclosed hopen
  | cons msg rest =>
      have hpop := MyQueue.pop_of_cons hnodes
      have hsame : ∀ delivered : List (List Byte), delivered ++ [padded msg.bytes] ++
          rest.map (fun msg => padded msg.bytes) =
            delivered ++ [] ++ (msg :: rest).map fun msg => padded msg.bytes := by
        intro delivered
        rw [List.append_nil, List.append_assoc, List.map_cons, List.singleton_append]
      have horder := hinv.order
      have hwhole := hinv.whole
      simp only [handed, showing, hhandler, hnodes, ← hsame] at horder hwhole
      refine ⟨hinv.follows.beside rfl rfl rfl rfl rfl rfl, ?_, fun hopen _ => ?_, ?_, ?_, ?_⟩
      · simpa only [handed, showing, hpop] using horder
      · have hall := hwhole hopen OnRunPoint.noConfusion
        simpa only [handed, showing, hpop] using hall
      · have hknown := hinv.known
        simp only [waiting, hhandler, hnodes] at hknown
        simpa only [waiting, hpop] using hknown
      · simp only [hpop]
        exact hinv.counted.pop hnodes
      · simp only [hpop, Handling]
        exact fun _ => trivial

/-- The package is copied, or is too short. -/
theorem Inv.copy (hinv : Inv s frames) {msg : Package} (hhandler : s.handler = .copy (some msg)) :
    Inv (handlerStep s) frames := by
  have hknown := hinv.known
  simp only [waiting, hhandler, List.forall_mem_cons] at hknown
  obtain ⟨hmem, hqueued⟩ := hknown
  rcases copy_of_mem (hinv.follows.front.subset hmem) hhandler with
    ⟨hstep, hshort⟩ | ⟨package, hstep, hpackage⟩
  · rw [hstep]
    refine ⟨hinv.follows.beside rfl rfl rfl rfl rfl rfl, ?_, fun _ halive => absurd rfl halive,
      hqueued, hinv.counted, fun _ => ⟨msg.bytes, hmem, hshort⟩⟩
    -- what it held is never shown
    have horder := hinv.order
    simp only [handed, showing, hhandler] at horder
    exact (((List.nil_sublist _).append_left _).append_right _).trans horder
  · rw [hstep]
    refine hinv.still (hinv.follows.beside rfl rfl rfl rfl rfl rfl) rfl rfl ?_ ?_ ?_
      fun _ => trivial
    · simp only [handed, showing, hhandler, hpackage]
    · simp only [waiting, hhandler]
      exact List.subset_cons_self _ _
    · rw [hhandler]
      exact OnRunPoint.noConfusion

theorem showing_of_bare (hbare : s.handler.Bare) :
    s.showing = [] ∧ s.waiting = s.client.ext.recvQueue.nodes := by
  unfold showing waiting
  split
  next hpoint => exact (hpoint ▸ hbare : OnRunPoint.Bare (.copy (some _))).elim
  next hpoint => exact (hpoint ▸ hbare : OnRunPoint.Bare (.free _)).elim
  next hpoint => exact (hpoint ▸ hbare : OnRunPoint.Bare .onRecvMsg).elim
  next hcopy _ _ =>
    refine ⟨rfl, ?_⟩
    split
    next msg hpoint => exact (hcopy msg hpoint).elim
    next => rfl

/-- Between two points where the handler holds nothing. -/
theorem Inv.runAt (hinv : Inv s frames) {point : OnRunPoint} (halive : s.handler ≠ .aborted)
    (hbare : s.handler.Bare) (hnext : point.Bare)
    (hhandling : s.client.sock ≠ invalidSocket → s.Handling frames point) :
    Inv (runAt s point) frames := by
  obtain ⟨hshowing, hwaiting⟩ := showing_of_bare hbare
  obtain ⟨hshowing', hwaiting'⟩ := showing_of_bare (s := ReceiveThreads.runAt s point) hnext
  refine hinv.still (hinv.follows.beside rfl rfl rfl rfl rfl rfl) rfl rfl ?_ ?_ halive ?_
  · rw [handed, handed, hshowing, hshowing']
    rfl
  · rw [hwaiting, hwaiting']
    exact List.Subset.refl _
  · intro hopen
    have hat := hhandling hopen
    cases point <;> exact hat

/-- One action of `OnRun`. -/
theorem Inv.handlerStep (hinv : Inv s frames) : Inv (handlerStep s) frames := by
  cases hhandler : s.handler with
  | idle =>
      simp only [ReceiveThreads.handlerStep, hhandler]
      have hbare : s.handler.Bare := hhandler ▸ trivial
      split
      next => exact hinv
      next => exact hinv.runAt (by rw [hhandler]; nofun) hbare trivial fun _ => trivial
  | enter =>
      simp only [ReceiveThreads.handlerStep, hhandler]
      have hbare : s.handler.Bare := hhandler ▸ trivial
      split
      next => exact hinv.runAt (by rw [hhandler]; nofun) hbare trivial fun _ => trivial
      next => exact hinv.runAt (by rw [hhandler]; nofun) hbare trivial fun _ => trivial
  | hasData =>
      simp only [ReceiveThreads.handlerStep, hhandler]
      have hbare : s.handler.Bare := hhandler ▸ trivial
      split
      next hdata =>
        refine hinv.runAt (by rw [hhandler]; nofun) hbare trivial fun _ hnodes => ?_
        rw [hinv.counted.hasData_eq_false_iff.mpr hnodes] at hdata
        cases hdata
      next => exact hinv.runAt (by rw [hhandler]; nofun) hbare trivial fun _ => trivial
  | pop => exact hinv.pop hhandler
  | copy msg =>
      cases msg with
      | none =>
          simp only [ReceiveThreads.handlerStep, hhandler]
          have hbare : s.handler.Bare := hhandler ▸ trivial
          refine hinv.runAt (by rw [hhandler]; nofun) hbare trivial fun hopen => ?_
          have hsome := hinv.handling hopen
          rw [hhandler] at hsome
          exact hsome.elim
      | some msg => exact hinv.copy hhandler
  | free msg =>
      simp only [ReceiveThreads.handlerStep, hhandler]
      refine hinv.still (hinv.follows.beside rfl rfl rfl rfl rfl rfl) rfl rfl ?_ ?_ ?_
        fun _ => trivial
      · simp only [handed, showing, hhandler]
      · simp only [waiting, hhandler, List.Subset.refl]
      · rw [hhandler]
        nofun
  | onRecvMsg =>
      simp only [ReceiveThreads.handlerStep, hhandler]
      refine hinv.still (hinv.follows.beside rfl rfl rfl rfl rfl rfl) rfl rfl ?_ ?_ ?_
        fun _ => trivial
      · simp only [handed, showing, hhandler, List.append_nil]
      · simp only [waiting, hhandler, List.Subset.refl]
      · rw [hhandler]
        nofun
  | aborted =>
      simp only [ReceiveThreads.handlerStep, hhandler]
      exact hinv

/-! ## Every interleaving -/

/-- The receiver stays where it is while the handler moves. -/
theorem handlerStep_receiver (s : ReceiveThreads) :
    (handlerStep s).receiver = s.receiver ∧ (handlerStep s).received = s.received := by
  unfold handlerStep
  split
  next => split <;> exact ⟨rfl, rfl⟩
  next => split <;> exact ⟨rfl, rfl⟩
  next => split <;> exact ⟨rfl, rfl⟩
  next => exact ⟨rfl, rfl⟩
  next => exact ⟨rfl, rfl⟩
  next =>
    split
    next => exact ⟨rfl, rfl⟩
    next => split <;> exact ⟨rfl, rfl⟩
  next => exact ⟨rfl, rfl⟩
  next => exact ⟨rfl, rfl⟩
  next => exact ⟨rfl, rfl⟩

theorem received_grows (s : ReceiveThreads) (label : ReceiveLabel) :
    s.received <+: (step s label).received := by
  cases label with
  | receiver answer =>
      by_cases hclose : s.receiver = .close
      · simp only [step, receiverStep, hclose, List.prefix_rfl]
      · exact (receiverStep_beside s answer hclose).received
  | handler =>
      simp only [step, (handlerStep_receiver s).2, List.prefix_rfl]
  | close => exact List.prefix_rfl

/-- A header of size 0 stays where it is. -/
theorem stuck_grows {stream more : List Byte} (hfront : stream <+: more)
    (hstuck : (headRule.parse stream).ending = .stuck) :
    (headRule.parse more).ending = .stuck := by
  obtain ⟨rest, rfl⟩ := hfront
  rw [Framing.parse_append, hstuck]
  exact hstuck

/-- One action of one thread. -/
theorem Inv.step (hinv : Inv s frames) (label : ReceiveLabel)
    (hstuck : (headRule.parse s.received).ending ≠ .stuck) :
    ∃ frames, Inv (step s label) frames := by
  cases label with
  | receiver answer =>
      by_cases hclose : s.receiver = .close
      · refine ⟨frames, ?_⟩
        simp only [ReceiveThreads.step, receiverStep, hclose]
        exact hinv.receiverClose
      · exact ⟨_, hinv.beside (receiverStep_beside s answer hclose)
          (hinv.follows.receiverStep answer hstuck hclose)⟩
  | handler => exact ⟨frames, hinv.handlerStep⟩
  | close => exact ⟨frames, hinv.close⟩

theorem new_inv (sock : Socket) (sendBuf recvBuf package : Memory Byte) :
    Inv (new sock sendBuf recvBuf package) [] where
  follows := by
    have hnil : headRule.parse [] = ⟨[], .rest []⟩ := Framing.parse_short headRule.headerLen_pos
    exact ⟨List.nil_prefix, Or.inl ⟨[], Retained.nothing recvBuf, hnil⟩⟩
  order := List.Sublist.refl _
  whole := fun _ _ => rfl
  known := nofun
  counted := MyQueue.new_counted
  handling := fun _ => trivial

theorem inv_of_reachable (hreach : machine.Reachable s)
    (hstuck : (headRule.parse s.received).ending ≠ .stuck) : ∃ frames, Inv s frames := by
  induction hreach with
  | start hinitial =>
      obtain ⟨sock, sendBuf, recvBuf, package, _, rfl⟩ := hinitial
      exact ⟨[], new_inv sock sendBuf recvBuf package⟩
  | @next s next label _ hstep ih =>
      cases hstep
      have hbefore : (headRule.parse s.received).ending ≠ .stuck := fun hearlier =>
        hstuck (stuck_grows (received_grows s label) hearlier)
      obtain ⟨frames, hinv⟩ := ih hbefore
      exact hinv.step label hbefore

/-- The actions of the threads of a connected client. -/
def ran (labels : List ReceiveLabel) : ReceiveThreads :=
  labels.foldl step (new 5 (fun _ => 0) (fun _ => 0) (fun _ => 0))

theorem ran_reachable (labels : List ReceiveLabel) : machine.Reachable (ran labels) := by
  have hsteps : ∀ s, machine.Reachable s → machine.Reachable (labels.foldl step s) := by
    induction labels with
    | nil => exact fun s hreach => hreach
    | cons label labels ih => exact fun s hreach => ih _ (hreach.next rfl)
  exact hsteps _ (.start ⟨5, _, _, _, by decide, rfl⟩)

end ReceiveThreads

/-- In every interleaving, closing included, `OnRecvMsg` is called with frames of what
was received, in order and each at most once. As long as the socket is open and no
frame is too short to hold its length, none is left out: they are the first ones, and
when the receiver is outside its call the others are queued or on their way, and the
bytes behind the last frame are retained. -/
theorem threads_receive_in_order {s : ReceiveThreads}
    (hreach : ReceiveThreads.machine.Reachable s)
    (hstuck : (headRule.parse s.received).ending ≠ .stuck) :
    s.client.ext.delivered.Sublist ((headRule.parse s.received).frames.map padded) ∧
      (s.client.sock ≠ invalidSocket →
        (∀ frame ∈ (headRule.parse s.received).frames, 2 ≤ frame.length) →
        s.handler ≠ .aborted ∧
        s.client.ext.delivered <+: (headRule.parse s.received).frames.map padded ∧
        ∀ rest, (headRule.parse s.received).ending = .rest rest → s.receiver ≠ .aborted ∧
          (s.receiver = .idle → s.client.retained = rest ∧
            s.handed = (headRule.parse s.received).frames.map padded)) := by
  obtain ⟨frames, hinv⟩ := ReceiveThreads.inv_of_reachable hreach hstuck
  have hfront := hinv.follows.front
  have hdelivered : s.client.ext.delivered <+: s.handed := by
    rw [ReceiveThreads.handed, List.append_assoc]
    exact List.prefix_append _ _
  refine ⟨hdelivered.sublist.trans (hinv.order.trans (hfront.sublist.map _)), ?_⟩
  intro hopen hlong
  have htracked := hinv.follows.at_point.resolve_right fun hlost => hopen hlost.1
  have halive : s.handler ≠ .aborted := by
    intro haborted
    have hhandling := hinv.handling hopen
    rw [haborted] at hhandling
    obtain ⟨frame, hframe, hshort⟩ := hhandling
    have htwo := hlong frame (hfront.subset hframe)
    omega
  have hwhole := hinv.whole hopen halive
  refine ⟨halive, ?_, fun rest hending => ⟨fun haborted => ?_, fun hidle => ?_⟩⟩
  · rw [hwhole] at hdelivered
    exact hdelivered.trans (hfront.map _)
  · rw [haborted] at htracked
    rw [show headRule.parse s.received = ⟨frames, .refused⟩ from htracked] at hending
    cases hending
  · rw [hidle] at htracked
    obtain ⟨rest', hretained, hparse⟩ := htracked
    rw [hparse] at hending ⊢
    cases hending
    exact ⟨hretained.read, hwhole⟩

set_option maxRecDepth 4000 in
/-- The first message is taken off the queue while the second one is being cut off. -/
theorem threads_receive_in_order_two :
    let s := ReceiveThreads.ran (List.replicate 13 (.receiver (.readable (.data
      [6, 0, 1, 0, 0, 0, 6, 0, 2, 0, 0, 0, 9]))) ++ List.replicate 4 .handler ++
      List.replicate 10 (.receiver .notReadable))
    s.client.ext.recvQueue.nodes.length = 1 ∧ s.client.retained = [9] ∧
      s.handed = [[6, 0, 1, 0, 0, 0], [6, 0, 2, 0, 0, 0]].map padded := by
  intro s
  have hparse : headRule.parse s.received =
      ⟨[[6, 0, 1, 0, 0, 0], [6, 0, 2, 0, 0, 0]], .rest [9]⟩ := by
    decide +kernel
  have hstuck : (headRule.parse s.received).ending ≠ .stuck := by
    rw [hparse]
    nofun
  have hlong : ∀ frame ∈ (headRule.parse s.received).frames, 2 ≤ frame.length := by
    rw [hparse]
    decide
  obtain ⟨_, hopen⟩ := threads_receive_in_order (ReceiveThreads.ran_reachable _) hstuck
  obtain ⟨_, _, hrest⟩ := hopen (by decide) hlong
  obtain ⟨hretained, hhanded⟩ := (hrest [9] (by rw [hparse])).2 rfl
  rw [hparse] at hhanded
  exact ⟨rfl, hretained, hhanded⟩

end SelectNet
