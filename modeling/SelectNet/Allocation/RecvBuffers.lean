import SelectNet.Allocation.PoolLedger
import SelectNet.CommonLib.VarMemPool
import SelectNet.Connection.RecvTermination

/-!
# Who owns the packages that have come in

`ProcessorRecv` allocates a buffer of the length that the header says and queues
the pointer alone. `OnRun` and `ClearQueue` read the size to free it with back
from the buffer: from its first two bytes, which a package of fewer than two
bytes has not written.
-/

namespace SelectNet.SelectClientThread

/-! ## What the client holds -/

/-- `msg->size` is what the package was allocated with, and fits `_package`. -/
def Sized (msg : Package) : Prop :=
  msg.msgSize = some msg.bytes.length ∧ msg.bytes.length ≤ packageMaxSize

/-- The units of the received packages, as they were allocated. -/
def received (side : RecvSide) : List (Nat × Nat) :=
  side.recvQueue.nodes.map fun msg => (msg.unit, msg.bytes.length)

/-- A client owns the received packages, which have to know their size. -/
def holding : Endpoint.Holding RecvSide :=
  ⟨fun side => ∀ msg ∈ side.recvQueue.nodes, Sized msg, received⟩

variable {s t next : SelectClientThread} {msg : Package} {bytes : List Byte}

theorem sized_of_frame {unit : Nat} (hhead : 2 ≤ bytes.length)
    (hsize : ushort bytes = bytes.length) (hmax : bytes.length ≤ packageMaxSize) :
    Sized ⟨unit, bytes⟩ := by
  have hmsg : Package.msgSize ⟨unit, bytes⟩ = some (ushort bytes) := msgSize_eq hhead
  rw [hsize] at hmsg
  exact ⟨hmsg, hmax⟩

theorem queuePackage_owns (howns : s.Owns holding)
    (hsized : Sized ⟨s.memoryPool.units, bytes⟩) : (queuePackage s bytes).Owns holding := by
  constructor
  · intro msg hmsg
    rw [queuePackage_nodes, List.mem_append, List.mem_singleton] at hmsg
    rcases hmsg with hold | rfl
    · exact howns.sound msg hold
    · exact hsized
  · have hreceived : holding.units (queuePackage s bytes).ext =
        received s.ext ++ [(s.memoryPool.units, bytes.length)] := List.map_append
    rw [hreceived, ← List.append_assoc]
    exact howns.accounts.alloc bytes.length

/-- A package that knows its size is freed with it. -/
theorem dropMsg_owns {rest : List Package} (howns : s.Owns holding)
    (hnodes : s.ext.recvQueue.nodes = msg :: rest) : (dropMsg s msg).Owns holding := by
  have hpop := MyQueue.pop_of_cons hnodes
  have hsized : Sized msg := howns.sound msg (hnodes ▸ List.mem_cons_self)
  have hrest : (dropMsg s msg).ext.recvQueue.nodes = rest := by rw [dropMsg, hpop]
  constructor
  · intro other hother
    rw [hrest] at hother
    exact howns.sound other (hnodes ▸ List.mem_cons_of_mem _ hother)
  · have haccounts := howns.accounts
    have hreceived : received s.ext =
        (msg.unit, msg.bytes.length) :: received (dropMsg s msg).ext := by
      unfold received
      rw [hnodes, hrest, List.map_cons]
    rw [show holding.units s.ext = _ from hreceived] at haccounts
    have hfree := (haccounts.perm List.perm_middle).free
    rw [← hsized.1] at hfree
    exact hfree

theorem dropMsgs_owns {msgs : List Package} (howns : s.Owns holding)
    (hnodes : s.ext.recvQueue.nodes = msgs) :
    (msgs.foldl dropMsg s).Owns holding ∧ (msgs.foldl dropMsg s).ext.recvQueue.nodes = [] := by
  induction msgs generalizing s with
  | nil => exact ⟨howns, hnodes⟩
  | cons msg rest ih =>
      have hrest : (dropMsg s msg).ext.recvQueue.nodes = rest := by
        rw [dropMsg, MyQueue.pop_of_cons hnodes]
      exact ih (dropMsg_owns howns hnodes) hrest

theorem close_owns (howns : s.Owns holding) : (close s).Owns holding := by
  unfold close
  split
  next =>
    have hshut : s.shut.Owns holding := howns.congr rfl rfl rfl
    have hcleared := (dropMsgs_owns hshut rfl).1.clearSendQueue.1
    exact hcleared.congr rfl rfl rfl
  next => exact howns

/-! ## Packages without a size -/

/-- A package is queued whose size was never written, or one has been freed with
such a size. -/
def Unsized (s : SelectClientThread) : Prop :=
  (∃ msg ∈ s.ext.recvQueue.nodes, msg.msgSize = none) ∨
    ∃ unit, .free unit none ∈ s.memoryPool.events

theorem Unsized.not_owns (hunsized : Unsized s) : ¬ s.Owns holding := by
  intro howns
  rcases hunsized with ⟨msg, hmsg, hnone⟩ | ⟨unit, hfree⟩
  · have hsize := (howns.sound msg hmsg).1
    rw [hnone] at hsize
    cases hsize
  · obtain ⟨_, hsize, _⟩ := howns.accounts.freedOnce.sized unit none hfree
    cases hsize

theorem Unsized.queuePackage (hunsized : Unsized s) (bytes : List Byte) :
    Unsized (queuePackage s bytes) := by
  rcases hunsized with ⟨msg, hmsg, hnone⟩ | ⟨unit, hfree⟩
  · exact Or.inl ⟨msg, List.mem_append_left _ hmsg, hnone⟩
  · exact Or.inr ⟨unit, List.mem_append_left _ hfree⟩

theorem unsized_of_short (s : SelectClientThread) (hshort : bytes.length < 2) :
    Unsized (queuePackage s bytes) :=
  Or.inl ⟨_, List.mem_append_right _ (List.mem_singleton_self _), if_neg (Nat.not_le.mpr hshort)⟩

theorem dropMsgs_events (msgs : List Package) (s : SelectClientThread) :
    (msgs.foldl dropMsg s).memoryPool.events =
      s.memoryPool.events ++ msgs.map fun msg => .free msg.unit msg.msgSize := by
  induction msgs generalizing s with
  | nil => exact (List.append_nil _).symm
  | cons msg rest ih =>
      have hdrop : (dropMsg s msg).memoryPool.events =
          s.memoryPool.events ++ [.free msg.unit msg.msgSize] := rfl
      rw [List.foldl_cons, ih, hdrop, List.map_cons, List.append_assoc, List.singleton_append]

theorem dropEntries_events (entries : List QMSend) (s : SelectClientThread) :
    s.memoryPool.events <+: (entries.foldl Endpoint.dropEntry s).memoryPool.events := by
  induction entries generalizing s with
  | nil => exact List.prefix_rfl
  | cons entry rest ih => exact (List.prefix_append _ _).trans (ih (s.dropEntry entry))

/-- `Close` frees what it finds with whatever size it finds there. -/
theorem Unsized.close (hunsized : Unsized s) : Unsized (close s) := by
  unfold SelectClientThread.close
  split
  next =>
    have hevents : s.memoryPool.events ++
          (s.ext.recvQueue.nodes.map fun msg => .free msg.unit msg.msgSize) <+:
        ((clearQueue s.shut).clearBuffer clientSendBufferSize).memoryPool.events := by
      have hdropped := dropMsgs_events s.ext.recvQueue.nodes s.shut
      have hcleared := dropEntries_events
        (s.ext.recvQueue.nodes.foldl dropMsg s.shut).sendQueue.nodes
        (s.ext.recvQueue.nodes.foldl dropMsg s.shut)
      rw [hdropped] at hcleared
      exact hcleared
    refine Or.inr ?_
    rcases hunsized with ⟨msg, hmsg, hnone⟩ | ⟨unit, hfree⟩
    · refine ⟨msg.unit, hevents.subset (List.mem_append_right _ ?_)⟩
      exact List.mem_map.mpr ⟨msg, hmsg, congrArg (PoolEvent.free msg.unit) hnone⟩
    · exact ⟨unit, hevents.subset (List.mem_append_left _ hfree)⟩
  next => exact hunsized

/-! ## Headers that fit into their package -/

/-- How many packages can come to a queue of this size before the client closes. -/
def room (size : Int) : Nat := (clientRecvQueueMaxAccumulateCount + 1 - size).toNat

/-- Of the packages that the stream is cut into while there is room, each holds
its size field: no header with size 0 or 1 is met. -/
def SizesHeld (stream : List Byte) (size : Int) : Prop :=
  (∀ frame ∈ (headRule.parse stream).frames.take (room size), 2 ≤ frame.length) ∧
    ((headRule.parse stream).ending = .stuck →
      room size ≤ (headRule.parse stream).frames.length)

section Streams

variable {stream rest frame : List Byte} {size : Int}

theorem room_pos (hsize : size ≤ clientRecvQueueMaxAccumulateCount) :
    room size = room (size + 1) + 1 := by
  unfold room
  omega

theorem sizesHeld_of_full (hfull : (clientRecvQueueMaxAccumulateCount : Int) < size) :
    SizesHeld stream size := by
  have hnone : room size = 0 := by
    unfold room
    omega
  unfold SizesHeld
  rw [hnone]
  exact ⟨fun _ hmem => absurd hmem List.not_mem_nil, fun _ => Nat.zero_le _⟩

theorem sizesHeld_of_frame (hsize : size ≤ clientRecvQueueMaxAccumulateCount)
    (hparse : headRule.parse stream = (headRule.parse rest).after [frame]) :
    SizesHeld stream size ↔ 2 ≤ frame.length ∧ SizesHeld rest (size + 1) := by
  simp only [SizesHeld, hparse, room_pos hsize, Framing.Parsed.frames_after,
    Framing.Parsed.ending_after, List.singleton_append, List.take_succ_cons, List.forall_mem_cons,
    List.length_cons, Nat.add_le_add_iff_right, and_assoc]

theorem not_sizesHeld_of_stuck (hsize : size ≤ clientRecvQueueMaxAccumulateCount)
    (hparse : headRule.parse stream = ⟨[], .stuck⟩) : ¬ SizesHeld stream size := by
  rintro ⟨_, hroom⟩
  rw [hparse, room_pos hsize] at hroom
  exact absurd (hroom rfl) (Nat.not_succ_le_zero _)

theorem sizesHeld_of_ending {ending : Framing.Ending Byte}
    (hparse : headRule.parse stream = ⟨[], ending⟩)
    (hending : ending ≠ .stuck) : SizesHeld stream size := by
  rw [SizesHeld, hparse, List.take_nil]
  exact ⟨fun _ hmem => absurd hmem List.not_mem_nil, fun hstuck => absurd hstuck hending⟩

end Streams

/-! ## The receive loop -/

/-- What the loop has made of the pool so far, and what is still ahead decides:
the client owns its packages, or an earlier header was too small for that. -/
def Verdict (start : Prop) (s : SelectClientThread) (ahead : Prop) : Prop :=
  s.Owns holding ∧ (start ↔ ahead) ∨ Unsized s ∧ ¬ start

section Loop

variable {start : Prop} {oRecv : OBuffer (Memory Byte)} {count : Nat}

theorem Verdict.done {ahead : Prop} (hverdict : Verdict start s ahead) (hahead : ahead) :
    Verdict start s True :=
  hverdict.imp_left fun hleft => ⟨hleft.1, hleft.2.trans (iff_true_intro hahead)⟩

theorem Verdict.owns_iff (hverdict : Verdict start s True) : s.Owns holding ↔ start := by
  rcases hverdict with ⟨howns, hiff⟩ | ⟨hunsized, hnot⟩
  · exact iff_of_true howns (hiff.mpr trivial)
  · exact iff_of_false hunsized.not_owns hnot

theorem Verdict.close {ahead : Prop} (hverdict : Verdict start s ahead) :
    Verdict start (close s) ahead := by
  rcases hverdict with ⟨howns, hiff⟩ | ⟨hunsized, hnot⟩
  · exact Or.inl ⟨close_owns howns, hiff⟩
  · exact Or.inr ⟨hunsized.close, hnot⟩

/-- A package is queued: it is the first that the stream ahead is cut into. -/
theorem Verdict.queuePackage (hroom : s.ext.recvQueue.size ≤ clientRecvQueueMaxAccumulateCount)
    (hverdict : Verdict start s (SizesHeld oRecv.unread s.ext.recvQueue.size))
    (hhead : 6 ≤ oRecv.unread.length) (hsize : headRule.size oRecv.unread = some count)
    (hlen : count ≤ oRecv.unread.length) :
    Verdict start (queuePackage s (oRecv.unread.take count))
      (SizesHeld (oRecv.unread.drop count) (s.ext.recvQueue.size + 1)) := by
  rcases hverdict with ⟨howns, hiff⟩ | ⟨hunsized, hnot⟩
  · have htake : (oRecv.unread.take count).length = count := List.length_take_of_le hlen
    rcases Nat.eq_zero_or_pos count with rfl | hpos
    · -- a size of 0 fills the queue with empty packages
      have hstuck := not_sizesHeld_of_stuck hroom (Framing.parse_stuck hhead hsize)
      exact Or.inr ⟨unsized_of_short s (by rw [htake]; exact Nat.succ_pos 1), fun hstart =>
        hstuck (hiff.mp hstart)⟩
    · have hframe := sizesHeld_of_frame hroom (Framing.parse_frame hhead hsize hpos hlen)
      by_cases hshort : 2 ≤ count
      · have hsized : Sized ⟨s.memoryPool.units, oRecv.unread.take count⟩ := by
          apply sized_of_frame
          · rw [htake]
            exact hshort
          · rw [htake, ushort_take hshort, ← headRule_size_eq hsize]
          · rw [htake]
            exact headRule_size_le hsize
        refine Or.inl ⟨queuePackage_owns howns hsized, hiff.trans (hframe.trans ?_)⟩
        rw [htake]
        exact and_iff_right hshort
      · -- one byte is not enough for the size that `free` will read
        refine Or.inr ⟨unsized_of_short s (by omega), fun hstart => hshort ?_⟩
        have hheld := hframe.mp (hiff.mp hstart)
        rw [htake] at hheld
        exact hheld.1
  · exact Or.inr ⟨hunsized.queuePackage _, hnot⟩

/-- At the head of every pass. -/
structure Cutting (start : Prop) (first : SelectClientThread)
    (state : OBuffer (Memory Byte) × SelectClientThread) : Prop where
  valid : state.1.Valid
  receiving : Receiving first state.2
  room : state.2.ext.recvQueue.size ≤ clientRecvQueueMaxAccumulateCount
  verdict : Verdict start state.2 (SizesHeld state.1.unread state.2.ext.recvQueue.size)

theorem Cutting.again {first : SelectClientThread}
    {state later : OBuffer (Memory Byte) × SelectClientThread}
    (hcutting : Cutting start first state) (hbody : recvPass onPackage state = .again later) :
    Cutting start first later := by
  obtain ⟨count, hsize, hhead, hlen, htake, hvalid, _, hunread⟩ :=
    recvPass_again hcutting.valid hbody
  obtain ⟨hnext, hroom⟩ := onPackage_more htake
  have hverdict := hcutting.verdict.queuePackage hcutting.room hhead hsize hlen
  refine ⟨hvalid, ?_, hroom, ?_⟩
  · rw [hnext]
    exact hcutting.receiving.queuePackage _
  · rw [hnext, hunread]
    exact hverdict

theorem Cutting.visits {first : SelectClientThread}
    {state later : OBuffer (Memory Byte) × SelectClientThread}
    (hcutting : Cutting start first state)
    (hvisits : Loop.Visits (recvPass onPackage) state later) : Cutting start first later :=
  Loop.Visits.invariant (fun _ _ hstate hbody => hstate.again hbody) hcutting hvisits

/-- How the loop leaves the pool. -/
def Judged (start : Prop) (first : SelectClientThread) :
    Option (RecvExit SelectClientThread) → Prop
  | none => False
  | some (.stopped _ t) => Receiving first t ∧
      t.ext.recvQueue.size ≤ clientRecvQueueMaxAccumulateCount ∧ Verdict start t True
  | some (.tooLong t) => Verdict start t True
  | some (.full t) => ∃ last, Receiving first last ∧ t = close last ∧ Verdict start t True

theorem Cutting.leave {first : SelectClientThread}
    {state : OBuffer (Memory Byte) × SelectClientThread}
    {exit : Option (RecvExit SelectClientThread)} (hcutting : Cutting start first state)
    (hbody : recvPass onPackage state = .leave exit) : Judged start first exit := by
  rcases recvPass_cases onPackage state.2 hcutting.valid with
    ⟨hpart, hpass⟩ | ⟨hhead, hsize, hpass⟩ | ⟨count, hhead, hsize, hlen, hpass⟩
  · cases hpass.symm.trans hbody
    have hahead : SizesHeld state.1.unread state.2.ext.recvQueue.size :=
      sizesHeld_of_ending (Framing.parse_of_unfinished hpart) (by simp)
    exact ⟨hcutting.receiving, hcutting.room, hcutting.verdict.done hahead⟩
  · cases hpass.symm.trans hbody
    have hahead : SizesHeld state.1.unread state.2.ext.recvQueue.size :=
      sizesHeld_of_ending (Framing.parse_refused hhead hsize) (by simp)
    exact hcutting.verdict.done hahead
  · have hverdict := hcutting.verdict.queuePackage hcutting.room hhead hsize hlen
    rw [hbody] at hpass
    split at hpass
    next => cases hpass
    next t htake =>
      cases hpass
      obtain ⟨rfl, hfull⟩ := onPackage_full htake
      exact ⟨_, hcutting.receiving.queuePackage _, rfl,
        hverdict.close.done (sizesHeld_of_full hfull)⟩

theorem Cutting.judged {first : SelectClientThread}
    {state : OBuffer (Memory Byte) × SelectClientThread}
    {exit : Option (RecvExit SelectClientThread)} (hcutting : Cutting start first state)
    (hyields : Loop.Yields (recvPass onPackage) state exit) : Judged start first exit :=
  Loop.Yields.induction (fun _ _ hstate hbody => Cutting.again hstate hbody)
    (fun _ _ hstate hbody => Cutting.leave hstate hbody) hcutting hyields

end Loop

/-! ## Between the calls -/

/-- The client owns its packages, and no more wait than it lets wait. -/
structure RecvOwned (s : SelectClientThread) : Prop where
  inv : Inv s
  owns : s.Owns holding
  room : s.ext.recvQueue.size ≤ clientRecvQueueMaxAccumulateCount

theorem new_recvOwned (sendBuf recvBuf package : Memory Byte) (test : Option TestCounters) :
    RecvOwned (new sendBuf recvBuf package test) :=
  ⟨new_inv sendBuf recvBuf package test,
    ⟨fun _ hmsg => absurd hmsg List.not_mem_nil, PoolLog.accounts_new⟩, Int.natCast_nonneg _⟩

theorem room_of_empty (hcounted : s.ext.recvQueue.Counted) (hnodes : s.ext.recvQueue.nodes = []) :
    s.ext.recvQueue.size ≤ clientRecvQueueMaxAccumulateCount := by
  rw [MyQueue.Counted, hnodes] at hcounted
  rw [hcounted]
  exact Int.natCast_nonneg _

theorem close_room (hsend : s.SendInv) (hcounted : s.ext.recvQueue.Counted)
    (hopen : s.sock ≠ invalidSocket) :
    (close s).ext.recvQueue.size ≤ clientRecvQueueMaxAccumulateCount := by
  obtain ⟨_, _, hkept, hidle⟩ := close_spec hsend
  exact room_of_empty (hkept hcounted) (hidle hopen).2

theorem RecvOwned.close (howned : RecvOwned s) : RecvOwned (close s) := by
  refine ⟨howned.inv.close, close_owns howned.owns, ?_⟩
  by_cases hsock : s.sock = invalidSocket
  · rw [SelectClientThread.close, if_neg (not_not.mpr hsock)]
    exact howned.room
  · exact close_room howned.inv.send howned.inv.counted hsock

theorem RecvOwned.of_same (howned : RecvOwned s) (hinv : Inv next) (howns : next.Owns holding)
    (hext : next.ext = s.ext) : RecvOwned next :=
  ⟨hinv, howns, hext ▸ howned.room⟩

theorem RecvOwned.sendData (howned : RecvOwned s) (data : Memory Byte) (dataLen : Nat) :
    RecvOwned (sendData s data dataLen).2 :=
  howned.of_same (howned.inv.sendData data dataLen) (howned.owns.sendData data dataLen)
    (Endpoint.sendData_spec howned.inv.send data dataLen).1.ext

theorem RecvOwned.sendMsg (howned : RecvOwned s) (msg : Memory Byte) :
    RecvOwned (sendMsg s msg).2 :=
  howned.of_same (howned.inv.sendMsg msg) (howned.owns.sendMsg msg)
    (Endpoint.sendMsg_spec howned.inv.send msg).1.ext

theorem RecvOwned.sendThread (howned : RecvOwned s) {answers : Nat → SendAnswer} {value : Int}
    (hsend : sendThread answers s = some (value, next)) : RecvOwned next := by
  have howns := howned.owns.runSend (fun _ => close_owns) hsend
  have hinv := howned.inv.sendThread hsend
  by_cases hsock : s.sock = invalidSocket
  · have hsame : SelectClientThread.sendThread answers s = some (-1, s) := if_pos hsock
    cases hsame.symm.trans hsend
    exact howned
  · obtain ⟨_, t, hrun, hreturns⟩ := Endpoint.runSend_spec SelectClientThread.close
      clientSendQueueMaxAccumulateCount answers howned.inv.send hsock
    cases hrun.symm.trans hsend
    rcases hreturns with ⟨_, hkept⟩ | ⟨_, last, hkept, rfl⟩
    · exact howned.of_same hinv howns hkept.same.ext
    · refine ⟨hinv, howns, close_room hkept.inv ?_ fun hclosed => ?_⟩
      · rw [hkept.same.ext]
        exact howned.inv.counted
      · exact hsock (hkept.same.sock.symm.trans hclosed)

theorem RecvOwned.connect (howned : RecvOwned s) (answer : ConnectAnswer) :
    RecvOwned (connect answer s).2 := by
  have hclosed := howned.close
  have hopened : ∀ sock : Socket,
      RecvOwned { SelectClientThread.close s with sock, kernel := [] } := fun sock =>
    ⟨(hclosed.inv.reopen howned.inv.close_sock sock).1, hclosed.owns.congr rfl rfl rfl,
      hclosed.room⟩
  cases answer with
  | noSocket => exact hclosed
  | refused sock => exact (hopened sock).close
  | connected sock => exact hopened sock

/-- `OnRun` copies a package that knows its size, and frees it. -/
theorem onRunMsg_owns {rest : List Package} (howns : s.Owns holding)
    (hnodes : s.ext.recvQueue.nodes = msg :: rest) :
    ∃ t, onRunMsg s msg = some t ∧ t.Owns holding ∧ t.ext.recvQueue.nodes = rest := by
  obtain ⟨hsize, hmax⟩ : Sized msg := howns.sound msg (hnodes ▸ List.mem_cons_self)
  obtain ⟨hsound, haccounts⟩ := dropMsg_owns howns hnodes
  have hfits : ¬ (packageMaxSize < msg.bytes.length ∨ msg.bytes.length < msg.bytes.length) := by
    omega
  let package := fillPackage s.package ((CharData.bytes msg).read 0 msg.bytes.length)
  refine ⟨{ dropMsg s msg with
    package
    ext := { (dropMsg s msg).ext with
      delivered := s.ext.delivered ++ [package.read 0 packageMaxSize] } }, ?_,
    ⟨hsound, haccounts⟩, ?_⟩
  · rw [onRunMsg, hsize]
    exact if_neg hfits
  · rw [dropMsg, MyQueue.pop_of_cons hnodes]

theorem onRunMsgs_owns {msgs : List Package} (howns : s.Owns holding)
    (hnodes : s.ext.recvQueue.nodes = msgs) :
    ∃ t, msgs.foldlM onRunMsg s = some t ∧ t.Owns holding ∧ t.ext.recvQueue.nodes = [] := by
  induction msgs generalizing s with
  | nil => exact ⟨s, rfl, howns, hnodes⟩
  | cons msg rest ih =>
      obtain ⟨middle, hdeliver, hmiddle, hrest⟩ := onRunMsg_owns howns hnodes
      obtain ⟨t, hfold, ht, hempty⟩ := ih hmiddle hrest
      exact ⟨t, by rw [List.foldlM_cons, hdeliver]; exact hfold, ht, hempty⟩

theorem RecvOwned.onRun (howned : RecvOwned s) (hopen : s.sock ≠ invalidSocket) :
    ∃ next, onRun s = some (0, next) ∧ RecvOwned next ∧ next.ext.recvQueue.nodes = [] := by
  obtain ⟨next, hfold, howns, hempty⟩ := onRunMsgs_owns howned.owns rfl
  have hrun : SelectClientThread.onRun s = some (0, next) := by
    rw [SelectClientThread.onRun, if_neg hopen, hfold]
    rfl
  have hinv := howned.inv.onRun hrun
  exact ⟨next, hrun, ⟨hinv, howns, room_of_empty hinv.counted hempty⟩, hempty⟩

/-- The receive loop at its start. -/
theorem RecvOwned.cutting (howned : RecvOwned s) (bytes : List Byte) :
    Cutting (SizesHeld (s.retained ++ bytes) s.ext.recvQueue.size) s (s.recvStart bytes) := by
  obtain ⟨rest, hretained⟩ := howned.inv.recv
  obtain ⟨hvalid, hunread⟩ := hretained.behind bytes
  refine ⟨hvalid, howned.inv.recvStart bytes, howned.room,
    Or.inl ⟨howned.owns.congr rfl rfl rfl, ?_⟩⟩
  have hstream : (s.recvStart bytes).1.unread = s.retained ++ bytes := by
    rw [Endpoint.retained, hretained.read]
    exact hunread
  rw [hstream]
  exact Iff.rfl

/-- A `RecvThread` leaves the client the owner of its packages exactly if each
of them holds its size. -/
theorem RecvOwned.readable (howned : RecvOwned s) (hopen : s.sock ≠ invalidSocket)
    {answer : RecvAnswer} {value : Int} (hreturns : Returns (.readable answer) s value next) :
    next.ext.recvQueue.size ≤ clientRecvQueueMaxAccumulateCount ∧
      (next.Owns holding ↔ SizesHeld (s.retained ++
        answer.received s.sock (clientRecvBufferSize - s.retainSize)) s.ext.recvQueue.size) := by
  rcases returns_cases howned.inv hopen hreturns with
    ⟨hnone, _, rfl⟩ | ⟨_, exit, hyields, hexit⟩
  · refine ⟨howned.close.room, iff_of_true howned.close.owns ?_⟩
    obtain ⟨rest, hretained⟩ := howned.inv.recv
    rw [hnone, List.append_nil, Endpoint.retained, hretained.read]
    exact sizesHeld_of_ending (Framing.parse_of_unfinished hretained.part) (by simp)
  · have hjudged : Judged (SizesHeld (s.retained ++
        answer.received s.sock (clientRecvBufferSize - s.retainSize)) s.ext.recvQueue.size) s
        (some exit) :=
      Loop.Yields.induction (fun _ _ hstate hbody => Cutting.again hstate hbody)
        (fun _ _ hstate hbody => Cutting.leave hstate hbody) (howned.cutting _) hyields
    rcases hexit with ⟨oRecv, t, rfl, _, rfl⟩ | ⟨t, rfl, _, rfl⟩
    · obtain ⟨_, hroom, hverdict⟩ := hjudged
      have hsame : (t.recvStop oRecv).Owns holding ↔ t.Owns holding :=
        ⟨fun howns => howns.congr rfl rfl rfl, fun howns => howns.congr rfl rfl rfl⟩
      exact ⟨hroom, hsame.trans hverdict.owns_iff⟩
    · obtain ⟨last, hreceiving, rfl, hverdict⟩ := hjudged
      -- the full queue has closed the client, and closing it again does nothing
      have hclosed := (close_spec hreceiving.send).1.sock
      have hsame : SelectClientThread.close (SelectClientThread.close last) =
          SelectClientThread.close last := if_neg (not_not.mpr hclosed)
      rw [hsame]
      exact ⟨close_room hreceiving.send hreceiving.counted (hreceiving.sock ▸ hopen),
        hverdict.owns_iff⟩

/-! ## Runs -/

/-- What a client reads meets no header with size 0 or 1 while it has room. -/
def Allowed (s : SelectClientThread) : Event → Prop
  | .recvThread (.readable answer) => SizesHeld (s.retained ++
      answer.received s.sock (clientRecvBufferSize - s.retainSize)) s.ext.recvQueue.size
  | _ => True

theorem recvOwned_of_reachable (hreach : (machine.restrict Allowed).Reachable s) :
    RecvOwned s := by
  refine Machine.Reachable.invariant_restrict ?_ ?_ hreach
  · rintro _ ⟨sendBuf, recvBuf, package, test, rfl⟩
    exact new_recvOwned sendBuf recvBuf package test
  · intro s event next howned hallowed hstep
    cases event with
    | sendData data dataLen => cases hstep; exact howned.sendData data dataLen
    | sendMsg msg => cases hstep; exact howned.sendMsg msg
    | sendThread answers =>
        obtain ⟨value, hsend⟩ := hstep
        exact howned.sendThread hsend
    | recvThread answer =>
        obtain ⟨value, hreturns⟩ := hstep
        have hinv := howned.inv.recvThread hreturns
        by_cases hopen : s.sock = invalidSocket
        · obtain ⟨fuel, hcall⟩ := hreturns
          unfold recvThread at hcall
          rw [if_pos hopen] at hcall
          cases hcall
          exact howned
        · cases answer with
          | selectFailed =>
              obtain ⟨fuel, hcall⟩ := hreturns
              rw [recvThread, if_neg hopen] at hcall
              cases hcall
              exact howned.close
          | notReadable =>
              obtain ⟨fuel, hcall⟩ := hreturns
              rw [recvThread, if_neg hopen] at hcall
              cases hcall
              exact howned
          | readable answer =>
              obtain ⟨hroom, howns⟩ := howned.readable hopen hreturns
              exact ⟨hinv, howns.mpr hallowed, hroom⟩
    | onRun =>
        obtain ⟨value, hrun⟩ := hstep
        by_cases hopen : s.sock = invalidSocket
        · rw [onRun, if_pos hopen] at hrun
          cases hrun
          exact howned
        · obtain ⟨last, hlast, hkept, _⟩ := howned.onRun hopen
          cases hlast.symm.trans hrun
          exact hkept
    | connect answer => cases hstep; exact howned.connect answer
    | close => cases hstep; exact howned.close

/-- Every package that was allocated is queued or has been freed, once and with
the size it was allocated with, and a queued one says that size, with which it
fits `_package`. -/
structure PackagesFreed (s : SelectClientThread) : Prop where
  accounts : s.memoryPool.Accounts (s.queued ++ received s.ext)
  freedOnce : s.memoryPool.FreedOnce
  readBack : ∀ msg ∈ s.ext.recvQueue.nodes, msg.msgSize = some msg.bytes.length
  copied : ∀ msg ∈ s.ext.recvQueue.nodes, msg.bytes.length ≤ packageMaxSize

theorem packagesFreed_iff : PackagesFreed s ↔ s.Owns holding := by
  constructor
  · rintro ⟨haccounts, _, hread, hcopied⟩
    exact ⟨fun msg hmsg => ⟨hread msg hmsg, hcopied msg hmsg⟩, haccounts⟩
  · rintro ⟨hsound, haccounts⟩
    exact ⟨haccounts, haccounts.freedOnce, fun msg hmsg => (hsound msg hmsg).1,
      fun msg hmsg => (hsound msg hmsg).2⟩

/-- Nothing is left behind a `Close`. -/
theorem RecvOwned.closed (howned : RecvOwned s) :
    (SelectClientThread.close s).memoryPool.Accounts [] := by
  have hclosed := howned.close
  obtain ⟨hidle, hnodes⟩ := hclosed.inv.closed howned.inv.close_sock
  have haccounts := hclosed.owns.accounts
  rw [Endpoint.queued, hidle.nodes, show holding.units _ = received _ from rfl, received,
    hnodes] at haccounts
  exact haccounts

/-- In every run in which no header with size 0 or 1 is met, received packages
are freed as they were allocated, by `OnRun` and `Close`, which leave none; and
a single `RecvThread` keeps it so only if it meets no such header. -/
theorem packages_freed_iff {s : SelectClientThread}
    (hreach : (machine.restrict Allowed).Reachable s) :
    (PackagesFreed s ∧ (close s).memoryPool.Accounts [] ∧
      (s.sock ≠ invalidSocket → ∃ next, onRun s = some (0, next) ∧ PackagesFreed next ∧
        next.ext.recvQueue.nodes = []) ∧
      ∀ bytes state, SizesHeld (s.retained ++ bytes) s.ext.recvQueue.size →
        Loop.Visits (recvPass onPackage) (s.recvStart bytes) state → PackagesFreed state.2) ∧
    ∀ answer value next, s.sock ≠ invalidSocket → Returns (.readable answer) s value next →
      (PackagesFreed next ↔ Allowed s (.recvThread (.readable answer))) := by
  have howned := recvOwned_of_reachable hreach
  constructor
  · refine ⟨packagesFreed_iff.mpr howned.owns, howned.closed, fun hopen => ?_, ?_⟩
    · obtain ⟨next, hrun, hnext, hempty⟩ := howned.onRun hopen
      exact ⟨next, hrun, packagesFreed_iff.mpr hnext.owns, hempty⟩
    · intro bytes state hheld hvisits
      rcases ((howned.cutting bytes).visits hvisits).verdict with ⟨howns, _⟩ | ⟨_, hnot⟩
      · exact packagesFreed_iff.mpr howns
      · exact absurd hheld hnot
  · intro answer value next hopen hreturns
    exact packagesFreed_iff.trans (howned.readable hopen hreturns).2

/-- A client that has just connected. -/
def connected : SelectClientThread :=
  (connect (.connected 5) (new (fun _ => 0) (fun _ => 0) (fun _ => 0) none)).2

theorem connected_reachable : (machine.restrict Allowed).Reachable connected := by
  have hnew : (machine.restrict Allowed).Reachable
      (new (fun _ => 0) (fun _ => 0) (fun _ => 0) none) := .start ⟨_, _, _, _, rfl⟩
  exact hnew.step_restrict (.connect (.connected 5)) trivial rfl

theorem allowed_of_message {answer : RecvAnswer} (frame rest : List Byte)
    (hparse : headRule.parse (s.retained ++
      answer.received s.sock (clientRecvBufferSize - s.retainSize)) = ⟨[frame], .rest rest⟩)
    (hlen : 2 ≤ frame.length) : Allowed s (.recvThread (.readable answer)) := by
  refine ⟨?_, fun hstuck => ?_⟩
  · rw [hparse]
    intro other hother
    rw [List.mem_singleton.mp (List.mem_of_mem_take hother)]
    exact hlen
  · rw [hparse] at hstuck
    cases hstuck

/-- Two messages come in two chunks, cut inside the second. `OnRun` frees their
packages with their lengths, and so would `Close`. -/
theorem packages_freed_two_messages :
    ∃ s, (machine.restrict Allowed).Reachable s ∧ PackagesFreed s ∧
      s.memoryPool.events = [.alloc 0 8, .alloc 1 6] ∧
      (close s).memoryPool.events =
        [.alloc 0 8, .alloc 1 6, .free 0 (some 8), .free 1 (some 6)] ∧
      (close s).memoryPool.Accounts [] ∧
      ∃ next, onRun s = some (0, next) ∧ PackagesFreed next ∧ next.ext.recvQueue.nodes = [] ∧
        next.memoryPool.events =
          [.alloc 0 8, .alloc 1 6, .free 0 (some 8), .free 1 (some 6)] := by
  obtain ⟨s, hreach, hsock, hevents, hclosed, last, hrun, hlast⟩ : ∃ s,
      (machine.restrict Allowed).Reachable s ∧ s.sock = 5 ∧
      s.memoryPool.events = [.alloc 0 8, .alloc 1 6] ∧
      (close s).memoryPool.events =
        [.alloc 0 8, .alloc 1 6, .free 0 (some 8), .free 1 (some 6)] ∧
      ∃ last, onRun s = some (0, last) ∧ last.memoryPool.events =
        [.alloc 0 8, .alloc 1 6, .free 0 (some 8), .free 1 (some 6)] := by
    have hfirst := connected_reachable.step_restrict
      (.recvThread (.readable (.data [8, 0, 2, 0, 0, 0, 104, 105, 6, 0, 2])))
      (allowed_of_message [8, 0, 2, 0, 0, 0, 104, 105] [6, 0, 2] (by decide) (by decide))
      ⟨0, 2, rfl⟩
    have hsecond := hfirst.step_restrict (.recvThread (.readable (.data [0, 0, 0])))
      (allowed_of_message [6, 0, 2, 0, 0, 0] [] (by decide) (by decide)) ⟨0, 2, rfl⟩
    exact ⟨_, hsecond, rfl, rfl, rfl, _, rfl, rfl⟩
  obtain ⟨⟨hfreed, haccounts, hdelivers, _⟩, _⟩ := packages_freed_iff hreach
  have hopen : s.sock ≠ invalidSocket := by
    rw [hsock]
    decide
  obtain ⟨next, hnext, hkept, hempty⟩ := hdelivers hopen
  cases hrun.symm.trans hnext
  exact ⟨s, hreach, hfreed, hevents, hclosed, haccounts, last, hrun, hkept, hempty, hlast⟩

/-- Six zeros are a header of size 0. The client allocates empty packages until
its queue is too long, and closes: it frees them with a size that it reads from
bytes it never wrote. What these hold is the pool's: in a new pool of the
smallest units, `Alloc` leaves the number of the next free unit there. -/
theorem empty_package_unsized :
    (∃ next unit, Returns (.readable (.data (List.replicate 6 0))) connected (-1) next ∧
      .free unit none ∈ next.memoryPool.events ∧ ¬ PackagesFreed next) ∧
    ∃ pool heap p heap', MemoryPool.new .vacant 4096 16 1000 1000 = some (pool, heap) ∧
      pool.alloc heap 0 = some (p, pool, heap') ∧ heap'.loadUShort p = 1 := by
  constructor
  · have howned := recvOwned_of_reachable connected_reachable
    have hopen : connected.sock ≠ invalidSocket := by decide
    have hcutting := howned.cutting (List.replicate 6 0)
    obtain ⟨exit, hyields⟩ := recvLoop_ends hcutting.valid
      (connected.recvStart (List.replicate 6 0)).2
    have hparse : headRule.parse (List.replicate 6 0) = ⟨[], .stuck⟩ :=
      Framing.parse_stuck (by decide) (by decide)
    have hunread : (connected.recvStart (List.replicate 6 0)).1.unread = List.replicate 6 0 := by
      decide
    obtain ⟨t, rfl⟩ := full_of_stuck hcutting.valid (by rw [hunread, hparse]) hyields
    obtain ⟨last, hreceiving, rfl, hverdict⟩ := hcutting.judged hyields
    have hunsized : Unsized (close last) := by
      rcases hverdict with ⟨_, hheld⟩ | ⟨hunsized, _⟩
      · have hnot := not_sizesHeld_of_stuck howned.room hparse
        exact absurd (hheld.mpr trivial) hnot
      · exact hunsized
    have hempty := ((close_spec hreceiving.send).2.2.2 (hreceiving.sock ▸ hopen)).2
    have hclosed := (close_spec hreceiving.send).1.sock
    have hsame : close (close last) = close last := if_neg (not_not.mpr hclosed)
    have hreturns : Returns (.readable (.data (List.replicate 6 0))) connected (-1)
        (close last) := by
      have hreceived : (RecvAnswer.data (List.replicate 6 0)).received connected.sock
          (clientRecvBufferSize - connected.retainSize) = List.replicate 6 0 := by decide
      have hfull : Loop.Yields (recvPass onPackage) (connected.recvStart
          ((RecvAnswer.data (List.replicate 6 0)).received connected.sock
            (clientRecvBufferSize - connected.retainSize))) (some (.full (close last))) := by
        rw [hreceived]
        exact hyields
      have hcall := returns_of_yields hopen (by decide) hfull rfl
      rw [if_pos rfl, if_pos rfl, hsame] at hcall
      exact hcall
    -- closing has emptied the queue, so the package without a size was freed
    rcases hunsized with ⟨msg, hmsg, _⟩ | ⟨unit, hfree⟩
    · rw [hempty] at hmsg
      cases hmsg
    · refine ⟨close last, unit, hreturns, hfree, fun hfreed => ?_⟩
      obtain ⟨_, hsize, _⟩ := hfreed.freedOnce.sized unit none hfree
      cases hsize
  · have hfresh : Heap.vacant.Fresh 4096 (sizeofMemoryBlock + 18 * 1000) :=
      Heap.vacant_fresh (by decide) (by decide)
    obtain ⟨pool, heap, hnew, _⟩ : ∃ pool heap, MemoryPool.new .vacant 4096 16 1000 1000 =
        some (pool, heap) ∧ heap.sizes = _ :=
      MemoryPool.exists_new (by decide) (by decide) (by decide) (by decide) (by decide) hfresh
    obtain ⟨hstores, _⟩ := MemoryPool.new_spec hnew Heap.vacant_apart hfresh (by omega)
      (by omega) (by omega)
    have hfree : (grown 4096 1000).free = 0 :: 1 :: List.range' 2 998 := by
      rw [MemoryPool.grown_free (by decide)]
      rfl
    obtain ⟨heap', halloc, hnext, hbytes, _⟩ := MemoryPool.alloc_of_free hstores hfree 0
    have hlink := (hstores.holds _ (List.mem_singleton_self _)).link_eq hfree
    refine ⟨pool, heap, _, heap', hnew, halloc, ?_⟩
    rw [Heap.loadUShort, hbytes]
    exact hlink

end SelectNet.SelectClientThread
