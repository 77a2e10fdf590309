import SelectNet.ClientTest.Client04
import SelectNet.Connection.RecvFraming

/-!
# What the load generator sends

The array is filled with whole messages, one behind the other. `SendData` takes
its length as an `unsigned short`, so all of it is queued only below 65536 bytes.
-/

namespace SelectNet

/-- What the checks of the constructor leave. -/
theorem ClientConfig.positive_of_legal (config : ClientConfig)
    (haccepted : config.illegal = none) :
    1 ≤ config.threadNum ∧ 0 < config.msgLen ∧ 0 < config.msgNum := by
  unfold illegal at haccepted
  simp only [ite_eq_right_iff, reduceCtorEq, imp_false, ite_eq_iff, and_false,
    false_or] at haccepted
  omega

/-! ## One message -/

/-- What one pass of the loop writes. -/
def ClientConfig.head (config : ClientConfig) : List Byte :=
  ushortBytes (config.msgLen % 65536).toNat ++ ushortBytes MsgID.test.code ++ ushortBytes 0 ++
    (config.words ++ [0])

/-- A message of the batch, with the zeros behind it. -/
def ClientConfig.message (config : ClientConfig) : List Byte :=
  config.head ++ List.replicate (config.msgLen.toNat - config.head.length) 0

/-- The bounds on the configured values, besides the checks of the constructor. -/
structure ClientConfig.Bounds (config : ClientConfig) : Prop where
  text : (config.words.length : Int) + 7 ≤ config.msgLen
  package : config.msgLen ≤ packageMaxSize
  int : config.msgLen * config.msgNum < 2 ^ 31

variable {config : ClientConfig}

theorem ClientConfig.length_head (config : ClientConfig) :
    config.head.length = config.words.length + 7 := by
  simp only [head, List.length_append, ushortBytes_length, List.length_singleton]
  omega

theorem ClientConfig.Bounds.length_message (hbounds : config.Bounds) :
    config.message.length = config.msgLen.toNat := by
  have htext := hbounds.text
  have hhead := config.length_head
  simp only [message, List.length_append, List.length_replicate]
  omega

/-- `msgId`, `code` and the text behind the header. -/
structure ClientConfig.IsMessage (config : ClientConfig) (frame : List Byte) : Prop where
  length : (frame.length : Int) = config.msgLen
  msgId : ushort (frame.drop 2) = MsgID.test.code
  code : ushort (frame.drop 4) = 0
  payload : config.words ++ [0] <+: frame.drop 6

theorem ClientConfig.Bounds.isMessage (hbounds : config.Bounds) :
    config.IsMessage config.message := by
  have htext := hbounds.text
  have hlen := hbounds.length_message
  refine ⟨by omega, rfl, rfl, ?_⟩
  exact List.prefix_append _ _

theorem ClientConfig.Bounds.isFrame (hbounds : config.Bounds) :
    headRule.IsFrame config.message := by
  have htext := hbounds.text
  have hpackage := hbounds.package
  have hlen := hbounds.length_message
  have hmax : packageMaxSize = 2048 := rfl
  have hsizeof : MsgHead.sizeof = 6 := rfl
  rw [headRule_isFrame_iff, hlen]
  refine ⟨by omega, ?_, by omega⟩
  have hshort : (config.msgLen % 65536).toNat = config.msgLen.toNat := by omega
  rw [message, head, hshort, List.append_assoc, List.append_assoc, List.append_assoc,
    ushort_append _ (Nat.le_of_eq (ushortBytes_length _).symm), ushort_ushortBytes (by omega)]

/-! ## Filling the array -/

/-- What the passes so far have left: the messages, and zeros behind them. -/
structure ClientConfig.Filled (config : ClientConfig) (count : Nat) (iBuffer : IBuffer) :
    Prop where
  endPos : iBuffer.endPos = config.msgLen * config.msgNum - 1
  front : iBuffer.buf.read 0 (count * config.msgLen.toNat) =
    (List.replicate count config.message).flatten
  back : ∀ address, count * config.msgLen.toNat ≤ address → iBuffer.buf address = 0

theorem IBuffer.writeBytes_of_room {buf : Memory Byte} {start : Nat} {endPos : Int}
    {bytes : List Byte} (hroom : start + bytes.length ≤ endPos + 1) :
    IBuffer.writeBytes ⟨buf, start, endPos⟩ bytes =
      some ⟨buf.write start bytes, (start + bytes.length : Nat), endPos⟩ := by
  rw [writeBytes, if_neg (by simp only [canWrite]; omega), Int.toNat_natCast, Int.natCast_add]

theorem IBuffer.writeUShort_of_room {buf : Memory Byte} {start : Nat} {endPos : Int} (data : Nat)
    (hroom : start + (ushortBytes data).length ≤ endPos + 1) :
    IBuffer.writeUShort ⟨buf, start, endPos⟩ data =
      some ⟨buf.write start (ushortBytes data), (start + (ushortBytes data).length : Nat),
        endPos⟩ := by
  rw [ushortBytes_length] at hroom ⊢
  rw [writeUShort, if_neg (by simp only [canWrite]; omega), Int.toNat_natCast, Int.natCast_add]
  rfl

/-- A pass writes the head of one message where the one before ends. -/
theorem ClientConfig.Bounds.writeMsg (hbounds : config.Bounds) {iBuffer : IBuffer} {count : Nat}
    (hend : iBuffer.endPos = config.msgLen * config.msgNum - 1) (hcount : count < config.msgNum) :
    ∃ next, config.writeMsg iBuffer count = some next ∧ next.endPos = iBuffer.endPos ∧
      next.buf = iBuffer.buf.write (count * config.msgLen.toNat) config.head := by
  have htext := hbounds.text
  have hint := hbounds.int
  have hlenhead := config.length_head
  obtain ⟨len, hlen⟩ : ∃ len : Nat, config.msgLen = len := ⟨config.msgLen.toNat, by omega⟩
  obtain ⟨num, hnum⟩ : ∃ num : Nat, config.msgNum = num := ⟨config.msgNum.toNat, by omega⟩
  rw [hlen, hnum, ← Int.natCast_mul] at hint hend
  rw [hnum] at hcount
  rw [hlen] at htext
  -- the message lies within the array
  have hwithin : (count + 1) * len ≤ num * len := Nat.mul_le_mul_right len (by omega)
  rw [Nat.add_mul, Nat.one_mul, Nat.mul_comm num] at hwithin
  have hstart : Int.bmod (count * config.msgLen) (2 ^ 32) = (count * len : Nat) := by
    rw [hlen, ← Int.natCast_mul, Int.bmod_eq_of_le] <;> omega
  have hseek : iBuffer.seek (Int.bmod (count * config.msgLen) (2 ^ 32)) =
      some ⟨iBuffer.buf, (count * len : Nat), iBuffer.endPos⟩ := by
    rw [hstart, IBuffer.seek, if_pos (by omega)]
  rw [head, List.length_append, List.length_append, List.length_append] at hlenhead
  refine ⟨⟨iBuffer.buf.write (count * config.msgLen.toNat) config.head,
    (count * len + config.head.length : Nat), iBuffer.endPos⟩, ?_, rfl, rfl⟩
  simp only [ClientConfig.writeMsg, hseek, Option.bind_eq_bind, Option.bind_some]
  rw [IBuffer.writeUShort_of_room _ (by omega), Option.bind_some,
    IBuffer.writeUShort_of_room _ (by omega), Option.bind_some,
    IBuffer.writeUShort_of_room _ (by omega), Option.bind_some,
    IBuffer.writeBytes_of_room (by omega)]
  simp only [Nat.add_assoc (count * len), ← List.length_append, Memory.write_write_append]
  rw [show config.msgLen.toNat = len by omega]
  rfl

theorem ClientConfig.Filled.step (hbounds : config.Bounds) {iBuffer : IBuffer} {count : Nat}
    (hfilled : config.Filled count iBuffer) (hcount : count < config.msgNum) :
    ∃ next, config.writeMsg iBuffer count = some next ∧ config.Filled (count + 1) next := by
  obtain ⟨next, hwrite, hend, hbuf⟩ := hbounds.writeMsg hfilled.endPos hcount
  have htext := hbounds.text
  have hhead := config.length_head
  have hsplit : (count + 1) * config.msgLen.toNat = count * config.msgLen.toNat +
      config.head.length + (config.msgLen.toNat - config.head.length) := by
    rw [Nat.add_mul, Nat.one_mul]
    omega
  have hback : ∀ address, count * config.msgLen.toNat + config.head.length ≤ address →
      next.buf address = 0 := by
    intro address haddress
    rw [hbuf, Memory.write_of_ge _ _ haddress]
    exact hfilled.back address (by omega)
  refine ⟨next, hwrite, hend.trans hfilled.endPos, ?_, fun address haddress => ?_⟩
  · have hfront := Memory.read_write_append iBuffer.buf 0 (count * config.msgLen.toNat) config.head
    rw [Nat.zero_add, ← hbuf, hfilled.front] at hfront
    rw [hsplit, Memory.read_add, hfront, Nat.zero_add, Memory.read_eq_replicate _ hback,
      List.append_assoc, List.replicate_succ', List.flatten_append, List.flatten_singleton]
    rfl
  · exact hback address (by omega)

/-- The product of two `int`s that are not negative is what it seems. -/
theorem ClientConfig.Bounds.msgTotalLen_eq (hbounds : config.Bounds) (hnum : 0 ≤ config.msgNum) :
    config.msgTotalLen = config.msgLen * config.msgNum := by
  have htext := hbounds.text
  have hint := hbounds.int
  have hpos : 0 ≤ config.msgLen * config.msgNum := Int.mul_nonneg (by omega) hnum
  rw [msgTotalLen, Int.bmod_eq_of_le] <;> omega

theorem ClientConfig.Bounds.filled (hbounds : config.Bounds) {count : Nat}
    (hcount : count ≤ config.msgNum) :
    ∃ iBuffer, (List.range count).foldlM config.writeMsg
        (.setBuffer (fun _ => 0) config.msgTotalLen) = some iBuffer ∧
      config.Filled count iBuffer := by
  induction count with
  | zero =>
      refine ⟨_, rfl, ?_, ?_, fun _ _ => rfl⟩
      · rw [hbounds.msgTotalLen_eq hcount]
        rfl
      · rw [Nat.zero_mul]
        rfl
  | succ count ih =>
      obtain ⟨iBuffer, hfold, hfilled⟩ := ih (by omega)
      obtain ⟨next, hwrite, hnext⟩ := hfilled.step hbounds (by omega)
      refine ⟨next, ?_, hnext⟩
      rw [List.range_succ, List.foldlM_append, hfold, Option.bind_eq_bind, Option.bind_some,
        List.foldlM_cons, hwrite]
      rfl

/-- No `assert` fails, and the array is the messages one behind the other. -/
theorem ClientConfig.Bounds.fill (hbounds : config.Bounds) (hnum : 0 ≤ config.msgNum) :
    ∃ iBuffer, config.fill = some iBuffer ∧
      iBuffer.buf.read 0 config.msgTotalLen.toNat =
        (List.replicate config.msgNum.toNat config.message).flatten := by
  have hcount : (config.msgNum.toNat : Int) ≤ config.msgNum := by omega
  obtain ⟨iBuffer, hfill, hfilled⟩ := hbounds.filled hcount
  have htext := hbounds.text
  refine ⟨iBuffer, hfill, ?_⟩
  rw [hbounds.msgTotalLen_eq hnum, Int.mul_comm, Int.toNat_mul hnum (by omega)]
  exact hfilled.front

/-! ## Sending it -/

/-- However it is cut, `ProcessorRecv` of a new client hands these frames to the
message handler, and retains nothing. -/
def ReceivedAs (bytes : List Byte) (frames : List (List Byte)) : Prop :=
  ∀ (ω : Type) (handle : MsgHandle ω) (sock : Socket) (world : ω)
    (sendBuf recvBuf package : Memory Byte) (test : Option TestCounters)
    (chunks : List (List Byte)) (s : ClientSocket ω), sock ≠ invalidSocket →
    ClientSocket.RecvRun handle (.new sock world sendBuf recvBuf package test) chunks s →
    chunks.flatten = bytes → s.ext.calls = frames.map padded ∧ s.retainSize = 0

/-- The bytes are so many messages, and nothing is left over. -/
structure ClientConfig.IsBatch (config : ClientConfig) (bytes : List Byte) : Prop where
  count : ((headRule.parse bytes).frames.length : Int) = config.msgNum
  messages : ∀ frame ∈ (headRule.parse bytes).frames, config.IsMessage frame
  whole : (headRule.parse bytes).ending = .rest []
  received : ReceivedAs bytes (headRule.parse bytes).frames

/-- One call of `SendData` queues the batch. -/
def ClientConfig.SendsBatch (config : ClientConfig) (mgr : ClientMgr)
    (client : SelectClientThread) : Prop :=
  ∃ entry, (mgr.sendData client).2.sendQueue.nodes = client.sendQueue.nodes ++ [entry] ∧
    config.IsBatch entry.data.bytes

theorem receivedAs_of_parse {bytes : List Byte} {frames : List (List Byte)}
    (hparse : headRule.parse bytes = ⟨frames, .rest []⟩) : ReceivedAs bytes frames := by
  rintro ω handle sock world sendBuf recvBuf package test chunks s hsock hrun rfl
  have hinv := ClientSocket.new_inv sock world sendBuf recvBuf package test
  have hframed := hrun.framed hsock hinv.send rfl
  obtain ⟨rest, hrest, hretained⟩ := hframed.left
  have hcalls := hframed.calls
  rw [hparse] at hrest hcalls
  cases hrest
  exact ⟨hcalls, hretained.size_eq⟩

theorem ClientConfig.Bounds.isBatch (hbounds : config.Bounds) (hnum : 0 ≤ config.msgNum) :
    config.IsBatch (List.replicate config.msgNum.toNat config.message).flatten := by
  have hparse : headRule.parse (List.replicate config.msgNum.toNat config.message).flatten =
      ⟨List.replicate config.msgNum.toNat config.message, .rest []⟩ :=
    Framing.parse_flatten fun frame hframe => List.eq_of_mem_replicate hframe ▸ hbounds.isFrame
  have hreceived := receivedAs_of_parse hparse
  constructor
  · rw [hparse, List.length_replicate]
    omega
  · rw [hparse]
    exact fun frame hframe => List.eq_of_mem_replicate hframe ▸ hbounds.isMessage
  · rw [hparse]
  · rwa [hparse]

/-- A batch is as long as its messages are together. -/
theorem ClientConfig.IsBatch.length {bytes : List Byte} (hbatch : config.IsBatch bytes)
    (hpos : 0 ≤ config.msgLen) : (bytes.length : Int) = config.msgLen * config.msgNum := by
  obtain ⟨hflatten, -⟩ := Framing.parse_rest hbatch.whole
  have hcount := hbatch.count
  have hlens : (headRule.parse bytes).frames.map List.length =
      List.replicate (headRule.parse bytes).frames.length config.msgLen.toNat := by
    rw [List.map_eq_replicate_iff]
    intro frame hframe
    have hlen := (hbatch.messages frame hframe).length
    omega
  have hlen := congrArg List.length hflatten
  rw [List.append_nil, List.length_flatten, hlens, List.sum_replicate_nat] at hlen
  rw [← hlen, Int.natCast_mul, hcount, Int.toNat_of_nonneg hpos, Int.mul_comm]

theorem ClientMgr.sendData_nodes (mgr : ClientMgr) {client : SelectClientThread}
    (hopen : client.sock ≠ invalidSocket) :
    ∃ entry, (mgr.sendData client).2.sendQueue.nodes = client.sendQueue.nodes ++ [entry] ∧
      entry.data.bytes = mgr.msgData.read 0 (mgr.msgLen % 65536).toNat := by
  rw [ClientMgr.sendData, SelectClientThread.sendData, Endpoint.sendData, if_neg hopen]
  exact ⟨_, rfl, rfl⟩

/-- The length of the data reaches the queue modulo 65536. -/
theorem ClientConfig.Bounds.sendsBatch_iff (hbounds : config.Bounds) (hnum : 0 ≤ config.msgNum)
    {mgr : ClientMgr} (hlen : mgr.msgLen = config.msgLen * config.msgNum)
    (hdata : mgr.msgData.read 0 mgr.msgLen.toNat =
      (List.replicate config.msgNum.toNat config.message).flatten)
    {client : SelectClientThread} (hopen : client.sock ≠ invalidSocket) :
    config.SendsBatch mgr client ↔ mgr.msgLen < 65536 := by
  have htext := hbounds.text
  have hpos : 0 ≤ config.msgLen * config.msgNum := Int.mul_nonneg (by omega) hnum
  obtain ⟨entry, hnodes, hbytes⟩ := mgr.sendData_nodes hopen
  constructor
  · rintro ⟨other, hother, hbatch⟩
    rw [hnodes, List.append_cancel_left_eq, List.singleton_inj] at hother
    subst hother
    have hwhole := hbatch.length (by omega)
    rw [hbytes, Memory.length_read] at hwhole
    omega
  · intro hshort
    refine ⟨entry, hnodes, ?_⟩
    rw [hbytes, Int.emod_eq_of_lt (by omega) hshort, hdata]
    exact hbounds.isBatch hnum

/-- Every thread has a copy of the whole batch. -/
theorem Client04.new_spec (haccepted : config.illegal = none) (hbounds : config.Bounds)
    (fresh : Nat → Memory Byte) :
    ∃ mgrs, Client04.new config fresh = some (.ok mgrs) ∧
      (mgrs.length : Int) = config.threadNum ∧
      ∀ mgr ∈ mgrs, mgr.msgLen = config.msgLen * config.msgNum ∧
        mgr.msgData.read 0 mgr.msgLen.toNat =
          (List.replicate config.msgNum.toNat config.message).flatten := by
  obtain ⟨hthreads, hlen, hnum⟩ := config.positive_of_legal haccepted
  obtain ⟨iBuffer, hfill, hbuf⟩ := hbounds.fill (by omega)
  have hmgrs : Client04.new config fresh = some (.ok ((List.range config.threadNum.toNat).map
      fun i => .new (config.clientNum.tdiv config.threadNum) config.serverIP config.port
        iBuffer.buf config.msgTotalLen (fresh i))) := by
    rw [Client04.new, haccepted, hfill]
    rfl
  refine ⟨_, hmgrs, ?_, ?_⟩
  · rw [List.length_map, List.length_range]
    omega
  · intro mgr hmgr
    obtain ⟨thread, -, rfl⟩ := List.mem_map.mp hmgr
    refine ⟨hbounds.msgTotalLen_eq (by omega), ?_⟩
    have hcopy := Memory.read_write (fresh thread) 0
      (iBuffer.buf.read 0 config.msgTotalLen.toNat)
    rw [Memory.length_read, hbuf] at hcopy
    rw [← hcopy, ← hbuf]
    rfl

/-- One call of `SendData` queues exactly the batch if and only if the batch is
shorter than 65536 bytes. -/
theorem client04_sends_batch_iff (config : ClientConfig) (haccepted : config.illegal = none)
    (hbounds : config.Bounds) (fresh : Nat → Memory Byte) :
    ∃ mgrs, Client04.new config fresh = some (.ok mgrs) ∧
      (mgrs.length : Int) = config.threadNum ∧
      ∀ mgr ∈ mgrs, ∀ client : SelectClientThread, client.sock ≠ invalidSocket →
        (config.SendsBatch mgr client ↔ config.msgLen * config.msgNum < 65536) := by
  obtain ⟨mgrs, hnew, hcount, hdata⟩ := Client04.new_spec haccepted hbounds fresh
  have hnum := (config.positive_of_legal haccepted).2.2
  refine ⟨mgrs, hnew, hcount, fun mgr hmgr client hopen => ?_⟩
  obtain ⟨hlen, hbatch⟩ := hdata mgr hmgr
  rw [hbounds.sendsBatch_iff (by omega) hlen hbatch hopen, hlen]

/-- Messages of 9 bytes that say `hi`. -/
def ClientConfig.short (msgNum : Int) : ClientConfig where
  clientNum := 1
  threadNum := 1
  serverIP := ⟨[49], by decide⟩
  port := 4567
  msgLen := 9
  msgNum := msgNum
  msgContent := ⟨[104, 105], by decide⟩

theorem ClientConfig.short_bounds {msgNum : Int} (hnum : 9 * msgNum < 2 ^ 31) :
    (short msgNum).Bounds where
  text := show ((([104, 105] : List Byte).takeWhile (· ≠ 0)).length : Int) + 7 ≤ 9 by decide
  package := show (9 : Int) ≤ packageMaxSize by decide
  int := hnum

/-- Two of them are sent as they are. -/
theorem client04_sends_two_messages :
    ∃ mgrs, Client04.new (.short 2) (fun _ _ => 0) = some (.ok mgrs) ∧
      ∀ mgr ∈ mgrs, ∀ client : SelectClientThread, client.sock ≠ invalidSocket →
        (ClientConfig.short 2).SendsBatch mgr client := by
  obtain ⟨mgrs, hnew, -, hsends⟩ := client04_sends_batch_iff (.short 2) (by decide)
    (ClientConfig.short_bounds (by decide)) fun _ _ => 0
  refine ⟨mgrs, hnew, fun mgr hmgr client hopen => ?_⟩
  exact (hsends mgr hmgr client hopen).mpr (by decide)

/-- Of 10000 of them, 24464 of 90000 bytes are. -/
theorem client04_truncates_batch :
    ¬ ∀ (config : ClientConfig) (fresh : Nat → Memory Byte), config.illegal = none →
      config.Bounds → ∃ mgrs, Client04.new config fresh = some (.ok mgrs) ∧
        ∀ mgr ∈ mgrs, ∀ client : SelectClientThread, client.sock ≠ invalidSocket →
          config.SendsBatch mgr client := by
  intro hall
  have hbounds : (ClientConfig.short 10000).Bounds := ClientConfig.short_bounds (by decide)
  obtain ⟨mgrs, hnew, hsends⟩ := hall (.short 10000) (fun _ _ => 0) (by decide) hbounds
  obtain ⟨others, hothers, hcount, hdata⟩ := Client04.new_spec (by decide) hbounds fun _ _ => 0
  rw [hnew, Option.some.injEq, Except.ok.injEq] at hothers
  subst hothers
  have hone : (mgrs.length : Int) = 1 := hcount
  obtain ⟨mgr, hmgr⟩ := List.exists_mem_of_length_pos (show 0 < mgrs.length by omega)
  obtain ⟨hlen, hbatch⟩ := hdata mgr hmgr
  let client : SelectClientThread :=
    { SelectClientThread.new (fun _ => 0) (fun _ => 0) (fun _ => 0) none with sock := 3 }
  have hopen : client.sock ≠ invalidSocket := by decide
  have hshort := (hbounds.sendsBatch_iff (by decide) hlen hbatch hopen).mp
    (hsends mgr hmgr client hopen)
  rw [hlen] at hshort
  exact absurd hshort (by decide)

end SelectNet
