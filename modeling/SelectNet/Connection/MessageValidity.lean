import SelectNet.Connection.Receiver
import SelectNet.Connection.RecvAgreement
import SelectNet.Connection.SendFifo

/-!
# Do senders and receivers agree on what a message is?

`SendMsg` sends as many bytes as the header of the message says, whatever that
is. A receiver cuts them off again if the size is in its bounds and its header
is read from the message alone.
-/

namespace SelectNet

/-! ## Sizes -/

/-- `msg->size` of each message. -/
def sizes (msgs : List (Memory Byte)) : List Nat := msgs.map fun msg => (MsgHead.load msg).size

/-- Sizes with which a receiver cuts messages off as they were sent: all in
bounds, the last that of a whole header, and behind a message of one byte one
whose size begins with a zero byte. -/
def Framed : List Nat → Prop
  | [] => True
  | [size] => MsgHead.sizeof ≤ size ∧ size ≤ packageMaxSize
  | size :: next :: sizes =>
      0 < size ∧ size ≤ packageMaxSize ∧ (size = 1 → next % 256 = 0) ∧ Framed (next :: sizes)

instance decidableFramed : (sizes : List Nat) → Decidable (Framed sizes)
  | [] => .isTrue trivial
  | [_] => inferInstanceAs (Decidable (_ ∧ _))
  | _ :: next :: sizes =>
      have : Decidable (Framed (next :: sizes)) := decidableFramed (next :: sizes)
      inferInstanceAs (Decidable (_ ∧ _ ∧ _ ∧ Framed (next :: sizes)))

variable {msg next : Memory Byte} {msgs : List (Memory Byte)}

theorem length_msgBytes (msg : Memory Byte) :
    (Endpoint.msgBytes msg).length = (MsgHead.load msg).size :=
  Memory.length_read msg 0 _

/-- A message of two bytes or more begins with its size. -/
theorem ushort_msgBytes (hsize : 2 ≤ (MsgHead.load msg).size) (rest : List Byte) :
    ushort (Endpoint.msgBytes msg ++ rest) = (MsgHead.load msg).size := by
  have hhead := Memory.take_read msg 0 (MsgHead.load msg).size 2
  rw [Nat.min_eq_left hsize] at hhead
  rw [ushort_append rest (by rwa [length_msgBytes]), ← ushort_take (Nat.le_refl 2),
    Endpoint.msgBytes, hhead]
  rfl

/-- The high byte that a receiver reads behind a message of one byte is the low
byte of the next size. -/
theorem ushort_of_single (hsize : (MsgHead.load msg).size = 1)
    (hnext : 0 < (MsgHead.load next).size) (rest : List Byte) :
    ushort (Endpoint.msgBytes msg ++ (Endpoint.msgBytes next ++ rest)) =
      1 + 256 * ((MsgHead.load next).size % 256) := by
  obtain ⟨size, hsucc⟩ : ∃ n, (MsgHead.load next).size = n + 1 :=
    ⟨_, (Nat.succ_pred_eq_of_pos hnext).symm⟩
  have hlow : (msg 0).toNat + 256 * (msg 1).toNat = 1 := hsize
  have hnextLow : (MsgHead.load next).size = (next 0).toNat + 256 * (next 1).toNat := rfl
  have hbyte := (next 0).toNat_lt
  rw [Endpoint.msgBytes, Endpoint.msgBytes, hsize, hsucc, Memory.read_succ, Memory.read_succ,
    Memory.read_zero, List.singleton_append, List.cons_append, ushort, ← hsucc, hnextLow]
  omega

theorem headRule_size_iff {stream : List Byte} {count : Nat} :
    headRule.size stream = some count ↔ ushort stream = count ∧ count ≤ packageMaxSize := by
  constructor
  · exact fun hsize => ⟨(headRule_size_eq hsize).symm, headRule_size_le hsize⟩
  · rintro ⟨rfl, hle⟩
    exact headRule_size_of_le hle

theorem Framed.pos {size : Nat} {rest : List Nat} (hframed : Framed (size :: rest)) : 0 < size := by
  cases rest with
  | nil => exact Nat.lt_of_lt_of_le (by decide) hframed.1
  | cons next rest => exact hframed.1

theorem sizes_cons (msg : Memory Byte) (msgs : List (Memory Byte)) :
    sizes (msg :: msgs) = (MsgHead.load msg).size :: sizes msgs := rfl

/-- The sizes say when the stream is cut into the messages. -/
theorem cuts_iff (msgs : List (Memory Byte)) :
    headRule.Cuts (msgs.map Endpoint.msgBytes) ↔ Framed (sizes msgs) := by
  induction msgs with
  | nil => exact Iff.rfl
  | cons msg rest ih =>
      have hlen := length_msgBytes msg
      cases rest with
      | nil =>
          change _ ↔ Framed [(MsgHead.load msg).size]
          constructor
          · rintro ⟨hhead, hsize, _⟩
            rw [List.map_nil, List.flatten_cons, List.flatten_nil, List.append_nil, hlen] at hhead
            exact ⟨hhead, hlen ▸ (headRule_size_iff.mp hsize).2⟩
          · rintro ⟨hhead, hle⟩
            have hsix : MsgHead.sizeof = 6 := rfl
            refine ⟨?_, headRule_size_iff.mpr ⟨?_, hlen ▸ hle⟩, by omega, trivial⟩
            · rw [List.map_nil, List.flatten_cons, List.flatten_nil, List.append_nil, hlen]
              exact hhead
            · exact (ushort_msgBytes (by omega) []).trans hlen.symm
      | cons next rest =>
          rw [sizes_cons] at ih
          rw [sizes_cons, sizes_cons]
          constructor
          · rintro ⟨_, hsize, hpos, hcuts⟩
            have hframed := ih.mp hcuts
            obtain ⟨hushort, hle⟩ := headRule_size_iff.mp hsize
            rw [hlen] at hushort hpos hle
            refine ⟨hpos, hle, fun hone => ?_, hframed⟩
            -- a one-byte message borrows its upper half from the one behind it
            have hsingle := ushort_of_single hone hframed.pos (rest.map Endpoint.msgBytes).flatten
            have hheader := hsingle.symm.trans hushort
            omega
          · rintro ⟨hpos, hle, hone, hframed⟩
            have hcuts := ih.mpr hframed
            refine ⟨?_, headRule_size_iff.mpr ⟨?_, hlen ▸ hle⟩, hlen ▸ hpos, hcuts⟩
            · exact Nat.le_trans hcuts.1 (by simp)
            · rcases Nat.lt_or_ge 1 (MsgHead.load msg).size with hlong | hshort
              · exact (ushort_msgBytes hlong _).trans hlen.symm
              · have hsingle : (MsgHead.load msg).size = 1 := by omega
                have hheader :=
                  ushort_of_single hsingle hframed.pos (rest.map Endpoint.msgBytes).flatten
                rw [hone hsingle] at hheader
                exact hheader.trans (hsingle.symm.trans hlen.symm)

/-! ## What the callback is shown -/

/-- A message is shown with its size in front, even one of a single byte. -/
theorem ushort_padded_msgBytes (msg : Memory Byte) :
    ushort (padded (Endpoint.msgBytes msg)) = (Endpoint.msgBytes msg).length := by
  rw [length_msgBytes]
  by_cases hlong : 2 ≤ (MsgHead.load msg).size
  · exact ushort_msgBytes hlong _
  · have hhead : (MsgHead.load msg).size = (msg 0).toNat + 256 * (msg 1).toNat := rfl
    rcases Nat.lt_or_ge 0 (MsgHead.load msg).size with hpos | hzero
    · have hone : (MsgHead.load msg).size = 1 := by omega
      rw [padded, Endpoint.msgBytes, hone, Memory.read_succ, Memory.read_zero]
      change (msg 0).toNat + 256 * (0 : Byte).toNat = 1
      rw [show (0 : Byte).toNat = 0 from rfl]
      omega
    · have hempty : (MsgHead.load msg).size = 0 := by omega
      rw [Endpoint.msgBytes, hempty]
      rfl

theorem ushort_padded_of_mem {stream frame : List Byte}
    (hmem : frame ∈ (headRule.parse stream).frames) : ushort (padded frame) = frame.length := by
  obtain ⟨cells, hsize, hlen, hframe⟩ := Framing.take_of_mem_frames hmem
  obtain ⟨hushort, hmax⟩ := headRule_size_iff.mp hsize
  have hpadded := ushort_padded_take cells (hushort ▸ hlen) (hushort ▸ hmax)
  rwa [hushort, ← hframe] at hpadded

/-- What is shown with its size in front tells what it is. -/
theorem eq_of_map_padded {first second : List (List Byte)}
    (hfirst : ∀ bytes ∈ first, ushort (padded bytes) = bytes.length)
    (hsecond : ∀ bytes ∈ second, ushort (padded bytes) = bytes.length)
    (hsame : first.map padded = second.map padded) : first = second := by
  have hback : ∀ frames : List (List Byte),
      (∀ bytes ∈ frames, ushort (padded bytes) = bytes.length) →
      (frames.map padded).map (fun shown => shown.take (ushort shown)) = frames := by
    intro frames hframes
    rw [List.map_map]
    conv_rhs => rw [← List.map_id frames]
    refine List.map_congr_left fun bytes hbytes => ?_
    rw [Function.comp_apply, hframes bytes hbytes, padded, List.take_left]
    rfl
  rw [← hback first hfirst, hsame, hback second hsecond]

/-- A path that follows the parser shows exactly the messages and returns 0 if
and only if they are framed and the frames are accepted. -/
theorem RecvPath.Follows.yields_messages_iff {σ : Type} {path : RecvPath σ}
    {ready : σ → List Byte → Prop} {accepts : List (List Byte) → Prop}
    (hfollows : path.Follows ready accepts) {s : σ} (hready : ready s [])
    (hopen : path.sock s ≠ invalidSocket) {chunks : List (List Byte)}
    (hfits : EachTurn Fits [] chunks)
    (hchunks : chunks.flatten = msgs.flatMap Endpoint.msgBytes) :
    path.Yields s chunks (msgs.map fun msg => padded (Endpoint.msgBytes msg)) 0 ↔
      Framed (sizes msgs) ∧ Accepted accepts [] chunks := by
  have hmap : (msgs.map fun msg => padded (Endpoint.msgBytes msg)) =
      (msgs.map Endpoint.msgBytes).map padded := by
    rw [List.map_map]
    rfl
  rw [List.flatMap_def] at hchunks
  rw [hmap, ← cuts_iff, ← Framing.parse_flatten_iff, ← hchunks]
  constructor
  · rintro ⟨last, hends, hshown, _⟩
    obtain ⟨left, hending, haccepted, _, _, hall⟩ := hfollows.ended hready hfits hends
    refine ⟨⟨?_, left, hending⟩, haccepted⟩
    -- the handler sees padded copies, which show the bytes up to the size they carry
    refine eq_of_map_padded (fun _ => ushort_padded_of_mem) ?_
      (List.append_cancel_left (hall.symm.trans hshown))
    intro bytes hbytes
    obtain ⟨msg, _, rfl⟩ := List.mem_map.mp hbytes
    exact ushort_padded_msgBytes msg
  · rintro ⟨⟨hframes, left, hending⟩, haccepted⟩
    have hyields := hfollows.yields hready hopen hfits hending haccepted
    rwa [List.nil_append, hframes] at hyields

/-! ## Senders -/

/-- The calls on the send side of a `ClientSocket` or a `SelectClient_Thread`
whose user has messages to send. -/
inductive MsgOp where
  | sendMsg (msg : Memory Byte)
  | processorSend (answers : Nat → SendAnswer)

namespace MsgOp

/-- `SendMsg` is `SendData` with the size in the header. -/
def op : MsgOp → SendOp
  | .sendMsg msg => .sendData msg (MsgHead.load msg).size
  | .processorSend answers => .processorSend answers

def messages : MsgOp → List (Memory Byte)
  | .sendMsg msg => [msg]
  | .processorSend _ => []

theorem call_sendMsg {ρ : Type}
    (sendLoop : (Nat → SendAnswer) → Endpoint ρ → Option (Int × Endpoint ρ)) (s : Endpoint ρ) :
    (op (.sendMsg msg)).call sendLoop s = some (s.sendMsg msg) := by
  rw [op, SendOp.call, Endpoint.sendMsg]
  split
  next hclosed => rw [Endpoint.sendData, if_pos hclosed]
  next => rfl

theorem payloads (ops : List MsgOp) :
    (ops.map op).flatMap SendOp.payload = (ops.flatMap messages).flatMap Endpoint.msgBytes := by
  induction ops with
  | nil => rfl
  | cons op ops ih =>
      rw [List.map_cons, List.flatMap_cons, List.flatMap_cons, List.flatMap_append, ih]
      cases op with
      | sendMsg msg => exact congrArg (· ++ _) (List.append_nil _).symm
      | processorSend answers => rfl

end MsgOp

/-- The messages are sent in calls that all succeed, until the kernel has taken
everything: these bytes. -/
def Endpoint.Sends {ρ : Type}
    (sendLoop : (Nat → SendAnswer) → Endpoint ρ → Option (Int × Endpoint ρ)) (s : Endpoint ρ)
    (msgs : List (Memory Byte)) (bytes : List Byte) : Prop :=
  ∃ (ops : List MsgOp) (values : List Int) (last : Endpoint ρ),
    ops.flatMap MsgOp.messages = msgs ∧
    SendOp.callAll sendLoop (ops.map MsgOp.op) s = some (values, last) ∧ -1 ∉ values ∧
    last.outgoing = [] ∧ last.accepted = bytes

theorem Endpoint.Sends.bytes_eq {ρ : Type} {s : Endpoint ρ} {bytes : List Byte}
    (close : Endpoint ρ → Endpoint ρ) (limit : Nat)
    (hclose : ∀ t : Endpoint ρ, t.SendInv → (close t).SendInv) (hinv : s.SendInv)
    (hidle : s.Idle) (hkernel : s.kernel = [])
    (hsends : Endpoint.Sends (fun answers s => s.runSend close limit answers) s msgs bytes) :
    bytes = msgs.flatMap msgBytes := by
  obtain ⟨ops, values, last, rfl, hcalls, hvalues, hdrained, rfl⟩ := hsends
  obtain ⟨_, _, hfifo, hstream⟩ :=
    callAll_fifo close limit hclose hinv hidle hkernel (ops.map MsgOp.op)
  cases hcalls.symm.trans hfifo
  have hall : last.accepted ++ last.outgoing = (ops.map MsgOp.op).flatMap SendOp.payload := by
    simpa only [outgoing, List.append_assoc] using hstream.stream hvalues
  rw [hdrained, List.append_nil] at hall
  rw [hall, MsgOp.payloads]

/-- `SelectClient` sends each message in its call of `SendMsg`, which returns 0. -/
def SelectClient.Sends (s : SelectClient) : List (Memory Byte) → List Byte → Prop
  | [], bytes => bytes = []
  | msg :: msgs, bytes => ∃ answers taken more, s.sendMsg msg answers = some (0, taken) ∧
      s.Sends msgs more ∧ bytes = taken ++ more

theorem SelectClient.Sends.bytes_eq {s : SelectClient} (hopen : s.sock ≠ invalidSocket)
    {bytes : List Byte} (hsends : s.Sends msgs bytes) :
    bytes = msgs.flatMap Endpoint.msgBytes := by
  induction msgs generalizing bytes with
  | nil => exact hsends
  | cons msg msgs ih =>
      obtain ⟨answers, taken, more, hsend, hmore, rfl⟩ := hsends
      obtain ⟨_, _, hspec, ⟨_, htaken⟩ | ⟨hfailed, _⟩⟩ :=
        SelectClient.sendData_spec hopen msg (MsgHead.load msg).size answers
      · cases hsend.symm.trans hspec
        rw [List.flatMap_cons, ← ih hmore, htaken]
        rfl
      · cases hsend.symm.trans hspec
        cases hfailed

/-- The messages are sent as these bytes on a new connection, by any of the three. -/
inductive SentAs (msgs : List (Memory Byte)) (bytes : List Byte) : Prop where
  | server {ω : Type} (sock : Socket) (world : ω) (sendBuf recvBuf package : Memory Byte)
      (test : Option TestCounters)
      (hsends : Endpoint.Sends ClientSocket.processorSend
        (ClientSocket.new sock world sendBuf recvBuf package test) msgs bytes)
  | client (s : SelectClient) (hopen : s.sock ≠ invalidSocket) (hsends : s.Sends msgs bytes)
  | thread (s : SelectClientThread) (hreach : SelectClientThread.machine.Reachable s)
      (sock : Socket)
      (hsends : Endpoint.Sends SelectClientThread.sendThread
        (SelectClientThread.connect (.connected sock) s).2 msgs bytes)

/-- Whoever sends, and however the kernel takes it: as many bytes of each message
as its size says. -/
theorem SentAs.bytes_eq {bytes : List Byte} (hsent : SentAs msgs bytes) :
    bytes = msgs.flatMap Endpoint.msgBytes := by
  cases hsent with
  | server sock world sendBuf recvBuf package test hsends =>
      obtain ⟨hinv, hidle⟩ := Endpoint.fresh_spec
        (s := ClientSocket.new sock world sendBuf recvBuf package test)
        rfl rfl (show 0 < serverSendBufferSize by decide) rfl rfl
      exact hsends.bytes_eq _ _ (fun t ht => (ClientSocket.close_spec ht).1.inv) hinv hidle rfl
  | client s hopen hsends => exact hsends.bytes_eq hopen
  | thread s hreach sock hsends =>
      have hinv := SelectClientThread.inv_of_reachable hreach
      obtain ⟨hopened, hidle⟩ := hinv.close.reopen hinv.close_sock sock
      exact hsends.bytes_eq _ _ (fun t ht => (SelectClientThread.close_spec ht).1.inv)
        hopened.send hidle rfl

/-- A `ClientSocket` sends a message whose bytes the kernel takes in two calls. -/
example : Endpoint.Sends ClientSocket.processorSend
    (ClientSocket.new 5 () (fun _ => 0) (fun _ => 0) (fun _ => 0) none)
    [Memory.ofList [6, 0, 8] 0] [6, 0, 8, 0, 0, 0] :=
  ⟨[.sendMsg (Memory.ofList [6, 0, 8] 0), .processorSend fun _ => .writable 4,
    .processorSend fun _ => .writable 4], _, _, rfl, rfl, by decide, rfl, rfl⟩

/-! ## Senders against receivers -/

/-- No turn completes more frames than the receive queue takes. -/
def RoomEachTurn (chunks : List (List Byte)) : Prop :=
  EachTurn (fun rest chunk =>
    (headRule.parse (rest ++ chunk)).frames.length ≤ clientRecvQueueMaxAccumulateCount) [] chunks

/-- What the callback is shown of messages that are delivered as they were sent. -/
def asSent (msgs : List (Memory Byte)) : List (List Byte) :=
  msgs.map fun msg => padded (Endpoint.msgBytes msg)

theorem msgs_of_framed {chunks : List (List Byte)} (hframed : Framed (sizes msgs))
    (hchunks : chunks.flatten = msgs.flatMap Endpoint.msgBytes) :
    (headRule.parse chunks.flatten).frames = msgs.map Endpoint.msgBytes ∧
      ∃ left, (headRule.parse chunks.flatten).ending = .rest left := by
  rw [hchunks, List.flatMap_def]
  exact (Framing.parse_flatten_iff _).mpr ((cuts_iff msgs).mpr hframed)

/-- Messages hold their size field unless one has size 1. -/
theorem held_iff (hframed : Framed (sizes msgs)) :
    (∀ bytes ∈ msgs.map Endpoint.msgBytes, 2 ≤ bytes.length) ↔ 1 ∉ sizes msgs := by
  have hcuts := (cuts_iff msgs).mpr hframed
  have hpos : ∀ bytes ∈ msgs.map Endpoint.msgBytes, 0 < bytes.length := by
    intro bytes hbytes
    rw [← ((Framing.parse_flatten_iff _).mpr hcuts).1] at hbytes
    exact Framing.pos_of_mem_frames hbytes
  simp only [List.forall_mem_map, length_msgBytes] at hpos ⊢
  rw [sizes, List.mem_map, not_exists]
  refine forall_congr' fun msg => ?_
  constructor
  · rintro hheld ⟨hmem, hone⟩
    have htwo := hheld hmem
    omega
  · intro hnot hmem
    have hsome := hpos msg hmem
    have hone : (MsgHead.load msg).size ≠ 1 := fun hone => hnot ⟨hmem, hone⟩
    omega

/-- A turn has no room for too many frames that hold a header. -/
theorem room_of_whole {chunks : List (List Byte)} {rest : List Byte}
    (hfits : EachTurn Fits rest chunks)
    (hwhole : Accepted (fun frames => ∀ frame ∈ frames, MsgHead.sizeof ≤ frame.length)
      rest chunks) :
    EachTurn (fun rest chunk =>
      (headRule.parse (rest ++ chunk)).frames.length ≤ clientRecvQueueMaxAccumulateCount)
      rest chunks := by
  refine (hfits.and hwhole).imp fun rest chunk ⟨⟨_, hchunk⟩, hframes⟩ => ?_
  have hcount := Framing.length_mul_le hframes
  have hsizeof : MsgHead.sizeof = 6 := rfl
  have hbuffer : clientRecvBufferSize = 20480 := rfl
  have hlimit : clientRecvQueueMaxAccumulateCount = 10000 := rfl
  rw [List.length_append, hsizeof] at hcount
  omega

/-- Sizes of a whole header and in the upper bound are framed. -/
theorem framed_of_whole {sizes : List Nat}
    (hwhole : ∀ size ∈ sizes, MsgHead.sizeof ≤ size ∧ size ≤ packageMaxSize) : Framed sizes := by
  induction sizes with
  | nil => trivial
  | cons size rest ih =>
      obtain ⟨⟨hhead, hmax⟩, hrest⟩ := List.forall_mem_cons.mp hwhole
      have hsizeof : MsgHead.sizeof = 6 := rfl
      cases rest with
      | nil => exact ⟨hhead, hmax⟩
      | cons next rest => exact ⟨by omega, hmax, fun hone => by omega, ih hrest⟩

namespace RecvSetup

variable {ω : Type} {setup : RecvSetup ω} {chunks : List (List Byte)}

theorem server_delivers_iff (hfits : EachTurn Fits [] chunks)
    (hchunks : chunks.flatten = msgs.flatMap Endpoint.msgBytes) :
    (ClientSocket.path setup.handle).Yields setup.serverStart chunks (asSent msgs) 0 ↔
      Framed (sizes msgs) := by
  have haccepted : Accepted (fun _ => True) [] chunks := hfits.imp fun _ _ _ => trivial
  exact ((ClientSocket.path_follows setup.handle).yields_messages_iff setup.server_ready
    setup.server_ready.sock hfits hchunks).trans (and_iff_left haccepted)

theorem client_delivers_iff (hfits : EachTurn Fits [] chunks)
    (hchunks : chunks.flatten = msgs.flatMap Endpoint.msgBytes) :
    SelectClient.path.Yields setup.clientStart chunks (asSent msgs) 0 ↔ Framed (sizes msgs) := by
  have haccepted : Accepted (fun _ => True) [] chunks := hfits.imp fun _ _ _ => trivial
  exact (SelectClient.path_follows.yields_messages_iff setup.client_ready setup.client_ready.sock
    hfits hchunks).trans (and_iff_left haccepted)

theorem thread_delivers_iff (hfits : EachTurn Fits [] chunks)
    (hchunks : chunks.flatten = msgs.flatMap Endpoint.msgBytes) :
    SelectClientThread.path.Yields setup.threadStart chunks (asSent msgs) 0 ↔
      Framed (sizes msgs) ∧ 1 ∉ sizes msgs ∧ RoomEachTurn chunks := by
  refine (SelectClientThread.path_follows.yields_messages_iff setup.thread_ready
    setup.thread_ready.sock hfits hchunks).trans (and_congr_right fun hframed => ?_)
  obtain ⟨hframes, left, hending⟩ := msgs_of_framed hframed hchunks
  have hheld : Accepted (fun frames => ∀ frame ∈ frames, 2 ≤ frame.length) [] chunks ↔ _ :=
    accepted_forall_iff setup.thread_ready.retained.part hending
  rw [List.nil_append, hframes, held_iff hframed] at hheld
  rw [← hheld]
  constructor
  · exact fun hall => ⟨hall.imp fun _ _ => And.right, hall.imp fun _ _ => And.left⟩
  · exact fun ⟨hframe, hroom⟩ => hroom.and hframe

/-- Messages that hold a header and are not too long are delivered by all three,
as they were sent. -/
theorem whole_delivered (hfits : EachTurn Fits [] chunks)
    (hchunks : chunks.flatten = msgs.flatMap Endpoint.msgBytes)
    (hwhole : ∀ size ∈ sizes msgs, MsgHead.sizeof ≤ size ∧ size ≤ packageMaxSize) :
    setup.AllYield chunks (asSent msgs) 0 := by
  have hframed := framed_of_whole hwhole
  obtain ⟨hframes, left, hending⟩ := msgs_of_framed hframed hchunks
  have hlong : ∀ frame ∈ (headRule.parse chunks.flatten).frames, MsgHead.sizeof ≤ frame.length := by
    rw [hframes]
    simp only [List.forall_mem_map, length_msgBytes]
    exact fun msg hmsg => (hwhole _ (List.mem_map.mpr ⟨msg, hmsg, rfl⟩)).1
  have haccepted := (accepted_forall_iff setup.thread_ready.retained.part hending).mpr hlong
  have hsingle : 1 ∉ sizes msgs := by
    intro hone
    have hsizeof : MsgHead.sizeof = 6 := rfl
    have hsix := (hwhole 1 hone).1
    omega
  exact ⟨(server_delivers_iff hfits hchunks).mpr hframed,
    (client_delivers_iff hfits hchunks).mpr hframed,
    (thread_delivers_iff hfits hchunks).mpr ⟨hframed, hsingle, room_of_whole hfits haccepted⟩⟩

end RecvSetup

/-- Whatever messages are sent, by any of the three, and however their bytes
arrive: each of them is delivered as it was sent, with the connection kept, if
and only if the sizes are framed; by `SelectClient_Thread`, if also none is 1
and no turn completes too many. -/
theorem delivered_iff_framed {ω : Type} (setup : RecvSetup ω) (msgs : List (Memory Byte))
    (bytes : List Byte) (hsent : SentAs msgs bytes) (chunks : List (List Byte))
    (hchunks : chunks.flatten = bytes) (hfits : EachTurn Fits [] chunks) :
    ((ClientSocket.path setup.handle).Yields setup.serverStart chunks (asSent msgs) 0 ↔
      Framed (sizes msgs)) ∧
    (SelectClient.path.Yields setup.clientStart chunks (asSent msgs) 0 ↔ Framed (sizes msgs)) ∧
    (SelectClientThread.path.Yields setup.threadStart chunks (asSent msgs) 0 ↔
      Framed (sizes msgs) ∧ 1 ∉ sizes msgs ∧ RoomEachTurn chunks) := by
  have hall := hchunks.trans hsent.bytes_eq
  exact ⟨RecvSetup.server_delivers_iff hfits hall, RecvSetup.client_delivers_iff hfits hall,
    RecvSetup.thread_delivers_iff hfits hall⟩

/-- A message of a single byte in front of one of 256: the receiver reads a size
of 1 from the two. -/
example : Framed [1, 256] ∧ ¬ Framed [1, 6] := by decide

/-- A kernel that takes all it is offered takes the whole message at once. -/
theorem SelectClient.sendMsg_at_once {s : SelectClient} (hopen : s.sock ≠ invalidSocket)
    (msg : Memory Byte) (hsize : 0 < (MsgHead.load msg).size) :
    s.sendMsg msg (fun _ => (MsgHead.load msg).size) = some (0, Endpoint.msgBytes msg) := by
  obtain ⟨size, hsucc⟩ : ∃ n, (MsgHead.load msg).size = n + 1 :=
    ⟨_, (Nat.succ_pred_eq_of_pos hsize).symm⟩
  rw [sendMsg, sendData, if_neg hopen, Endpoint.msgBytes, hsucc]
  have hfirst : sendPass msg (fun _ => ((size + 1 : Nat) : Int)) ⟨0, size + 1, 0, []⟩ =
      .again ⟨size + 1, 0, 1, msg.read 0 (size + 1)⟩ := by
    simp [sendPass]
  rw [Loop.run_of_again hfirst]
  exact Loop.run_of_leave rfl size

/-- A message of 2049 bytes. -/
def overlong : Memory Byte := Memory.ofList [1, 8] 0

theorem sent_overlong : SentAs [overlong] (Endpoint.msgBytes overlong) :=
  .client RecvSetup.zeros.clientStart (by decide)
    ⟨_, _, [], SelectClient.sendMsg_at_once (by decide) overlong (by decide), rfl,
      (List.append_nil _).symm⟩

theorem delivered_one_message :
    (ClientSocket.path RecvSetup.zeros.handle).Yields RecvSetup.zeros.serverStart
      [Endpoint.msgBytes (Memory.ofList [6, 0, 8] 0)] (asSent [Memory.ofList [6, 0, 8] 0]) 0 :=
  (delivered_iff_framed RecvSetup.zeros [Memory.ofList [6, 0, 8] 0]
    (Endpoint.msgBytes (Memory.ofList [6, 0, 8] 0))
    (.client RecvSetup.zeros.clientStart (by decide)
      ⟨_, _, [], SelectClient.sendMsg_at_once (by decide) _ (by decide), rfl,
        (List.append_nil _).symm⟩)
    [Endpoint.msgBytes (Memory.ofList [6, 0, 8] 0)] (List.append_nil _)
    ⟨⟨by decide, by decide⟩, fun _ _ => trivial⟩).1.mpr (by decide)

/-- `SendMsg` returns 0 for a message of 2049 bytes, and the peer does not take
it: `ClientSocket` closes the connection, the clients fail an assertion. -/
theorem overlong_not_delivered :
    SentAs [overlong] (Endpoint.msgBytes overlong) ∧
      (ClientSocket.path RecvSetup.zeros.handle).Yields RecvSetup.zeros.serverStart
        [Endpoint.msgBytes overlong] [] (-1) ∧
      SelectClient.path.turn RecvSetup.zeros.clientStart (Endpoint.msgBytes overlong) .aborted ∧
      SelectClientThread.path.turn RecvSetup.zeros.threadStart (Endpoint.msgBytes overlong)
        .aborted ∧
      ¬ (ClientSocket.path RecvSetup.zeros.handle).Yields RecvSetup.zeros.serverStart
        [Endpoint.msgBytes overlong] (asSent [overlong]) 0 := by
  have hlen : (Endpoint.msgBytes overlong).length = 2049 := length_msgBytes overlong
  have hfits : Fits [] (Endpoint.msgBytes overlong) := by
    refine ⟨fun hnone => ?_, ?_⟩
    · rw [hnone] at hlen
      cases hlen
    · rw [hlen]
      decide
  have hsize : headRule.size (Endpoint.msgBytes overlong) = none := by
    refine headRule_size_of_gt ?_
    have hlong : 2 ≤ (MsgHead.load overlong).size := by decide
    have hushort := ushort_msgBytes hlong []
    rw [List.append_nil] at hushort
    rw [hushort]
    decide
  have hparse : headRule.parse (Endpoint.msgBytes overlong) = ⟨[], .refused⟩ :=
    Framing.parse_refused (by rw [hlen]; decide) hsize
  have hrefused := congrArg Framing.Parsed.ending hparse
  have hframes := congrArg Framing.Parsed.frames hparse
  have hserver := ClientSocket.yields_of_refused RecvSetup.zeros.handle
    RecvSetup.zeros.server_ready hfits hrefused
  rw [List.nil_append, hframes] at hserver
  refine ⟨sent_overlong, hserver,
    SelectClient.turn_of_refused RecvSetup.zeros.client_ready hfits hrefused,
    SelectClientThread.turn_of_refused RecvSetup.zeros.thread_ready hfits ?_ hrefused, ?_⟩
  · rw [List.nil_append, hframes]
    decide
  · intro hyields
    have hall : EachTurn Fits [] [Endpoint.msgBytes overlong] := ⟨hfits, fun _ _ => trivial⟩
    have hframed := (RecvSetup.server_delivers_iff hall rfl).mp hyields
    exact absurd hframed (by decide)

end SelectNet
