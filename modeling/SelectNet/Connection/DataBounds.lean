import SelectNet.EasyTcpServer.CellServer

/-!
# The message buffers of EasyTcp

The length in a `DataHeader` is a signed number that the peer chooses. A receiver
stays in its message buffer and comes to an end as long as the stream, cut into
messages by these lengths, never reaches one that is zero or negative.
-/

namespace SelectNet

/-! ## What the code asks of a receiver -/

/-- Bytes from `start` on. -/
structure BufferRange where
  start : Int
  count : Int

def BufferRange.Within (range : BufferRange) (size : Int) : Prop :=
  0 ≤ range.start ∧ 0 ≤ range.count ∧ range.start + range.count ≤ size

/-- What a pass of the loop accesses in the message buffer: the header, the message
it hands to `OnNetMsg`, and where it copies the rest from and to. -/
def passRanges (szMsgBuf : Memory Byte) (lastPos : Int) : List BufferRange :=
  if 0 ≤ lastPos ∧ lastPos < DataHeader.sizeof then []
  else
    let header := DataHeader.load szMsgBuf
    if lastPos < header.dataLength then [⟨0, DataHeader.sizeof⟩]
    else
      let nSize := lastPos - header.dataLength
      [⟨0, DataHeader.sizeof⟩, ⟨0, header.dataLength⟩, ⟨header.dataLength, nSize⟩, ⟨0, nSize⟩]

/-- A receiver of `DataHeader` messages, as both sides have it. -/
structure DataReceiver (σ : Type) where
  szMsgBuf : σ → Memory Byte
  lastPos : σ → Int
  netMsgs : σ → List (List Byte)
  recvStart : σ → List Byte → σ
  msgPass : σ → Pass σ (Option σ)
  recvData : RecvAnswer → Nat → σ → Option (Outcome σ)

namespace DataReceiver

variable {σ : Type} (receiver : DataReceiver σ)

/-- `RecvData` returns when `recv` gives these bytes. -/
def Returns (s : σ) (chunk : List Byte) (next : σ) : Prop :=
  ∃ fuel, receiver.recvData (.data chunk) fuel s = some (.returned 0 next)

/-- What was received fits behind what is there, no pass of the loop leaves the bytes
received so far, and the call returns. -/
structure CallInBounds (s : σ) (chunk : List Byte) : Prop where
  fits : 0 ≤ receiver.lastPos s ∧ receiver.lastPos s + chunk.length ≤ recvBuffSize * 5
  passes : ∀ t, Loop.Visits receiver.msgPass (receiver.recvStart s chunk) t →
    0 ≤ receiver.lastPos t ∧ receiver.lastPos t ≤ recvBuffSize * 5 ∧
      ∀ range ∈ passRanges (receiver.szMsgBuf t) (receiver.lastPos t),
        range.Within (receiver.lastPos t)
  returns : ∃ next, receiver.Returns s chunk next

/-- All calls for these results of `recv`, one after the other. -/
def StaysInBounds : σ → List (List Byte) → Prop
  | _, [] => True
  | s, chunk :: chunks => receiver.CallInBounds s chunk ∧
      ∀ next, receiver.Returns s chunk next → StaysInBounds next chunks

end DataReceiver

/-- What one `recv` can give. -/
def IsRecvResult (chunk : List Byte) : Prop := chunk ≠ [] ∧ chunk.length ≤ recvBuffSize

/-! ## The client -/

namespace EasyTcpClient

variable {s t next : EasyTcpClient} {chunk rest : List Byte} {chunks : List (List Byte)}

def dataReceiver : DataReceiver EasyTcpClient where
  szMsgBuf := EasyTcpClient.szMsgBuf
  lastPos := EasyTcpClient.lastPos
  netMsgs := EasyTcpClient.netMsgs
  recvStart := recvStart
  msgPass := msgPass
  recvData := recvData

/-- The loop has handed over all the messages of the stream and stands where no more
can be cut off. -/
structure HandedOver (s t : EasyTcpClient) : Prop where
  visits : Loop.Visits msgPass s t
  nonneg : 0 ≤ t.lastPos
  sock : t.sock = s.sock
  netMsgs : t.netMsgs = s.netMsgs ++ (dataRule.parse s.pending).frames
  parse : dataRule.parse t.pending = ⟨[], (dataRule.parse s.pending).ending⟩

theorem handedOver_of_nil (hnonneg : 0 ≤ s.lastPos) {ending : Framing.Ending Byte}
    (hparse : dataRule.parse s.pending = ⟨[], ending⟩) : HandedOver s s := by
  refine ⟨.refl, hnonneg, rfl, ?_, ?_⟩
  · rw [hparse, List.append_nil]
  · rw [hparse]

/-- It follows the parser to there. -/
theorem exists_handedOver (hnonneg : 0 ≤ s.lastPos) : ∃ t, HandedOver s t := by
  generalize hstream : s.pending = stream
  induction stream using Framing.induction dataRule generalizing s with
  | short stream hshort =>
      exact ⟨s, handedOver_of_nil hnonneg (hstream ▸ Framing.parse_short hshort)⟩
  | incomplete stream count hhead hsize hlen =>
      exact ⟨s, handedOver_of_nil hnonneg (hstream ▸ Framing.parse_incomplete hsize hlen hhead)⟩
  | refused stream hhead hsize =>
      exact ⟨s, handedOver_of_nil hnonneg (hstream ▸ Framing.parse_refused hhead hsize)⟩
  | stuck stream hhead hsize =>
      exact ⟨s, handedOver_of_nil hnonneg (hstream ▸ Framing.parse_stuck hhead hsize)⟩
  | frame stream count hhead hsize hpos hlen ih =>
      subst hstream
      have hparse := Framing.parse_frame hhead hsize hpos hlen
      obtain ⟨szMsgBuf, lastPos, hpass, hlater, hread⟩ := msgPass_of_frame hhead hsize hlen
      obtain ⟨next, hnext⟩ : ∃ next, next =
        { s with netMsgs := s.netMsgs ++ [s.pending.take count], szMsgBuf, lastPos } := ⟨_, rfl⟩
      have hpending : next.pending = s.pending.drop count := by
        rw [hnext]
        exact hread
      obtain ⟨t, hvisits, ht, hsock, hmsgs, hending⟩ := ih (by rw [hnext]; exact hlater) hpending
      rw [← hnext] at hpass
      rw [hpending] at hmsgs hending
      refine ⟨t, hvisits.again hpass, ht, ?_, ?_, ?_⟩
      · rw [hsock, hnext]
      · rw [hmsgs, hnext, hparse, Framing.Parsed.frames_after, List.append_assoc]
      · rw [hending, hparse, Framing.Parsed.ending_after]

/-- The loop over a stream that ends in a rest leaves with that rest. -/
theorem yields_rest (hnonneg : 0 ≤ s.lastPos)
    (hending : (dataRule.parse s.pending).ending = .rest rest) :
    ∃ next, Loop.Yields msgPass s (some next) ∧ 0 ≤ next.lastPos ∧ next.pending = rest ∧
      next.sock = s.sock ∧ next.netMsgs = s.netMsgs ++ (dataRule.parse s.pending).frames := by
  obtain ⟨t, hover⟩ := exists_handedOver hnonneg
  have hparse := hover.parse
  rw [hending] at hparse
  obtain ⟨hrest, hpart⟩ := Framing.of_parse_nil hparse
  have hleave := msgPass_of_unfinished hover.nonneg hpart
  exact ⟨t, hover.visits.yields (.of_leave hleave), hover.nonneg, hrest, hover.sock, hover.netMsgs⟩

/-- Where the stream ends in a rest, a pass that goes round again has taken a message off. -/
theorem msgPass_again_rest (hnonneg : 0 ≤ s.lastPos)
    (hending : (dataRule.parse s.pending).ending = .rest rest) (hagain : msgPass s = .again next) :
    0 ≤ next.lastPos ∧ next.lastPos ≤ s.lastPos ∧
      (dataRule.parse next.pending).ending = .rest rest := by
  rcases dataRule.head_cases s.pending with
    hpart | ⟨hhead, hsize⟩ | ⟨count, hhead, hsize, hlen⟩
  · cases (msgPass_of_unfinished hnonneg hpart).symm.trans hagain
  · cases (msgPass_of_refused hhead hsize).symm.trans hagain
  · obtain ⟨szMsgBuf, lastPos, hpass, hpos, hread⟩ := msgPass_of_frame hhead hsize hlen
    cases hpass.symm.trans hagain
    rcases Nat.eq_zero_or_pos count with rfl | hcount
    · rw [Framing.parse_stuck hhead hsize] at hending
      cases hending
    · rw [Framing.parse_frame hhead hsize hcount hlen] at hending
      refine ⟨hpos, ?_, (congrArg (fun stream => (dataRule.parse stream).ending) hread).trans
        hending⟩
      have hshorter := congrArg List.length hread
      rw [Memory.length_read, List.length_drop, length_pending] at hshorter
      simp only
      omega

/-- Every state of such a loop has that rest before it. -/
theorem visits_rest (hnonneg : 0 ≤ s.lastPos)
    (hending : (dataRule.parse s.pending).ending = .rest rest)
    (hvisits : Loop.Visits msgPass s t) :
    0 ≤ t.lastPos ∧ t.lastPos ≤ s.lastPos ∧ (dataRule.parse t.pending).ending = .rest rest := by
  have hagain : ∀ state later : EasyTcpClient,
      (0 ≤ state.lastPos ∧ state.lastPos ≤ s.lastPos ∧
        (dataRule.parse state.pending).ending = .rest rest) →
      msgPass state = .again later →
      0 ≤ later.lastPos ∧ later.lastPos ≤ s.lastPos ∧
        (dataRule.parse later.pending).ending = .rest rest := by
    intro state later ⟨hpos, hle, hstate⟩ hpass
    obtain ⟨hlater, hless, hsame⟩ := msgPass_again_rest hpos hstate hpass
    exact ⟨hlater, Int.le_trans hless hle, hsame⟩
  have hlast := Loop.Visits.invariant hagain ⟨hnonneg, Int.le_refl _, hending⟩ hvisits
  exact hlast

theorem passRanges_of_head (hhead : 4 ≤ s.pending.length) :
    passRanges s.szMsgBuf s.lastPos =
      if s.lastPos < short s.pending then [⟨0, 4⟩]
      else [⟨0, 4⟩, ⟨0, short s.pending⟩, ⟨short s.pending, s.lastPos - short s.pending⟩,
        ⟨0, s.lastPos - short s.pending⟩] := by
  have hlength := length_pending s
  have hsizeof : (DataHeader.sizeof : Int) = 4 := rfl
  rw [passRanges, if_neg (by omega)]
  simp only [dataLength_eq (show 2 ≤ s.pending.length by omega), hsizeof]

/-- A pass accesses only what is there, unless the length is negative. -/
theorem passRanges_within (hnonneg : 0 ≤ s.lastPos)
    (hending : (dataRule.parse s.pending).ending = .rest rest) :
    ∀ range ∈ passRanges s.szMsgBuf s.lastPos, range.Within s.lastPos := by
  have hlength := length_pending s
  by_cases hhead : 4 ≤ s.pending.length
  · have hshort : 0 ≤ short s.pending := by
      by_contra hneg
      have hsize : dataRule.size s.pending = none := if_pos (Int.not_le.mp hneg)
      rw [Framing.parse_refused hhead hsize] at hending
      cases hending
    rw [passRanges_of_head hhead]
    split
    next =>
      simp only [List.forall_mem_cons, BufferRange.Within]
      refine ⟨by omega, by simp⟩
    next =>
      simp only [List.forall_mem_cons, BufferRange.Within]
      refine ⟨by omega, by omega, by omega, by omega, by simp⟩
  · have hsizeof : (DataHeader.sizeof : Int) = 4 := rfl
    rw [passRanges, if_pos (by omega)]
    simp

/-- A negative length makes a pass access what lies in front of the buffer. -/
theorem passRanges_of_refused (hhead : 4 ≤ s.pending.length)
    (hsize : dataRule.size s.pending = none) :
    ∃ range ∈ passRanges s.szMsgBuf s.lastPos, ¬ range.Within s.lastPos := by
  have hlength := length_pending s
  have hneg : short s.pending < 0 := by
    by_contra hpos
    cases hsize.symm.trans (if_neg hpos)
  rw [passRanges_of_head hhead, if_neg (by omega)]
  refine ⟨⟨short s.pending, s.lastPos - short s.pending⟩, by simp, ?_⟩
  intro hwithin
  exact absurd hwithin.1 (Int.not_le.mpr hneg)

/-- The loop comes to the header that is refused. -/
theorem visits_refused (hnonneg : 0 ≤ s.lastPos)
    (hending : (dataRule.parse s.pending).ending = .refused) :
    ∃ t, Loop.Visits msgPass s t ∧ 4 ≤ t.pending.length ∧ dataRule.size t.pending = none := by
  obtain ⟨t, hover⟩ := exists_handedOver hnonneg
  have hparse := hover.parse
  rw [hending] at hparse
  obtain ⟨hhead, hsize⟩ := Framing.of_parse_nil hparse
  exact ⟨t, hover.visits, hhead, hsize⟩

/-- A length of zero is handed over for ever. -/
theorem not_ends_of_stuck (hnonneg : 0 ≤ s.lastPos)
    (hending : (dataRule.parse s.pending).ending = .stuck) : ¬ Loop.Ends msgPass s := by
  obtain ⟨t, hover⟩ := exists_handedOver hnonneg
  have hparse := hover.parse
  rw [hending] at hparse
  obtain ⟨hhead, hsize⟩ := Framing.of_parse_nil hparse
  have htrap : ∀ state : EasyTcpClient, state.pending = t.pending →
      ∃ later, msgPass state = .again later ∧ later.pending = t.pending := by
    intro state hsame
    rw [← hsame] at hhead hsize
    obtain ⟨szMsgBuf, lastPos, hpass, _, hread⟩ := msgPass_of_frame hhead hsize (Nat.zero_le _)
    exact ⟨_, hpass, hread.trans hsame⟩
  rw [hover.visits.ends_iff]
  exact Loop.not_ends_of_trap htrap rfl

/-! ### Calls -/

theorem returns_iff (hopen : s.sock ≠ invalidSocket) (hchunk : IsRecvResult chunk) :
    dataReceiver.Returns s chunk next ↔ Loop.Yields msgPass (s.recvStart chunk) (some next) := by
  have hreceived : (RecvAnswer.data chunk).received s.sock recvBuffSize = chunk := by
    simp only [RecvAnswer.received, if_neg hopen, Int.toNat_natCast]
    exact List.take_of_length_le hchunk.2
  have hcall : ∀ fuel, recvData (.data chunk) fuel s =
      (Loop.run msgPass fuel (s.recvStart chunk)).map recvLeave := by
    intro fuel
    rw [recvData, hreceived, if_neg hchunk.1]
  have hleave : ∀ exit : Option EasyTcpClient,
      recvLeave exit = .returned 0 next ↔ exit = some next := by
    intro exit
    cases exit <;> simp [recvLeave]
  rw [DataReceiver.Returns]
  change (∃ fuel, recvData (.data chunk) fuel s = some (.returned 0 next)) ↔ _
  simp only [hcall, Loop.exists_map_run_iff, hleave, exists_eq_right]

theorem callInBounds_iff (hinv : Inv s) (hopen : s.sock ≠ invalidSocket)
    (hchunk : IsRecvResult chunk) :
    dataReceiver.CallInBounds s chunk ↔
      ∃ rest, (dataRule.parse (s.pending ++ chunk)).ending = .rest rest := by
  obtain ⟨hnonneg, hpending⟩ := recvStart_spec hinv.nonneg chunk
  have hfits := hinv.recv_fits
  have hlength := hchunk.2
  rw [← hpending]
  constructor
  · intro hcall
    cases hending : (dataRule.parse (s.recvStart chunk).pending).ending with
    | rest rest => exact ⟨rest, rfl⟩
    | refused =>
        -- a negative length makes the pass read in front of the buffer
        obtain ⟨t, hvisits, hhead, hsize⟩ := visits_refused hnonneg hending
        obtain ⟨range, hrange, hout⟩ := passRanges_of_refused hhead hsize
        exact absurd ((hcall.passes t hvisits).2.2 range hrange) hout
    | stuck =>
        -- a length of 0 takes nothing, so the call does not return
        obtain ⟨next, hreturns⟩ := hcall.returns
        rw [returns_iff hopen hchunk] at hreturns
        exact absurd ⟨_, hreturns⟩ (not_ends_of_stuck hnonneg hending)
  · rintro ⟨rest, hending⟩
    have hstart : (s.recvStart chunk).lastPos = s.lastPos + chunk.length := rfl
    refine ⟨⟨hinv.nonneg, ?_⟩, ?_, ?_⟩
    · change s.lastPos + chunk.length ≤ recvBuffSize * 5
      omega
    · intro t hvisits
      obtain ⟨hpos, hle, ht⟩ := visits_rest hnonneg hending hvisits
      have hroom : t.lastPos ≤ recvBuffSize * 5 := by omega
      exact ⟨hpos, hroom, passRanges_within hpos ht⟩
    · obtain ⟨next, hyields, _⟩ := yields_rest hnonneg hending
      exact ⟨next, (returns_iff hopen hchunk).mpr hyields⟩

/-- From a client between two calls, on any results of `recv`. -/
theorem staysInBounds_iff (hinv : Inv s) (hopen : s.sock ≠ invalidSocket)
    (hchunks : ∀ chunk ∈ chunks, IsRecvResult chunk) :
    dataReceiver.StaysInBounds s chunks ↔
      ∃ rest, (dataRule.parse (s.pending ++ chunks.flatten)).ending = .rest rest := by
  induction chunks generalizing s with
  | nil =>
      rw [List.flatten_nil, List.append_nil, Framing.parse_of_unfinished hinv.part]
      exact ⟨fun _ => ⟨_, rfl⟩, fun _ => trivial⟩
  | cons chunk chunks ih =>
      obtain ⟨hchunk, hmore⟩ := List.forall_mem_cons.mp hchunks
      obtain ⟨hnonneg, hpending⟩ := recvStart_spec hinv.nonneg chunk
      rw [DataReceiver.StaysInBounds, callInBounds_iff hinv hopen hchunk, List.flatten_cons,
        ← List.append_assoc]
      cases hending : (dataRule.parse (s.pending ++ chunk)).ending with
      | rest rest =>
          rw [← hpending] at hending
          obtain ⟨last, hyields, hpos, hlast, hsock, _⟩ := yields_rest hnonneg hending
          have hreturns : ∀ next, dataReceiver.Returns s chunk next ↔ next = last := by
            intro next
            rw [returns_iff hopen hchunk]
            constructor
            · intro hnext
              exact Option.some.inj (hnext.unique hyields)
            · rintro rfl
              exact hyields
          rw [hpending] at hending
          rw [Framing.parse_append_of_rest hending, Framing.Parsed.ending_after, ← hlast,
            ← ih (hinv.of_yields hyields) (hsock ▸ hopen) hmore]
          simp [hreturns]
      -- a call that goes out of bounds decides for all that would follow
      | refused =>
          rw [Framing.parse_append, hending]
          simp [hending]
      | stuck =>
          rw [Framing.parse_append, hending]
          simp [hending]

end EasyTcpClient

/-! ## The server -/

namespace EasyTcpServer.CellServer

variable {s next : Receiving} {chunk : List Byte} {chunks : List (List Byte)}

def dataReceiver : DataReceiver Receiving where
  szMsgBuf s := s.pClient.szMsgBuf
  lastPos s := s.pClient.lastPos
  netMsgs := Receiving.netMsgs
  recvStart := recvStart
  msgPass := msgPass
  recvData := recvData

/-- `RecvData` returns here as it does there. -/
theorem returns_asClient {later : EasyTcpClient} :
    EasyTcpClient.dataReceiver.Returns (asClient s) chunk later ↔
      ∃ next, dataReceiver.Returns s chunk next ∧ asClient next = later := by
  change (∃ fuel, (asClient s).recvData (.data chunk) fuel = _) ↔
    ∃ next, (∃ fuel, recvData (.data chunk) fuel s = _) ∧ _
  simp only [recvData_asClient, Option.map_eq_some_iff]
  constructor
  · rintro ⟨fuel, outcome, hcall, hout⟩
    cases outcome with
    | aborted => cases hout
    | returned value next =>
        cases hout
        exact ⟨next, ⟨fuel, hcall⟩, rfl⟩
  · rintro ⟨next, ⟨fuel, hcall⟩, rfl⟩
    exact ⟨fuel, _, hcall, rfl⟩

theorem callInBounds_asClient : dataReceiver.CallInBounds s chunk ↔
    EasyTcpClient.dataReceiver.CallInBounds (asClient s) chunk := by
  have hvisits : ∀ t, Loop.Visits EasyTcpClient.msgPass (asClient (recvStart s chunk)) t ↔
      ∃ next, Loop.Visits msgPass (recvStart s chunk) next ∧ t = asClient next :=
    fun _ => Loop.visits_map_iff msgPass_asClient
  constructor
  · intro hcall
    obtain ⟨next, hreturns⟩ := hcall.returns
    refine ⟨hcall.fits, fun t ht => ?_, asClient next, returns_asClient.mpr ⟨next, hreturns, rfl⟩⟩
    obtain ⟨visited, hvisited, rfl⟩ := (hvisits t).mp ht
    exact hcall.passes visited hvisited
  · intro hcall
    obtain ⟨_, hreturns⟩ := hcall.returns
    obtain ⟨next, hreturns, _⟩ := returns_asClient.mp hreturns
    refine ⟨hcall.fits, fun t ht => ?_, next, hreturns⟩
    exact hcall.passes (asClient t) ((hvisits _).mpr ⟨t, ht, rfl⟩)

theorem staysInBounds_asClient : dataReceiver.StaysInBounds s chunks ↔
    EasyTcpClient.dataReceiver.StaysInBounds (asClient s) chunks := by
  induction chunks generalizing s with
  | nil => exact Iff.rfl
  | cons chunk chunks ih =>
      rw [DataReceiver.StaysInBounds, DataReceiver.StaysInBounds, callInBounds_asClient]
      simp [returns_asClient, ih]

end EasyTcpServer.CellServer

open EasyTcpServer (CellServer.Receiving CellServer.dataReceiver CellServer.asClient)

/-! ## Both sides -/

/-- With nothing pending, either side stays in its buffer, and comes to an end, exactly
if the stream can be cut by its lengths without coming to one that is not positive. -/
theorem data_in_bounds_iff {chunks : List (List Byte)}
    (hchunks : ∀ chunk ∈ chunks, IsRecvResult chunk) {client : EasyTcpClient}
    (hclient : client.sock ≠ invalidSocket ∧ client.lastPos = 0) {server : CellServer.Receiving}
    (hserver : server.pClient.sockfd ≠ invalidSocket ∧ server.pClient.lastPos = 0) :
    (EasyTcpClient.dataReceiver.StaysInBounds client chunks ↔
      ∃ rest, (dataRule.parse chunks.flatten).ending = .rest rest) ∧
    (CellServer.dataReceiver.StaysInBounds server chunks ↔
      ∃ rest, (dataRule.parse chunks.flatten).ending = .rest rest) := by
  have hfresh : ∀ s : EasyTcpClient, s.sock ≠ invalidSocket ∧ s.lastPos = 0 →
      (EasyTcpClient.dataReceiver.StaysInBounds s chunks ↔
        ∃ rest, (dataRule.parse chunks.flatten).ending = .rest rest) := by
    rintro s ⟨hopen, hpos⟩
    have hpending : s.pending = [] := by
      rw [EasyTcpClient.pending, hpos]
      rfl
    have hinv : s.Inv := by
      refine ⟨by omega, ?_⟩
      rw [hpending]
      exact Or.inl dataRule.headerLen_pos
    have hiff := EasyTcpClient.staysInBounds_iff hinv hopen hchunks
    rwa [hpending, List.nil_append] at hiff
  refine ⟨hfresh client hclient, ?_⟩
  rw [EasyTcpServer.CellServer.staysInBounds_asClient]
  exact hfresh _ hserver

/-- A client that has just connected. -/
def EasyTcpClient.connected : EasyTcpClient := { new with sock := 5, isConnect := true }

/-- A server with a client it has just accepted. -/
def EasyTcpServer.CellServer.accepted : CellServer.Receiving := ⟨.new 5, fun _ => 0, []⟩

/-- A header in two pieces, and a byte of the next one. -/
theorem data_in_bounds_pieces :
    EasyTcpClient.dataReceiver.StaysInBounds .connected [[4, 0], [0, 0, 5]] ∧
    CellServer.dataReceiver.StaysInBounds EasyTcpServer.CellServer.accepted
      [[4, 0], [0, 0, 5]] := by
  have hchunks : ∀ chunk ∈ ([[4, 0], [0, 0, 5]] : List (List Byte)), IsRecvResult chunk := by
    simp [IsRecvResult, recvBuffSize]
  have hending : (dataRule.parse [4, 0, 0, 0, 5]).ending = .rest [5] := by decide
  have hclient : EasyTcpClient.connected.sock ≠ invalidSocket ∧
      EasyTcpClient.connected.lastPos = 0 := ⟨by decide, rfl⟩
  have hserver : EasyTcpServer.CellServer.accepted.pClient.sockfd ≠ invalidSocket ∧
      EasyTcpServer.CellServer.accepted.pClient.lastPos = 0 := ⟨by decide, rfl⟩
  obtain ⟨hforClient, hforServer⟩ := data_in_bounds_iff hchunks hclient hserver
  exact ⟨hforClient.mpr ⟨_, hending⟩, hforServer.mpr ⟨_, hending⟩⟩

/-- A length of zero keeps the client in its loop, a negative one takes the server out
of its buffer. -/
theorem data_out_of_bounds :
    ¬ EasyTcpClient.dataReceiver.StaysInBounds .connected [[0, 0, 0, 0]] ∧
    ¬ CellServer.dataReceiver.StaysInBounds EasyTcpServer.CellServer.accepted
      [[255, 255, 0, 0]] := by
  have hinv : EasyTcpClient.connected.Inv := EasyTcpClient.new_inv.of_same rfl rfl
  constructor
  · have hending : (dataRule.parse [0, 0, 0, 0]).ending = .stuck := by decide
    rw [EasyTcpClient.staysInBounds_iff hinv (by decide) (by simp [IsRecvResult, recvBuffSize])]
    rintro ⟨rest, hrest⟩
    cases hending.symm.trans hrest
  · have hending : (dataRule.parse [255, 255, 0, 0]).ending = .refused := by decide
    have hsame : (EasyTcpServer.CellServer.asClient EasyTcpServer.CellServer.accepted).Inv :=
      hinv.of_same rfl rfl
    rw [EasyTcpServer.CellServer.staysInBounds_asClient,
      EasyTcpClient.staysInBounds_iff hsame (by decide) (by simp [IsRecvResult, recvBuffSize])]
    rintro ⟨rest, hrest⟩
    cases hending.symm.trans hrest

end SelectNet
