import SelectNet.Connection.DataBounds

/-!
# The messages of EasyTcp

Messages whose header announces their length come out of either receiver as they
went in, however `recv` cuts the stream.
-/

namespace SelectNet

/-- A message as a peer sends it: it begins with a `DataHeader` whose length is its own. -/
structure IsDataMessage (message : List Byte) : Prop where
  header : DataHeader.sizeof ≤ message.length
  fits : message.length ≤ 32767
  announced : (DataHeader.load (Memory.ofList message 0)).dataLength = message.length

/-- The framing sees such a message as a whole frame. -/
theorem IsDataMessage.isFrame {message : List Byte} (hmessage : IsDataMessage message) :
    dataRule.IsFrame message := by
  obtain ⟨hheader, _, hannounced⟩ := hmessage
  have hlong : 2 ≤ message.length := Nat.le_trans (by decide) hheader
  have hread : (Memory.ofList message 0).read 0 2 = message.take 2 := by
    have htake := (Memory.ofList message 0).take_read 0 message.length 2
    rw [Memory.read_ofList, Nat.min_eq_left hlong] at htake
    exact htake.symm
  have hshort : short message = message.length := by
    simp only [DataHeader.load, hread, short, ushort_take (Nat.le_refl 2)] at hannounced
    exact hannounced
  have hnonneg : ¬ short message < 0 := by omega
  refine ⟨hheader, ?_⟩
  simp only [dataRule]
  rw [if_neg hnonneg, hshort, Int.toNat_natCast]

namespace DataReceiver

variable {σ : Type} (receiver : DataReceiver σ)

/-- The calls of `RecvData` for these results of `recv` have all returned. -/
def Receives : σ → List (List Byte) → σ → Prop
  | s, [], next => next = s
  | s, chunk :: chunks, next =>
      ∃ middle, receiver.Returns s chunk middle ∧ Receives middle chunks next

/-- The calls return without leaving the buffer, `OnNetMsg` was called with just these
messages, and nothing is left over. -/
structure Delivers (s : σ) (chunks messages : List (List Byte)) : Prop where
  inBounds : receiver.StaysInBounds s chunks
  returns : ∃ next, receiver.Receives s chunks next
  delivered : ∀ next, receiver.Receives s chunks next →
    receiver.netMsgs next = receiver.netMsgs s ++ messages ∧ receiver.lastPos next = 0

variable {receiver}

theorem StaysInBounds.receives {s : σ} {chunks : List (List Byte)}
    (hstays : receiver.StaysInBounds s chunks) : ∃ next, receiver.Receives s chunks next := by
  induction chunks generalizing s with
  | nil => exact ⟨s, rfl⟩
  | cons chunk chunks ih =>
      obtain ⟨hcall, hmore⟩ := hstays
      obtain ⟨middle, hreturns⟩ := hcall.returns
      obtain ⟨next, hnext⟩ := ih (hmore middle hreturns)
      exact ⟨next, middle, hreturns, hnext⟩

end DataReceiver

namespace EasyTcpClient

variable {s next : EasyTcpClient} {chunk rest : List Byte} {chunks : List (List Byte)}

/-- What the calls hand over are the frames of the stream, and what is pending
behind them is its rest. -/
theorem receives_frames (hinv : Inv s) (hopen : s.sock ≠ invalidSocket)
    (hchunks : ∀ chunk ∈ chunks, IsRecvResult chunk)
    (hending : (dataRule.parse (s.pending ++ chunks.flatten)).ending = .rest rest)
    (hreceives : dataReceiver.Receives s chunks next) :
    next.netMsgs = s.netMsgs ++ (dataRule.parse (s.pending ++ chunks.flatten)).frames ∧
      next.pending = rest ∧ 0 ≤ next.lastPos := by
  induction chunks generalizing s with
  | nil =>
      cases hreceives
      rw [List.flatten_nil, List.append_nil, Framing.parse_of_unfinished hinv.part] at hending ⊢
      cases hending
      exact ⟨(List.append_nil _).symm, rfl, hinv.nonneg⟩
  | cons chunk chunks ih =>
      obtain ⟨hchunk, hmore⟩ := List.forall_mem_cons.mp hchunks
      obtain ⟨middle, hreturns, hreceives⟩ := hreceives
      obtain ⟨hnonneg, hpending⟩ := recvStart_spec hinv.nonneg chunk
      rw [List.flatten_cons, ← List.append_assoc] at hending ⊢
      cases hfirst : (dataRule.parse (s.pending ++ chunk)).ending with
      | rest first =>
          have hstart := hfirst
          rw [← hpending] at hstart
          obtain ⟨last, hyields, _, hlast, hsock, hmsgs⟩ := yields_rest hnonneg hstart
          rw [returns_iff hopen hchunk] at hreturns
          obtain rfl := Option.some.inj (hreturns.unique hyields)
          rw [Framing.parse_append_of_rest hfirst, ← hlast] at hending ⊢
          obtain ⟨hframes, hrest⟩ := ih (hinv.of_yields hyields) (hsock ▸ hopen) hmore
            hending hreceives
          refine ⟨?_, hrest⟩
          rw [hframes, hmsgs, hpending, Framing.Parsed.frames_after, List.append_assoc]
          rfl
      -- the stream would not end in an unfinished message
      | refused =>
          rw [Framing.parse_append, hfirst] at hending
          simp [hfirst] at hending
      | stuck =>
          rw [Framing.parse_append, hfirst] at hending
          simp [hfirst] at hending

/-- With nothing pending. -/
theorem delivers_messages (hopen : s.sock ≠ invalidSocket) (hpos : s.lastPos = 0)
    (hchunks : ∀ chunk ∈ chunks, IsRecvResult chunk) {messages : List (List Byte)}
    (hmessages : ∀ message ∈ messages, IsDataMessage message)
    (hcut : chunks.flatten = messages.flatten) : dataReceiver.Delivers s chunks messages := by
  have hpending : s.pending = [] := by
    rw [pending, hpos]
    rfl
  have hinv : Inv s := by
    refine ⟨by omega, ?_⟩
    rw [hpending]
    exact Or.inl dataRule.headerLen_pos
  have hparse : dataRule.parse (s.pending ++ chunks.flatten) = ⟨messages, .rest []⟩ := by
    rw [hpending, hcut, List.nil_append]
    exact Framing.parse_flatten fun message hmem => (hmessages message hmem).isFrame
  have hending := congrArg Framing.Parsed.ending hparse
  have hstays := (staysInBounds_iff hinv hopen hchunks).mpr ⟨[], hending⟩
  refine ⟨hstays, hstays.receives, ?_⟩
  intro next hreceives
  obtain ⟨hframes, hrest, hnonneg⟩ := receives_frames hinv hopen hchunks hending hreceives
  rw [hparse] at hframes
  have hlength := length_pending next
  rw [hrest, List.length_nil] at hlength
  have hempty : next.lastPos = 0 := by omega
  exact ⟨hframes, hempty⟩

end EasyTcpClient

namespace EasyTcpServer.CellServer

variable {s : Receiving} {chunks : List (List Byte)}

theorem receives_asClient {later : EasyTcpClient} :
    EasyTcpClient.dataReceiver.Receives (asClient s) chunks later ↔
      ∃ next, dataReceiver.Receives s chunks next ∧ asClient next = later := by
  induction chunks generalizing s with
  | nil => simp [DataReceiver.Receives, eq_comm]
  | cons chunk chunks ih =>
      simp only [DataReceiver.Receives, returns_asClient]
      constructor
      · rintro ⟨_, ⟨middle, hreturns, rfl⟩, hreceives⟩
        obtain ⟨next, hnext, hlater⟩ := ih.mp hreceives
        exact ⟨next, ⟨middle, hreturns, hnext⟩, hlater⟩
      · rintro ⟨next, ⟨middle, hreturns, hnext⟩, hlater⟩
        exact ⟨_, ⟨middle, hreturns, rfl⟩, ih.mpr ⟨next, hnext, hlater⟩⟩

theorem delivers_asClient {messages : List (List Byte)}
    (hdelivers : EasyTcpClient.dataReceiver.Delivers (asClient s) chunks messages) :
    dataReceiver.Delivers s chunks messages := by
  have hstays := staysInBounds_asClient.mpr hdelivers.inBounds
  refine ⟨hstays, hstays.receives, ?_⟩
  intro next hreceives
  exact hdelivers.delivered (asClient next) (receives_asClient.mpr ⟨next, hreceives, rfl⟩)

end EasyTcpServer.CellServer

open EasyTcpServer (CellServer.Receiving CellServer.dataReceiver)

/-- Whatever the cuts, either side hands over just the messages that were sent, in
order, within its buffer, and has nothing left over. -/
theorem data_messages_delivered {chunks messages : List (List Byte)}
    (hchunks : ∀ chunk ∈ chunks, IsRecvResult chunk)
    (hmessages : ∀ message ∈ messages, IsDataMessage message)
    (hcut : chunks.flatten = messages.flatten) {client : EasyTcpClient}
    (hclient : client.sock ≠ invalidSocket ∧ client.lastPos = 0) {server : CellServer.Receiving}
    (hserver : server.pClient.sockfd ≠ invalidSocket ∧ server.pClient.lastPos = 0) :
    EasyTcpClient.dataReceiver.Delivers client chunks messages ∧
      CellServer.dataReceiver.Delivers server chunks messages :=
  ⟨EasyTcpClient.delivers_messages hclient.1 hclient.2 hchunks hmessages hcut,
    EasyTcpServer.CellServer.delivers_asClient
      (EasyTcpClient.delivers_messages hserver.1 hserver.2 hchunks hmessages hcut)⟩

/-- Two headers, of which the second is cut. -/
theorem data_messages_delivered_cut :
    EasyTcpClient.dataReceiver.Delivers .connected [[4, 0, 0, 0, 4], [0, 1, 0]]
      [[4, 0, 0, 0], [4, 0, 1, 0]] ∧
    CellServer.dataReceiver.Delivers EasyTcpServer.CellServer.accepted [[4, 0, 0, 0, 4], [0, 1, 0]]
      [[4, 0, 0, 0], [4, 0, 1, 0]] := by
  have hmessages : ∀ message ∈ ([[4, 0, 0, 0], [4, 0, 1, 0]] : List (List Byte)),
      IsDataMessage message := by
    simp only [List.forall_mem_cons]
    exact ⟨⟨by decide, by decide, by decide⟩, ⟨by decide, by decide, by decide⟩, by simp⟩
  have hclient : EasyTcpClient.connected.sock ≠ invalidSocket ∧
      EasyTcpClient.connected.lastPos = 0 := ⟨by decide, rfl⟩
  have hserver : EasyTcpServer.CellServer.accepted.pClient.sockfd ≠ invalidSocket ∧
      EasyTcpServer.CellServer.accepted.pClient.lastPos = 0 := ⟨by decide, rfl⟩
  exact data_messages_delivered (by simp [IsRecvResult, recvBuffSize]) hmessages (by simp) hclient
    hserver

end SelectNet
