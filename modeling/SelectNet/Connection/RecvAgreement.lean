import SelectNet.Connection.RecvPaths

/-!
# Do the three ways of receiving agree?

They are fed the same chunks, each on a new connection. They differ at a header
that is too long, which `ClientSocket` answers by closing and both clients by a
failed assertion, and at a header of size 1, whose package does not hold the
size that `OnRun` reads back from it.
-/

namespace SelectNet

/-- A call comes to an end with fewer frames than the receive queue takes. -/
def Bounded (rest chunk : List Byte) : Prop :=
  (headRule.parse (rest ++ chunk)).ending ≠ .stuck ∧
    (headRule.parse (rest ++ chunk)).frames.length < clientRecvQueueMaxAccumulateCount

/-- A chunking of a stream that all three can be given. -/
def Admissible (rest : List Byte) (chunks : List (List Byte)) : Prop :=
  EachTurn (fun rest chunk => Fits rest chunk ∧ Bounded rest chunk) rest chunks

/-- Fed with these chunks, the path shows these frames and returns this last: -1
with the connection closed, or 0 with the connection kept. -/
def RecvPath.Yields {σ : Type} (path : RecvPath σ) (s : σ) (chunks frames : List (List Byte))
    (value : Int) : Prop :=
  ∃ last, path.Ends s chunks value last ∧ path.shown last = path.shown s ++ frames ∧
    (path.sock last = invalidSocket ↔ value = -1)

section Turns

variable {first second : List Byte → List Byte → Prop} {rest : List Byte}
  {chunks : List (List Byte)}

theorem EachTurn.imp (himp : ∀ rest chunk, first rest chunk → second rest chunk)
    (heach : EachTurn first rest chunks) : EachTurn second rest chunks := by
  induction chunks generalizing rest with
  | nil => trivial
  | cons chunk chunks ih =>
      exact ⟨himp rest chunk heach.1, fun left hleft => ih (heach.2 left hleft)⟩

theorem EachTurn.and (hfirst : EachTurn first rest chunks) (hsecond : EachTurn second rest chunks) :
    EachTurn (fun rest chunk => first rest chunk ∧ second rest chunk) rest chunks := by
  induction chunks generalizing rest with
  | nil => trivial
  | cons chunk chunks ih =>
      exact ⟨⟨hfirst.1, hsecond.1⟩, fun left hleft =>
        ih (hfirst.2 left hleft) (hsecond.2 left hleft)⟩

/-- Turns that all come to an end come to a rest, unless a header is refused. -/
theorem exists_rest_of_bounded (hpart : headRule.Unfinished rest)
    (hbounded : EachTurn Bounded rest chunks)
    (hending : (headRule.parse (rest ++ chunks.flatten)).ending ≠ .refused) :
    ∃ left, (headRule.parse (rest ++ chunks.flatten)).ending = .rest left := by
  induction chunks generalizing rest with
  | nil =>
      rw [List.flatten_nil, List.append_nil, Framing.parse_of_unfinished hpart]
      exact ⟨rest, rfl⟩
  | cons chunk chunks ih =>
      cases hchunk : (headRule.parse (rest ++ chunk)).ending with
      | rest middle =>
          rw [RecvPath.parse_turns chunks hchunk] at hending ⊢
          exact ih (Framing.parse_rest hchunk).2 (hbounded.2 middle hchunk) hending
      | refused =>
          rw [List.flatten_cons, ← List.append_assoc, Framing.parse_append, hchunk] at hending
          exact absurd hchunk hending
      | stuck => exact absurd hchunk hbounded.1.1

end Turns

theorem RecvPath.Ends.value_cases {σ : Type} {path : RecvPath σ} {s last : σ}
    {chunks : List (List Byte)} {value : Int} (hends : path.Ends s chunks value last) :
    value = 0 ∨ value = -1 := by
  induction chunks generalizing s with
  | nil => exact Or.inl hends.1
  | cons chunk chunks ih =>
      rcases hends with ⟨next, _, hrest⟩ | ⟨hvalue, _⟩
      · exact ih hrest
      · exact Or.inr hvalue

/-- A path that follows the parser yields what the parser does. -/
theorem RecvPath.Follows.yields {σ : Type} {path : RecvPath σ} {ready : σ → List Byte → Prop}
    {accepts : List (List Byte) → Prop} (hfollows : path.Follows ready accepts) {s : σ}
    {rest left : List Byte} {chunks : List (List Byte)} (hready : ready s rest)
    (hopen : path.sock s ≠ invalidSocket) (hfits : EachTurn Fits rest chunks)
    (hending : (headRule.parse (rest ++ chunks.flatten)).ending = .rest left)
    (haccepted : Accepted accepts rest chunks) :
    path.Yields s chunks ((headRule.parse (rest ++ chunks.flatten)).frames.map padded) 0 := by
  obtain ⟨last, hends⟩ := hfollows.exists_ends hready hfits hending haccepted
  obtain ⟨_, _, _, _, hsock, hshown⟩ := hfollows.ended hready hfits hends
  exact ⟨last, hends, hshown, iff_of_false (hsock ▸ hopen) (by decide)⟩

/-! ## Where they differ -/

namespace ClientSocket

variable {ω : Type} {s : ClientSocket ω} {rest chunk : List Byte}

/-- A header that is too long closes the connection, behind the frames in front
of it. -/
theorem yields_of_refused (handle : MsgHandle ω) (hready : Ready s rest) (hfits : Fits rest chunk)
    (hrefused : (headRule.parse (rest ++ chunk)).ending = .refused) :
    (path handle).Yields s [chunk] ((headRule.parse (rest ++ chunk)).frames.map padded) (-1) := by
  have hreceived := hfits.received hready.sock hready.retained
  have hspec := processorRecv_spec handle hready.retained hreceived hfits.1
  obtain ⟨_, _, _, hsend, hcalls⟩ := taken_spec handle hready.send chunk (rest ++ chunk)
  simp only [hrefused] at hspec
  obtain ⟨hclosed, hext, _⟩ := close_spec hsend
  refine ⟨_, Or.inr ⟨rfl, hspec⟩, ?_, iff_of_true hclosed.sock rfl⟩
  exact (congrArg HandleSide.calls hext).trans hcalls

end ClientSocket

namespace SelectClient

variable {s : SelectClient} {rest chunk : List Byte}

/-- A header that is too long fails an assertion. -/
theorem turn_of_refused (hready : Ready s rest) (hfits : Fits rest chunk)
    (hrefused : (headRule.parse (rest ++ chunk)).ending = .refused) :
    path.turn s chunk .aborted := by
  have hreceived := hfits.received hready.sock hready.retained
  have hloop := recvLoop_spec hready.retained chunk
  simp only [hrefused] at hloop
  obtain ⟨fuel, hrun⟩ := hloop
  refine ⟨fuel, ?_⟩
  simp only [onRun, if_neg hready.sock, processorRecv, hreceived, if_neg hfits.1, hrun,
    Option.map_some, recvLeave]

end SelectClient

namespace SelectClientThread

variable {s last : SelectClientThread} {rest chunk : List Byte} {chunks : List (List Byte)}

/-- With room for the frames in front of it, so does this client. -/
theorem turn_of_refused (hready : Ready s rest) (hfits : Fits rest chunk)
    (hroom : (headRule.parse (rest ++ chunk)).frames.length ≤ clientRecvQueueMaxAccumulateCount)
    (hrefused : (headRule.parse (rest ++ chunk)).ending = .refused) :
    path.turn s chunk .aborted := by
  have hreceived := hfits.received hready.sock hready.retained
  have hpass := recvPass_spec onPackage hready.retained chunk (s.recvStart chunk).2
  have hempty : (s.recvStart chunk).2.ext.recvQueue.size = 0 := hready.size
  have hhanded := handAll_of_room (headRule.parse (rest ++ chunk)).frames
    (s := (s.recvStart chunk).2) (by rw [hempty]; omega)
  simp only [hhanded, hrefused] at hpass
  obtain ⟨fuel, hrun⟩ := hpass
  have hloop : Loop.run (recvPass onPackage) fuel (s.recvStart chunk) = _ := hrun
  refine ⟨fuel, ?_⟩
  simp only [turn, recvThread, if_neg hready.sock, processorRecv, hreceived, if_neg hfits.1, hloop,
    Option.map_some, recvLeave]

/-- Calls that come to an end never close the connection. -/
theorem not_turn_closed (hready : Ready s rest) (hfits : Fits rest chunk)
    (hbounded : Bounded rest chunk) : ¬ path.turn s chunk (.returned (-1) last) := by
  intro hturn
  obtain ⟨next, _, hreturns, _⟩ := turn_iff.mp hturn
  have hreceived := hfits.received hready.sock hready.retained
  rcases returns_cases hready.inv hready.sock hreturns with
    ⟨hnone, _, _⟩ | ⟨_, exit, hyields, ⟨_, _, _, hvalue, _⟩ | ⟨t, rfl, _, _⟩⟩
  · exact hfits.1 (hreceived.symm.trans hnone)
  · cases hvalue
  · rw [hreceived] at hyields
    have hpass := recvPass_spec onPackage hready.retained chunk (s.recvStart chunk).2
    have hempty : (s.recvStart chunk).2.ext.recvQueue.size = 0 := hready.size
    have hlt := hbounded.2
    have hhanded := handAll_of_room (headRule.parse (rest ++ chunk)).frames
      (s := (s.recvStart chunk).2) (by rw [hempty]; omega)
    simp only [hhanded] at hpass
    split at hpass
    next =>
      obtain ⟨_, hyields', _⟩ := hpass
      cases hyields.unique hyields'
    next => cases hyields.unique hpass
    next hstuck => exact hbounded.1 hstuck

theorem not_ends_closed (hready : Ready s rest) (hadmissible : Admissible rest chunks) :
    ¬ path.Ends s chunks (-1) last := by
  induction chunks generalizing s rest with
  | nil =>
      rintro ⟨hvalue, _⟩
      cases hvalue
  | cons chunk chunks ih =>
      obtain ⟨⟨hfits, hbounded⟩, hrest⟩ := hadmissible
      rintro (⟨next, hturn, hends⟩ | ⟨_, hturn⟩)
      · obtain ⟨left, hending, _, hnext, _⟩ := path_follows.went hready hfits hturn
        exact ih hnext (hrest left hending) hends
      · exact not_turn_closed hready hfits hbounded hturn

end SelectClientThread

/-! ## Agreement -/

/-- What a connection of each kind starts with: a socket, what is in its arrays,
and the server's handler with its world. -/
structure RecvSetup (ω : Type) where
  handle : MsgHandle ω
  world : ω
  server : Socket
  client : Socket
  thread : Socket
  serverArrays : Memory Byte × Memory Byte × Memory Byte
  clientArrays : Memory Byte × Memory Byte
  threadArrays : Memory Byte × Memory Byte × Memory Byte
  serverTest : Option TestCounters
  threadTest : Option TestCounters
  server_open : server ≠ invalidSocket
  client_open : client ≠ invalidSocket
  thread_open : thread ≠ invalidSocket

namespace RecvSetup

variable {ω : Type} (setup : RecvSetup ω)

def serverStart : ClientSocket ω :=
  .new setup.server setup.world setup.serverArrays.1 setup.serverArrays.2.1
    setup.serverArrays.2.2 setup.serverTest

def clientStart : SelectClient :=
  (SelectClient.connect (.connected setup.client)
    (.new setup.clientArrays.1 setup.clientArrays.2)).2

def threadStart : SelectClientThread :=
  (SelectClientThread.connect (.connected setup.thread)
    (.new setup.threadArrays.1 setup.threadArrays.2.1 setup.threadArrays.2.2
      setup.threadTest)).2

/-- All three show these frames and return this last. -/
structure AllYield (chunks frames : List (List Byte)) (value : Int) : Prop where
  server : (ClientSocket.path setup.handle).Yields setup.serverStart chunks frames value
  client : SelectClient.path.Yields setup.clientStart chunks frames value
  thread : SelectClientThread.path.Yields setup.threadStart chunks frames value

/-- The three show the same frames and return the same last. -/
def Agree (chunks : List (List Byte)) : Prop :=
  ∃ frames value, setup.AllYield chunks frames value

theorem server_ready : ClientSocket.Ready setup.serverStart [] :=
  ClientSocket.new_ready setup.server_open _ _ _ _ _

theorem client_ready : SelectClient.Ready setup.clientStart [] :=
  SelectClient.connected_ready setup.client_open _ _

theorem thread_ready : SelectClientThread.Ready setup.threadStart [] :=
  SelectClientThread.connected_ready setup.thread_open _ _ _ _

variable {setup} {chunks : List (List Byte)}

/-- Without the two kinds of header, all show the frames of the reference parser
and keep the connection. -/
theorem allYield (hadmissible : Admissible [] chunks)
    (hrefused : (headRule.parse chunks.flatten).ending ≠ .refused)
    (hheld : ∀ frame ∈ (headRule.parse chunks.flatten).frames, 2 ≤ frame.length) :
    setup.AllYield chunks ((headRule.parse chunks.flatten).frames.map padded) 0 := by
  have hpart : headRule.Unfinished [] := setup.client_ready.retained.part
  have hfits : EachTurn Fits [] chunks := hadmissible.imp fun _ _ => And.left
  have hbounded : EachTurn Bounded [] chunks := hadmissible.imp fun _ _ => And.right
  obtain ⟨left, hending⟩ := exists_rest_of_bounded hpart hbounded hrefused
  have htrue : Accepted (fun _ => True) [] chunks := hbounded.imp fun _ _ _ => trivial
  have hdeliverable : Accepted SelectClientThread.Deliverable [] chunks :=
    (hbounded.and ((accepted_forall_iff hpart hending).mpr hheld)).imp fun _ _ hturn =>
      ⟨hturn.1.2.le, hturn.2⟩
  exact ⟨(ClientSocket.path_follows setup.handle).yields setup.server_ready
      setup.server_ready.sock hfits hending htrue,
    SelectClient.path_follows.yields setup.client_ready setup.client_ready.sock hfits hending htrue,
    SelectClientThread.path_follows.yields setup.thread_ready setup.thread_ready.sock hfits
      hending hdeliverable⟩

/-- `SelectClient_Thread` yields something only without the two kinds of header. -/
theorem held_of_thread_yields {frames : List (List Byte)} {value : Int}
    (hadmissible : Admissible [] chunks)
    (hyields : SelectClientThread.path.Yields setup.threadStart chunks frames value) :
    (headRule.parse chunks.flatten).ending ≠ .refused ∧
      ∀ frame ∈ (headRule.parse chunks.flatten).frames, 2 ≤ frame.length := by
  obtain ⟨last, hends, _, _⟩ := hyields
  have hready := setup.thread_ready
  rcases hends.value_cases with rfl | rfl
  · obtain ⟨left, hending, haccepted, _⟩ :=
      SelectClientThread.path_follows.ended hready (hadmissible.imp fun _ _ => And.left) hends
    rw [List.nil_append] at hending
    refine ⟨fun hrefused => ?_, ?_⟩
    · cases hending.symm.trans hrefused
    · exact (accepted_forall_iff hready.retained.part hending).mp
        (haccepted.imp fun _ _ => And.right)
  · exact absurd hends (SelectClientThread.not_ends_closed hready hadmissible)

end RecvSetup

/-- On an admissible chunking the three agree exactly if the stream has no header
that is too long and none of size 1 (size 0 is not admissible). They then show
the frames of the reference parser, each of which fits `_package`, and keep the
connection. -/
theorem paths_agree_iff {ω : Type} (setup : RecvSetup ω) (chunks : List (List Byte))
    (hadmissible : Admissible [] chunks) :
    (setup.Agree chunks ↔ (headRule.parse chunks.flatten).ending ≠ .refused ∧
      ∀ frame ∈ (headRule.parse chunks.flatten).frames, 2 ≤ frame.length) ∧
    (setup.Agree chunks →
      setup.AllYield chunks ((headRule.parse chunks.flatten).frames.map padded) 0 ∧
      ∀ frame ∈ (headRule.parse chunks.flatten).frames, frame.length ≤ packageMaxSize) := by
  have hheld : setup.Agree chunks → (headRule.parse chunks.flatten).ending ≠ .refused ∧
      ∀ frame ∈ (headRule.parse chunks.flatten).frames, 2 ≤ frame.length := by
    rintro ⟨frames, value, hall⟩
    exact RecvSetup.held_of_thread_yields hadmissible hall.thread
  refine ⟨⟨hheld, fun ⟨hrefused, hframes⟩ =>
    ⟨_, _, RecvSetup.allYield hadmissible hrefused hframes⟩⟩,
    fun hagree => ?_⟩
  obtain ⟨hrefused, hframes⟩ := hheld hagree
  exact ⟨RecvSetup.allYield hadmissible hrefused hframes,
    fun _ hmem => length_le_of_mem_frames hmem⟩

/-- Connections whose arrays are all zero. -/
def RecvSetup.zeros : RecvSetup Unit where
  handle world _ := (world, [])
  world := ()
  server := 5
  client := 5
  thread := 5
  serverArrays := (fun _ => 0, fun _ => 0, fun _ => 0)
  clientArrays := (fun _ => 0, fun _ => 0)
  threadArrays := (fun _ => 0, fun _ => 0, fun _ => 0)
  serverTest := none
  threadTest := none
  server_open := by decide
  client_open := by decide
  thread_open := by decide

theorem paths_agree_on_frame : RecvSetup.zeros.Agree [[6, 0, 8, 0, 0, 0]] :=
  (paths_agree_iff RecvSetup.zeros [[6, 0, 8, 0, 0, 0]]
    ⟨⟨⟨by decide, by decide⟩, by decide, by decide⟩, fun _ _ => trivial⟩).1.mpr
    ⟨by decide, by decide⟩

/-- A frame of 6 bytes and a header of size 65535 in one chunk: `ClientSocket`
shows the frame and closes, both clients fail an assertion, `SelectClient_Thread`
before it has delivered the frame. -/
theorem paths_differ_on_long_header :
    Admissible [] [[6, 0, 8, 0, 0, 0, 255, 255, 0, 0, 0, 0]] ∧
      (ClientSocket.path RecvSetup.zeros.handle).Yields RecvSetup.zeros.serverStart
        [[6, 0, 8, 0, 0, 0, 255, 255, 0, 0, 0, 0]] [padded [6, 0, 8, 0, 0, 0]] (-1) ∧
      SelectClient.path.turn RecvSetup.zeros.clientStart
        [6, 0, 8, 0, 0, 0, 255, 255, 0, 0, 0, 0] .aborted ∧
      SelectClientThread.path.turn RecvSetup.zeros.threadStart
        [6, 0, 8, 0, 0, 0, 255, 255, 0, 0, 0, 0] .aborted ∧
      ¬ RecvSetup.zeros.Agree [[6, 0, 8, 0, 0, 0, 255, 255, 0, 0, 0, 0]] := by
  have hparse : headRule.parse [6, 0, 8, 0, 0, 0, 255, 255, 0, 0, 0, 0] =
      ⟨[[6, 0, 8, 0, 0, 0]], .refused⟩ := by decide
  have hrefused := congrArg Framing.Parsed.ending hparse
  have hframes := congrArg Framing.Parsed.frames hparse
  have hfits : Fits [] [6, 0, 8, 0, 0, 0, 255, 255, 0, 0, 0, 0] := ⟨by decide, by decide⟩
  have hadmissible : Admissible [] [[6, 0, 8, 0, 0, 0, 255, 255, 0, 0, 0, 0]] :=
    ⟨⟨hfits, by decide, by decide⟩, fun _ _ => trivial⟩
  have hserver := ClientSocket.yields_of_refused RecvSetup.zeros.handle
    RecvSetup.zeros.server_ready hfits hrefused
  rw [List.nil_append, hframes] at hserver
  refine ⟨hadmissible, hserver,
    SelectClient.turn_of_refused RecvSetup.zeros.client_ready hfits hrefused,
    SelectClientThread.turn_of_refused RecvSetup.zeros.thread_ready hfits ?_ hrefused, ?_⟩
  · rw [List.nil_append, hframes]
    decide
  · rintro ⟨frames, value, hall⟩
    exact (RecvSetup.held_of_thread_yields hadmissible hall.thread).1 hrefused

end SelectNet
