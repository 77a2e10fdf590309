import SelectNet.CommonLib.SelectClient
import SelectNet.Connection.RecvTermination

/-!
# The ways of receiving

`ClientSocket`, `SelectClient` and `SelectClient_Thread` receive in turns. A
turn takes what `recv` gives and shows the messages that are then complete;
`SelectClient_Thread` takes two calls for it. Each follows the reference parser
as long as it accepts the frames of a turn.
-/

namespace SelectNet

/-- A way of receiving: what a turn makes of a chunk, the socket, and what the
callback has been shown. -/
structure RecvPath (σ : Type) where
  turn : σ → List Byte → Outcome σ → Prop
  sock : σ → Socket
  shown : σ → List (List Byte)

/-- What `recv` may give while this is retained: something, and no more than it
asks for. All three arrays are equally long. -/
def Fits (rest chunk : List Byte) : Prop :=
  chunk ≠ [] ∧ (chunk.length : Int) ≤ clientRecvBufferSize - rest.length

/-- What holds of the retained bytes and the chunk of every turn, up to the
first that does not leave a rest. -/
def EachTurn (holds : List Byte → List Byte → Prop) : List Byte → List (List Byte) → Prop
  | _, [] => True
  | rest, chunk :: chunks => holds rest chunk ∧
      ∀ left, (headRule.parse (rest ++ chunk)).ending = .rest left → EachTurn holds left chunks

/-- The frames of every turn are acceptable. -/
def Accepted (accepts : List (List Byte) → Prop) (rest : List Byte)
    (chunks : List (List Byte)) : Prop :=
  EachTurn (fun rest chunk => accepts (headRule.parse (rest ++ chunk)).frames) rest chunks

namespace RecvPath

variable {σ : Type}

/-- Turns on these chunks that all returned 0, or all but the last, which
returned -1: nothing is read behind it. -/
def Ends (path : RecvPath σ) : σ → List (List Byte) → Int → σ → Prop
  | s, [], value, last => value = 0 ∧ last = s
  | s, chunk :: chunks, value, last =>
      (∃ next, path.turn s chunk (.returned 0 next) ∧ path.Ends next chunks value last) ∨
        value = -1 ∧ path.turn s chunk (.returned (-1) last)

/-- A path goes as the reference parser does: a turn returns 0 exactly if the
parser comes to a rest and the frames are accepted, and then shows them. -/
structure Follows (path : RecvPath σ) (ready : σ → List Byte → Prop)
    (accepts : List (List Byte) → Prop) : Prop where
  part : ∀ {s rest}, ready s rest → headRule.Unfinished rest
  goes : ∀ {s rest chunk left}, ready s rest → Fits rest chunk →
    (headRule.parse (rest ++ chunk)).ending = .rest left →
    accepts (headRule.parse (rest ++ chunk)).frames →
    ∃ next, path.turn s chunk (.returned 0 next)
  went : ∀ {s rest chunk next}, ready s rest → Fits rest chunk →
    path.turn s chunk (.returned 0 next) →
    ∃ left, (headRule.parse (rest ++ chunk)).ending = .rest left ∧
      accepts (headRule.parse (rest ++ chunk)).frames ∧ ready next left ∧
      path.sock next = path.sock s ∧
      path.shown next = path.shown s ++ (headRule.parse (rest ++ chunk)).frames.map padded

section Follows

variable {path : RecvPath σ} {ready : σ → List Byte → Prop} {accepts : List (List Byte) → Prop}
  {s last : σ} {rest : List Byte} {chunks : List (List Byte)}

/-- The reference parser over one turn and then the others. -/
theorem parse_turns {chunk left : List Byte} (chunks : List (List Byte))
    (hending : (headRule.parse (rest ++ chunk)).ending = .rest left) :
    headRule.parse (rest ++ (chunk :: chunks).flatten) =
      (headRule.parse (left ++ chunks.flatten)).after (headRule.parse (rest ++ chunk)).frames := by
  rw [List.flatten_cons, ← List.append_assoc, Framing.parse_append_of_rest hending]

/-- The parser comes to a rest over all turns only by coming to a rest in each. -/
theorem exists_rest_of_turns {chunk left : List Byte} {chunks : List (List Byte)}
    (hending : (headRule.parse (rest ++ (chunk :: chunks).flatten)).ending = .rest left) :
    ∃ middle, (headRule.parse (rest ++ chunk)).ending = .rest middle := by
  rw [List.flatten_cons, ← List.append_assoc, Framing.parse_append] at hending
  split at hending
  next middle hmiddle => exact ⟨middle, hmiddle⟩
  next hnone => exact ⟨left, hending⟩

/-- Turns that all return 0 have shown the frames of the whole stream. -/
theorem Follows.ended (hfollows : path.Follows ready accepts) (hready : ready s rest)
    (hfits : EachTurn Fits rest chunks) (hends : path.Ends s chunks 0 last) :
    ∃ left, (headRule.parse (rest ++ chunks.flatten)).ending = .rest left ∧
      Accepted accepts rest chunks ∧ ready last left ∧ path.sock last = path.sock s ∧
      path.shown last =
        path.shown s ++ (headRule.parse (rest ++ chunks.flatten)).frames.map padded := by
  induction chunks generalizing s rest with
  | nil =>
      obtain ⟨_, rfl⟩ := hends
      have hparse := Framing.parse_of_unfinished (hfollows.part hready)
      rw [List.flatten_nil, List.append_nil, hparse]
      exact ⟨rest, rfl, trivial, hready, rfl, (List.append_nil _).symm⟩
  | cons chunk chunks ih =>
      rcases hends with ⟨next, hturn, hrest⟩ | ⟨hvalue, _⟩
      · obtain ⟨middle, hending, haccepts, hnext, hsock, hshown⟩ :=
          hfollows.went hready hfits.1 hturn
        obtain ⟨left, hleft, haccepted, hlast, hsocks, hall⟩ :=
          ih hnext (hfits.2 middle hending) hrest
        rw [parse_turns chunks hending]
        refine ⟨left, hleft, ⟨haccepts, fun other hother => ?_⟩, hlast, hsocks.trans hsock, ?_⟩
        · cases hending.symm.trans hother
          exact haccepted
        · rw [hall, hshown, Framing.Parsed.frames_after, List.map_append, List.append_assoc]
      · cases hvalue

/-- If the parser comes to a rest and all frames are accepted, every turn
returns 0. -/
theorem Follows.exists_ends (hfollows : path.Follows ready accepts) (hready : ready s rest)
    (hfits : EachTurn Fits rest chunks) {left : List Byte}
    (hending : (headRule.parse (rest ++ chunks.flatten)).ending = .rest left)
    (haccepted : Accepted accepts rest chunks) : ∃ last, path.Ends s chunks 0 last := by
  induction chunks generalizing s rest with
  | nil => exact ⟨s, rfl, rfl⟩
  | cons chunk chunks ih =>
      obtain ⟨middle, hmiddle⟩ := exists_rest_of_turns hending
      obtain ⟨next, hturn⟩ := hfollows.goes hready hfits.1 hmiddle haccepted.1
      obtain ⟨other, hother, _, hnext, _⟩ := hfollows.went hready hfits.1 hturn
      cases hmiddle.symm.trans hother
      rw [parse_turns chunks hmiddle] at hending
      obtain ⟨last, hends⟩ :=
        ih hnext (hfits.2 middle hmiddle) hending (haccepted.2 middle hmiddle)
      exact ⟨last, Or.inl ⟨next, hturn, hends⟩⟩

/-- Turns return 0 throughout exactly if the parser comes to a rest and all
frames are accepted. -/
theorem Follows.ends_iff (hfollows : path.Follows ready accepts) (hready : ready s rest)
    (hfits : EachTurn Fits rest chunks) :
    (∃ last, path.Ends s chunks 0 last) ↔
      (∃ left, (headRule.parse (rest ++ chunks.flatten)).ending = .rest left) ∧
        Accepted accepts rest chunks := by
  constructor
  · rintro ⟨last, hends⟩
    obtain ⟨left, hending, haccepted, _⟩ := hfollows.ended hready hfits hends
    exact ⟨⟨left, hending⟩, haccepted⟩
  · rintro ⟨⟨left, hending⟩, haccepted⟩
    exact hfollows.exists_ends hready hfits hending haccepted

end Follows

end RecvPath

/-- Accepting every frame of every turn is accepting every frame of the stream. -/
theorem accepted_forall_iff {holds : List Byte → Prop} {rest left : List Byte}
    {chunks : List (List Byte)} (hpart : headRule.Unfinished rest)
    (hending : (headRule.parse (rest ++ chunks.flatten)).ending = .rest left) :
    Accepted (fun frames => ∀ frame ∈ frames, holds frame) rest chunks ↔
      ∀ frame ∈ (headRule.parse (rest ++ chunks.flatten)).frames, holds frame := by
  induction chunks generalizing rest with
  | nil =>
      rw [List.flatten_nil, List.append_nil, Framing.parse_of_unfinished hpart]
      exact iff_of_true trivial fun _ hmem => absurd hmem List.not_mem_nil
  | cons chunk chunks ih =>
      obtain ⟨middle, hmiddle⟩ := RecvPath.exists_rest_of_turns hending
      rw [RecvPath.parse_turns chunks hmiddle] at hending ⊢
      rw [Framing.Parsed.frames_after, List.forall_mem_append]
      refine and_congr_right fun _ => ?_
      rw [← ih (Framing.parse_rest hmiddle).2 hending]
      constructor
      · exact fun hall => hall middle hmiddle
      · intro haccepted other hother
        cases hmiddle.symm.trans hother
        exact haccepted

/-! ## The three paths -/

/-- What fits is received whole. -/
theorem Fits.received {rest chunk : List Byte} {sock : Socket} {recvBuf : Memory Byte}
    {retainSize : Int} (hfits : Fits rest chunk) (hopen : sock ≠ invalidSocket)
    (hretained : Retained recvBuf retainSize rest) :
    (RecvAnswer.data chunk).received sock (clientRecvBufferSize - retainSize) = chunk := by
  have hroom := hfits.2
  have hsize := hretained.size_eq
  rw [RecvAnswer.received, if_neg hopen, List.take_of_length_le]
  omega

namespace ClientSocket

variable {ω : Type}

def path (handle : MsgHandle ω) : RecvPath (ClientSocket ω) where
  turn s chunk outcome := ∃ fuel, processorRecv handle (.data chunk) fuel s = some outcome
  sock s := s.sock
  shown s := s.ext.calls

/-- Open, with these bytes retained. -/
structure Ready (s : ClientSocket ω) (rest : List Byte) : Prop where
  send : s.SendInv
  sock : s.sock ≠ invalidSocket
  retained : Retained s.recvBuf s.retainSize rest

theorem new_ready {sock : Socket} (hopen : sock ≠ invalidSocket) (world : ω)
    (sendBuf recvBuf package : Memory Byte) (test : Option TestCounters) :
    Ready (new sock world sendBuf recvBuf package test) [] :=
  ⟨(new_inv sock world sendBuf recvBuf package test).send, hopen, Retained.nothing recvBuf⟩

theorem path_follows (handle : MsgHandle ω) : (path handle).Follows Ready fun _ => True where
  part hready := hready.retained.part
  goes := by
    intro s rest chunk left hready hfits hending _
    have hreceived := hfits.received hready.sock hready.retained
    have hspec := processorRecv_spec handle hready.retained hreceived hfits.1
    simp only [hending] at hspec
    obtain ⟨_, hreturns, _⟩ := hspec
    exact ⟨_, hreturns⟩
  went := by
    intro s rest chunk next hready hfits hturn
    have hreturns : Returns handle (.data chunk) s 0 next := hturn
    have hreceived := hfits.received hready.sock hready.retained
    have hspec := processorRecv_spec handle hready.retained hreceived hfits.1
    obtain ⟨hsock, _, _, hsend, hcalls⟩ := taken_spec handle hready.send chunk (rest ++ chunk)
    simp only at hspec
    split at hspec
    next left hending =>
      obtain ⟨oRecv, hreturn, hleft⟩ := hspec
      obtain ⟨_, rfl⟩ := hreturn.unique hreturns
      refine ⟨left, hending, trivial, ⟨(Endpoint.SameSend.recvStop _ oRecv).inv hsend, ?_, hleft⟩,
        hsock, hcalls⟩
      exact fun hclosed => hready.sock (hsock.symm.trans hclosed)
    next => cases (hspec.unique hreturns).1
    next => exact absurd hreturns (hspec 0 next)

end ClientSocket

namespace SelectClient

def path : RecvPath SelectClient where
  turn s chunk outcome := ∃ fuel, onRun (.readable (.data chunk)) fuel s = some outcome
  sock s := s.sock
  shown s := s.delivered

structure Ready (s : SelectClient) (rest : List Byte) : Prop where
  sock : s.sock ≠ invalidSocket
  retained : Retained s.recvBuf s.retainSize rest

theorem connected_ready {sock : Socket} (hopen : sock ≠ invalidSocket)
    (recvBuf package : Memory Byte) :
    Ready (connect (.connected sock) (new recvBuf package)).2 [] :=
  ⟨hopen, Retained.nothing recvBuf⟩

theorem onPackages_spec {frames : List (List Byte)}
    (hlen : ∀ frame ∈ frames, frame.length ≤ packageMaxSize) (s : SelectClient) :
    (frames.foldl onPackage s).sock = s.sock ∧
      (frames.foldl onPackage s).delivered = s.delivered ++ frames.map padded := by
  induction frames generalizing s with
  | nil => exact ⟨rfl, (List.append_nil _).symm⟩
  | cons frame frames ih =>
      obtain ⟨hframe, hframes⟩ := List.forall_mem_cons.mp hlen
      obtain ⟨hsock, hdelivered⟩ := ih hframes (onPackage s frame)
      refine ⟨hsock, ?_⟩
      rw [List.foldl_cons, hdelivered, onPackage, read_fillPackage s.package hframe, List.map_cons,
        List.append_assoc, List.singleton_append]

/-- The receive loop against the reference parser. -/
theorem recvLoop_spec {s : SelectClient} {rest : List Byte}
    (hretained : Retained s.recvBuf s.retainSize rest) (chunk : List Byte) :
    let last := (headRule.parse (rest ++ chunk)).frames.foldl onPackage (s.recvStart chunk).2
    match (headRule.parse (rest ++ chunk)).ending with
    | .rest left => ∃ oRecv : OBuffer (Memory Byte),
        Loop.Yields recvLoop (s.recvStart chunk) (some (.stopped oRecv last)) ∧
        Retained oRecv.moveDataToFront.memory oRecv.moveDataToFront.canRead left
    | .refused => Loop.Yields recvLoop (s.recvStart chunk) (some (.tooLong last))
    | .stuck => ∃ oRecv : OBuffer (Memory Byte),
        Loop.Visits recvLoop (s.recvStart chunk) (oRecv, last) ∧ oRecv.Valid ∧
        headRule.parse oRecv.unread = ⟨[], .stuck⟩ := by
  have hpass := recvPass_spec (fun s frame => .more (onPackage s frame)) hretained chunk
    (s.recvStart chunk).2
  simp only [handAll_more] at hpass
  exact hpass

theorem path_follows : path.Follows Ready fun _ => True where
  part hready := hready.retained.part
  goes := by
    intro s rest chunk left hready hfits hending _
    have hreceived := hfits.received hready.sock hready.retained
    have hloop := recvLoop_spec hready.retained chunk
    simp only [hending] at hloop
    obtain ⟨oRecv, hyields, _⟩ := hloop
    rw [← hreceived] at hyields
    exact ⟨_, returns_of_stopped hready.sock (by rw [hreceived]; exact hfits.1) hyields⟩
  went := by
    intro s rest chunk next hready hfits hturn
    have hreturns : Returns (.readable (.data chunk)) s 0 next := hturn
    have hreceived := hfits.received hready.sock hready.retained
    rcases returns_cases ⟨rest, hready.retained⟩ hready.sock hreturns with
      ⟨_, hvalue, _⟩ | ⟨_, oRecv, t, hyields, _, rfl⟩
    · cases hvalue
    rw [hreceived] at hyields
    have hloop := recvLoop_spec hready.retained chunk
    have hlen : ∀ frame ∈ (headRule.parse (rest ++ chunk)).frames, frame.length ≤ packageMaxSize :=
      fun _ hmem => length_le_of_mem_frames hmem
    obtain ⟨hsock, hdelivered⟩ := onPackages_spec hlen (s.recvStart chunk).2
    simp only at hloop
    split at hloop
    next left hending =>
      obtain ⟨other, hyields', hleft⟩ := hloop
      cases hyields.unique hyields'
      refine ⟨left, hending, trivial, ⟨?_, hleft⟩, hsock, hdelivered⟩
      exact fun hclosed => hready.sock (hsock.symm.trans hclosed)
    next => cases hyields.unique hloop
    next =>
      obtain ⟨other, hvisits, hvalid, hparse⟩ := hloop
      have hmore : ∀ t, ∃ t', Handed.more (onPackage t []) = .more t' := fun t => ⟨_, rfl⟩
      exact absurd (hvisits.ends_iff.mp ⟨_, hyields⟩) (not_ends_of_stuck hmore hvalid hparse)

end SelectClient

namespace SelectClientThread

/-- `RecvThread` on a chunk, and `OnRun` behind it. -/
def turn (chunk : List Byte) (fuel : Nat) (s : SelectClientThread) :
    Option (Outcome SelectClientThread) :=
  (recvThread (.readable (.data chunk)) fuel s).map fun
    | .aborted => .aborted
    | .returned value s =>
        match onRun s with
        | none => .aborted
        | some (_, s) => .returned value s

def path : RecvPath SelectClientThread where
  turn s chunk outcome := ∃ fuel, turn chunk fuel s = some outcome
  sock s := s.sock
  shown s := s.ext.delivered

/-- Open, with these bytes retained and everything delivered. -/
structure Ready (s : SelectClientThread) (rest : List Byte) : Prop where
  inv : Inv s
  sock : s.sock ≠ invalidSocket
  retained : Retained s.recvBuf s.retainSize rest
  nodes : s.ext.recvQueue.nodes = []

theorem connected_ready {sock : Socket} (hopen : sock ≠ invalidSocket)
    (sendBuf recvBuf package : Memory Byte) (test : Option TestCounters) :
    Ready (connect (.connected sock) (new sendBuf recvBuf package test)).2 [] :=
  ⟨(new_inv sendBuf recvBuf package test).connect (.connected sock), hopen,
    Retained.nothing recvBuf, rfl⟩

/-- Frames that the queue has room for, and whose size field has been received. -/
def Deliverable (frames : List (List Byte)) : Prop :=
  frames.length ≤ clientRecvQueueMaxAccumulateCount ∧ ∀ frame ∈ frames, 2 ≤ frame.length

variable {s next last : SelectClientThread} {rest chunk left : List Byte} {value : Int}

theorem turn_iff : path.turn s chunk (.returned value last) ↔
    ∃ next result, Returns (.readable (.data chunk)) s value next ∧
      onRun next = some (result, last) := by
  constructor
  · rintro ⟨fuel, hturn⟩
    obtain ⟨outcome, hrecv, hout⟩ := Option.map_eq_some_iff.mp hturn
    cases outcome with
    | aborted => cases hout
    | returned other next =>
        simp only at hout
        split at hout
        next => cases hout
        next result t hrun =>
          cases hout
          exact ⟨next, result, ⟨fuel, hrecv⟩, hrun⟩
  · rintro ⟨next, result, ⟨fuel, hrecv⟩, hrun⟩
    refine ⟨fuel, ?_⟩
    simp only [turn, hrecv, Option.map_some, hrun]

theorem Ready.size (hready : Ready s rest) : s.ext.recvQueue.size = 0 := by
  have hcounted := hready.inv.counted
  rw [MyQueue.Counted, hready.nodes] at hcounted
  exact hcounted

/-- The state in which a `RecvThread` that queued these frames returns. -/
def queued (s : SelectClientThread) (chunk : List Byte) (frames : List (List Byte))
    (oRecv : OBuffer (Memory Byte)) : SelectClientThread :=
  Endpoint.recvStop (frames.foldl queuePackage (s.recvStart chunk).2) oRecv

theorem Ready.queued_bytes (hready : Ready s rest) (chunk : List Byte) (frames : List (List Byte))
    (oRecv : OBuffer (Memory Byte)) :
    (queued s chunk frames oRecv).ext.recvQueue.nodes.map Package.bytes = frames := by
  obtain ⟨_, _, hbytes⟩ := queuePackages_spec frames (s.recvStart chunk).2
  have hnodes : (s.recvStart chunk).2.ext.recvQueue.nodes = [] := hready.nodes
  rw [hnodes] at hbytes
  exact hbytes

/-- A package is shown exactly if it holds its size field. -/
theorem shown_iff {msg : Package} {stream : List Byte}
    (hmem : msg.bytes ∈ (headRule.parse stream).frames) :
    (2 ≤ msg.bytes.length → shown msg = some (padded msg.bytes)) ∧
      (shown msg ≠ none → 2 ≤ msg.bytes.length) := by
  refine ⟨fun hhead => shown_of_frame hhead (ushort_of_mem_frames hmem hhead)
    (length_le_of_mem_frames hmem), fun hshown => ?_⟩
  by_contra hshort
  have hnone : msg.msgSize = none := if_neg hshort
  rw [shown, hnone] at hshown
  exact hshown rfl

/-- A client that has not become full has had room. -/
theorem room_of_handAll {frames : List (List Byte)} {s : SelectClientThread}
    (hroom : s.ext.recvQueue.size ≤ clientRecvQueueMaxAccumulateCount)
    (hhanded : handAll onPackage s frames = .more next) :
    s.ext.recvQueue.size + frames.length ≤ clientRecvQueueMaxAccumulateCount := by
  induction frames generalizing s with
  | nil => simpa using hroom
  | cons frame frames ih =>
      rw [handAll] at hhanded
      split at hhanded
      next t htake =>
        obtain ⟨rfl, hle⟩ := onPackage_more htake
        have hrest := ih hle hhanded
        rw [queuePackage_size] at hrest
        rw [List.length_cons]
        omega
      next => cases hhanded

/-- A `RecvThread` that returned 0 has queued the frames of the reference parser. -/
theorem Ready.returns_zero (hready : Ready s rest) (hfits : Fits rest chunk)
    (hreturns : Returns (.readable (.data chunk)) s 0 next) :
    ∃ left oRecv, (headRule.parse (rest ++ chunk)).ending = .rest left ∧
      (headRule.parse (rest ++ chunk)).frames.length ≤ clientRecvQueueMaxAccumulateCount ∧
      next = queued s chunk (headRule.parse (rest ++ chunk)).frames oRecv ∧
      Retained next.recvBuf next.retainSize left := by
  have hreceived := hfits.received hready.sock hready.retained
  rcases returns_cases hready.inv hready.sock hreturns with
    ⟨_, hvalue, _⟩ | ⟨_, exit, hyields, ⟨oRecv, t, rfl, _, rfl⟩ | ⟨_, _, hvalue, _⟩⟩
  · cases hvalue
  · rw [hreceived] at hyields
    have hpass := recvPass_spec onPackage hready.retained chunk (s.recvStart chunk).2
    have hempty : (s.recvStart chunk).2.ext.recvQueue.size = 0 := hready.size
    simp only at hpass
    split at hpass
    next => cases hyields.unique hpass
    next t' hhanded =>
      -- every frame was queued, so there was room for all of them
      have hroom := room_of_handAll (by rw [hempty]; exact Int.natCast_nonneg _) hhanded
      split at hpass
      next left hending =>
        obtain ⟨other, hyields', hleft⟩ := hpass
        cases hyields.unique hyields'
        refine ⟨left, oRecv, hending, by omega, ?_, hleft⟩
        rw [queuePackages_of_handAll hhanded]
        rfl
      next => cases hyields.unique hpass
      -- a size of 0 fills the queue and does not return 0
      next hstuck =>
        obtain ⟨hvalid, hunread⟩ := hready.retained.behind chunk
        have hstream : (headRule.parse (s.recvStart chunk).1.unread).ending = .stuck := by
          rw [← hstuck]
          exact congrArg (fun stream => (headRule.parse stream).ending) hunread
        obtain ⟨_, hexit⟩ := full_of_stuck hvalid hstream hyields
        cases hexit
  · cases hvalue

/-- With room for the frames, `RecvThread` queues them and returns 0. -/
theorem Ready.exists_returns (hready : Ready s rest) (hfits : Fits rest chunk)
    (hending : (headRule.parse (rest ++ chunk)).ending = .rest left)
    (hroom : (headRule.parse (rest ++ chunk)).frames.length ≤ clientRecvQueueMaxAccumulateCount) :
    ∃ next, Returns (.readable (.data chunk)) s 0 next := by
  have hreceived := hfits.received hready.sock hready.retained
  have hpass := recvPass_spec onPackage hready.retained chunk (s.recvStart chunk).2
  have hempty : (s.recvStart chunk).2.ext.recvQueue.size = 0 := hready.size
  have hhanded := handAll_of_room (headRule.parse (rest ++ chunk)).frames
    (s := (s.recvStart chunk).2) (by rw [hempty]; omega)
  simp only [hhanded, hending] at hpass
  obtain ⟨oRecv, hyields, _⟩ := hpass
  have hstopped : Loop.Yields (recvPass onPackage) (s.recvStart
      ((RecvAnswer.data chunk).received s.sock (clientRecvBufferSize - s.retainSize)))
      (some (.stopped oRecv
        ((headRule.parse (rest ++ chunk)).frames.foldl queuePackage (s.recvStart chunk).2))) := by
    rw [hreceived]
    exact hyields
  exact ⟨_, returns_of_yields hready.sock (by rw [hreceived]; exact hfits.1) hstopped rfl⟩

theorem queuePackages_sock (frames : List (List Byte)) (s : SelectClientThread) :
    (frames.foldl queuePackage s).sock = s.sock := by
  induction frames generalizing s with
  | nil => rfl
  | cons frame frames ih => exact ih (queuePackage s frame)

theorem Ready.queued_sock (hready : Ready s rest) (chunk : List Byte) (frames : List (List Byte))
    (oRecv : OBuffer (Memory Byte)) : (queued s chunk frames oRecv).sock ≠ invalidSocket := by
  have hsock : (queued s chunk frames oRecv).sock = s.sock :=
    queuePackages_sock frames (s.recvStart chunk).2
  rw [hsock]
  exact hready.sock

/-- What `OnRun` delivers of the frames that were queued. -/
theorem Ready.onRun_of_held (hready : Ready s rest) (stream chunk : List Byte)
    (oRecv : OBuffer (Memory Byte))
    (hheld : ∀ frame ∈ (headRule.parse stream).frames, 2 ≤ frame.length) :
    ∃ last, onRun (queued s chunk (headRule.parse stream).frames oRecv) = some (0, last) ∧
      DeliversAll (queued s chunk (headRule.parse stream).frames oRecv)
        ((headRule.parse stream).frames.map padded) last := by
  have hbytes := hready.queued_bytes chunk (headRule.parse stream).frames oRecv
  have hshown : ∀ msg ∈ (queued s chunk (headRule.parse stream).frames oRecv).ext.recvQueue.nodes,
      shown msg = some (padded msg.bytes) := by
    intro msg hmsg
    have hmem : msg.bytes ∈ (headRule.parse stream).frames := by
      rw [← hbytes]
      exact List.mem_map.mpr ⟨msg, hmsg, rfl⟩
    exact (shown_iff hmem).1 (hheld msg.bytes hmem)
  obtain ⟨last, hfold, hdelivers⟩ := onRunMsgs_of_shown rfl hshown
  rw [hbytes] at hdelivers
  refine ⟨last, ?_, hdelivers⟩
  rw [onRun, if_neg (hready.queued_sock _ _ _), hfold]
  rfl

/-- `OnRun` comes through only if every frame holds its size field. -/
theorem Ready.held_of_onRun (hready : Ready s rest) (stream chunk : List Byte)
    (oRecv : OBuffer (Memory Byte))
    (hrun : onRun (queued s chunk (headRule.parse stream).frames oRecv) = some (value, last)) :
    ∀ frame ∈ (headRule.parse stream).frames, 2 ≤ frame.length := by
  rw [onRun, if_neg (hready.queued_sock _ _ _)] at hrun
  obtain ⟨_, hfold, _⟩ := Option.map_eq_some_iff.mp hrun
  have hbytes := hready.queued_bytes chunk (headRule.parse stream).frames oRecv
  intro frame hframe
  have hqueued := hframe
  rw [← hbytes] at hqueued
  obtain ⟨msg, hmsg, rfl⟩ := List.mem_map.mp hqueued
  exact (shown_iff hframe).2 (shown_of_onRunMsgs hfold msg hmsg)

theorem path_follows : path.Follows Ready Deliverable where
  part hready := hready.retained.part
  goes := by
    intro s rest chunk left hready hfits hending hdeliverable
    obtain ⟨next, hreturns⟩ := hready.exists_returns hfits hending hdeliverable.1
    obtain ⟨_, oRecv, _, _, rfl, _⟩ := hready.returns_zero hfits hreturns
    obtain ⟨last, hrun, _⟩ := hready.onRun_of_held (rest ++ chunk) chunk oRecv hdeliverable.2
    exact ⟨last, turn_iff.mpr ⟨_, 0, hreturns, hrun⟩⟩
  went := by
    intro s rest chunk last hready hfits hturn
    obtain ⟨next, result, hreturns, hrun⟩ := turn_iff.mp hturn
    have hinv := (hready.inv.recvThread hreturns).onRun hrun
    obtain ⟨left, oRecv, hending, hroom, rfl, hretained⟩ := hready.returns_zero hfits hreturns
    have hheld := hready.held_of_onRun (rest ++ chunk) chunk oRecv hrun
    obtain ⟨_, hall, hdelivers⟩ := hready.onRun_of_held (rest ++ chunk) chunk oRecv hheld
    cases hall.symm.trans hrun
    have hsock := hready.queued_sock chunk (headRule.parse (rest ++ chunk)).frames oRecv
    obtain ⟨_, hdelivered, _⟩ := queuePackages_spec (headRule.parse (rest ++ chunk)).frames
      (s.recvStart chunk).2
    refine ⟨left, hending, ⟨hroom, hheld⟩, ⟨hinv, ?_, ?_, hdelivers.nodes⟩, ?_, ?_⟩
    · rw [hdelivers.sock]
      exact hsock
    · rw [hdelivers.recvBuf, hdelivers.retainSize]
      exact hretained
    · exact hdelivers.sock.trans (queuePackages_sock _ (s.recvStart chunk).2)
    · refine hdelivers.delivered.trans (congrArg (· ++ _) ?_)
      exact hdelivered

end SelectClientThread

end SelectNet
