import Mathlib.Algebra.Ring.Int.Defs
import SelectNet.CommonLib.SelectClient
import SelectNet.Foundation.PartialWrites

/-!
# The stream that the calls of SendData make

On one connection of a `SelectClient`, `SendData` is called any number of times,
also after it failed: a failure leaves the socket open, and the offset is lost with
the call.
-/

namespace SelectNet

/-- A call of `SendData`, and what `send` returns in it each time. -/
structure SendRequest where
  data : Memory Byte
  dataLen : Nat
  answers : Nat → Int

/-- The bytes that the kernel takes of a payload: what it answers before the first
answer that is not positive, as far as the payload goes. -/
def acceptedBytes (dataLen : Nat) (answers : Nat → Int) : Nat :=
  min dataLen (((List.range dataLen).map answers).takeWhile (0 < ·)).sum.toNat

namespace SendRequest

variable {request : SendRequest}

def payload (request : SendRequest) : List Byte := request.data.read 0 request.dataLen

def accepted (request : SendRequest) : Nat := acceptedBytes request.dataLen request.answers

/-- The kernel takes a part of the payload and then fails. -/
def BreaksOff (request : SendRequest) : Prop :=
  0 < request.accepted ∧ request.accepted < request.dataLen

/-- The call as a write to the stream. -/
def write (request : SendRequest) : PartialWrite Byte where
  payload := request.payload
  accepted := request.accepted
  le := by
    rw [payload, Memory.length_read]
    exact Nat.min_le_left _ _

/-- All but the bytes of the payload. -/
def kernel (request : SendRequest) : Nat × (Nat → Int) := (request.dataLen, request.answers)

theorem sent_write (request : SendRequest) :
    request.write.sent = request.data.read 0 request.accepted := by
  have hle : request.accepted ≤ request.dataLen := Nat.min_le_left _ _
  have htake := request.data.take_read 0 request.dataLen request.accepted
  rwa [Nat.min_eq_left hle] at htake

theorem breaksOff_write : request.write.BreaksOff ↔ request.BreaksOff := by
  have hlength : request.write.payload.length = request.dataLen :=
    request.data.length_read 0 request.dataLen
  rw [PartialWrite.BreaksOff, hlength]
  rfl

end SendRequest

/-- What the kernel has accepted, and the payloads of the calls that were not
refused outright. -/
structure SendStream where
  accepted : List Byte
  due : List Byte

namespace SelectClient

variable {s : SelectClient} {request : SendRequest} {before requests others : List SendRequest}
  {stream : SendStream}

/-- A call returns. It was refused outright if it returned -1 with nothing sent. -/
def streamCall (s : SelectClient) (stream : SendStream) (request : SendRequest) :
    Option SendStream :=
  (s.sendData request.data request.dataLen request.answers).map fun (value, taken) =>
    { accepted := stream.accepted ++ taken
      due := if value = -1 ∧ taken = [] then stream.due else stream.due ++ request.payload }

/-- The stream behind these calls. -/
def streamOf (s : SelectClient) (requests : List SendRequest) : Option SendStream :=
  requests.foldlM (streamCall s) ⟨[], []⟩

/-- The stream at any moment: behind some of the calls, or in the middle of one
that has sent something. -/
inductive StreamAt (s : SelectClient) (requests : List SendRequest) : SendStream → Prop where
  | between {before : List SendRequest} {stream : SendStream} (hbefore : before <+: requests)
      (hstream : s.streamOf before = some stream) : StreamAt s requests stream
  | sending {before : List SendRequest} {request : SendRequest} {stream : SendStream}
      {state : Sending} (hbefore : before ++ [request] <+: requests)
      (hstream : s.streamOf before = some stream)
      (hvisits : Loop.Visits (sendPass request.data request.answers)
        ⟨0, request.dataLen, 0, []⟩ state)
      (hsome : state.taken ≠ []) :
      StreamAt s requests ⟨stream.accepted ++ state.taken, stream.due ++ request.payload⟩

/-- The kernel has always accepted a prefix of the payloads, in the order of the calls. -/
def StreamWhole (s : SelectClient) (requests : List SendRequest) : Prop :=
  ∀ stream, StreamAt s requests stream → stream.accepted <+: stream.due

/-! ## What a call sends -/

section Accepted

variable {data : Memory Byte} {dataLen count : Nat} {answers : Nat → Int} {state after : Sending}

/-- The sum of the first answers. -/
def answered (answers : Nat → Int) (calls : Nat) : Int := ((List.range calls).map answers).sum

theorem answered_succ (answers : Nat → Int) (calls : Nat) :
    answered answers (calls + 1) = answered answers calls + answers calls := by
  simp [answered, List.range_succ]

/-- Positive answers are taken first, and then those behind them. -/
theorem leading_answers (hle : count ≤ dataLen) (hpos : ∀ call < count, 0 < answers call) :
    ((List.range dataLen).map answers).takeWhile (0 < ·) = (List.range count).map answers ++
      ((List.range (dataLen - count)).map fun call => answers (count + call)).takeWhile
        (0 < ·) := by
  obtain ⟨more, rfl⟩ := Nat.exists_eq_add_of_le hle
  rw [List.range_add, List.map_append, List.takeWhile_append_of_pos, Nat.add_sub_cancel_left,
    List.map_map]
  · rfl
  · intro answer hanswer
    obtain ⟨call, hcall, rfl⟩ := List.mem_map.mp hanswer
    simpa using hpos call (List.mem_range.mp hcall)

theorem answered_le_leading (hle : count ≤ dataLen) (hpos : ∀ call < count, 0 < answers call) :
    answered answers count ≤ (((List.range dataLen).map answers).takeWhile (0 < ·)).sum := by
  have hrest : ∀ answers : List Int, 0 ≤ (answers.takeWhile (0 < ·)).sum := by
    intro answers
    induction answers with
    | nil => exact Int.le_refl 0
    | cons answer answers ih =>
        by_cases hpositive : 0 < answer
        · rw [List.takeWhile_cons_of_pos (by simpa using hpositive), List.sum_cons]
          omega
        · rw [List.takeWhile_cons_of_neg (by simpa using hpositive)]
          exact Int.le_refl 0
  rw [leading_answers hle hpos, List.sum_append]
  exact Int.le_add_of_nonneg_right (hrest _)

theorem leading_of_stop (hlt : count < dataLen) (hpos : ∀ call < count, 0 < answers call)
    (hstop : answers count ≤ 0) :
    (((List.range dataLen).map answers).takeWhile (0 < ·)).sum = answered answers count := by
  obtain ⟨more, hmore⟩ := Nat.exists_eq_add_of_lt hlt
  have hleft : dataLen - count = more + 1 := by omega
  rw [leading_answers (Nat.le_of_lt hlt) hpos, hleft, List.range_succ_eq_map, List.map_cons,
    List.takeWhile_cons_of_neg, List.append_nil]
  · rfl
  · simpa using hstop

/-- What the locals of the loop have to do with the answers so far. -/
structure Sending.Follows (answers : Nat → Int) (dataLen : Nat) (state : Sending) : Prop where
  positive : ∀ call < state.calls, 0 < answers call
  offset : state.offset = min dataLen (answered answers state.calls).toNat
  nonneg : 0 ≤ answered answers state.calls
  /-- Each call took a byte. -/
  calls : state.calls ≤ state.offset
  left : state.offset + state.dataLen = dataLen

theorem Sending.Follows.again (hfollows : state.Follows answers dataLen)
    (hpass : sendPass data answers state = .again after) : after.Follows answers dataLen := by
  obtain ⟨hpos, hoffset, hnonneg, hcalls, hleft⟩ := hfollows
  have hsum := answered_succ answers state.calls
  obtain ⟨sent, hsentPos, hsent, rfl⟩ := sendPass_again hpass
  refine ⟨?_, ?_, ?_, ?_, ?_⟩
  · intro call hcall
    rcases Nat.lt_succ_iff_lt_or_eq.mp hcall with hlt | rfl
    · exact hpos call hlt
    · omega
  all_goals
    simp only
    omega

theorem Sending.Follows.offset_le (hfollows : state.Follows answers dataLen) :
    state.offset ≤ acceptedBytes dataLen answers := by
  have hle : state.calls ≤ dataLen := by
    have hleft := hfollows.left
    exact hfollows.calls.trans (by omega)
  have hsum := answered_le_leading hle hfollows.positive
  rw [hfollows.offset, acceptedBytes]
  omega

/-- The loop is left when all is sent, or at an answer that is not positive. -/
theorem Sending.Follows.leave (hfollows : state.Follows answers dataLen)
    {result : Int × List Byte} (hpass : sendPass data answers state = .leave result) :
    state.offset = acceptedBytes dataLen answers ∧
      result = (if state.offset = dataLen then 0 else -1, state.taken) := by
  have hatleast := hfollows.offset_le
  obtain ⟨hpos, hoffset, hnonneg, hcalls, hleft⟩ := hfollows
  rcases sendPass_leave hpass with ⟨hmore, hfailed, rfl⟩ | ⟨hnone, rfl⟩
  · have hlt : state.calls < dataLen := by omega
    rw [acceptedBytes, leading_of_stop hlt hpos hfailed]
    exact ⟨hoffset, by rw [if_neg (by omega)]⟩
  · have hmost : acceptedBytes dataLen answers ≤ dataLen := Nat.min_le_left _ _
    exact ⟨by omega, by rw [if_pos (by omega)]⟩

end Accepted

theorem follows_start (answers : Nat → Int) (dataLen : Nat) :
    Sending.Follows answers dataLen ⟨0, dataLen, 0, []⟩ where
  positive call hcall := absurd hcall (Nat.not_lt_zero call)
  offset := by simp [answered]
  nonneg := Int.le_refl 0
  calls := Nat.le_refl 0
  left := Nat.zero_add dataLen

/-- What a call returns and sends. -/
theorem sendData_eq (hopen : s.sock ≠ invalidSocket) (data : Memory Byte) (dataLen : Nat)
    (answers : Nat → Int) :
    s.sendData data dataLen answers =
      some (if acceptedBytes dataLen answers = dataLen then 0 else -1,
        data.read 0 (acceptedBytes dataLen answers)) := by
  obtain ⟨value, taken, hsend, _⟩ := sendData_spec hopen data dataLen answers
  have hrun : Loop.run (sendPass data answers) (dataLen + 1) ⟨0, dataLen, 0, []⟩ =
      some (value, taken) := by
    rw [sendData, if_neg hopen] at hsend
    exact hsend
  have hstart : Sending.Under data dataLen ⟨0, dataLen, 0, []⟩ := ⟨rfl, Nat.zero_add dataLen⟩
  obtain ⟨last, hvisits, hleave⟩ := Loop.Yields.visits ⟨_, hrun⟩
  have hunder := hvisits.invariant (fun _ _ hunder hpass => (hunder.again hpass).1) hstart
  have hfollows := hvisits.invariant (fun _ _ hfollows hpass => hfollows.again hpass)
    (follows_start answers dataLen)
  obtain ⟨hoffset, hresult⟩ := hfollows.leave hleave
  rw [hsend, hresult, ← hoffset, ← hunder.taken]

/-! ## What the calls send -/

/-- What a call leaves due. -/
theorem due_eq (due : List Byte) (request : SendRequest) :
    (if (if request.accepted = request.dataLen then (0 : Int) else -1) = -1 ∧
        request.data.read 0 request.accepted = [] then due else due ++ request.payload) =
      due ++ request.write.due := by
  by_cases hnone : request.accepted = 0
  · have hdue : request.write.due = [] := if_pos hnone
    rw [hdue, List.append_nil, hnone]
    by_cases hempty : request.dataLen = 0
    · -- nothing was sent because there was nothing to send
      simp [hempty, SendRequest.payload]
    · have hfailed : 0 ≠ request.dataLen := fun hall => hempty hall.symm
      simp [hfailed]
  · have hdue : request.write.due = request.payload := if_neg hnone
    rw [hdue, if_neg]
    intro hrefused
    have hlength := congrArg List.length hrefused.2
    rw [Memory.length_read] at hlength
    exact hnone hlength

theorem streamCall_eq (hopen : s.sock ≠ invalidSocket) (stream : SendStream)
    (request : SendRequest) :
    s.streamCall stream request =
      some ⟨stream.accepted ++ request.write.sent, stream.due ++ request.write.due⟩ := by
  rw [streamCall, sendData_eq hopen, Option.map_some, ← due_eq, request.sent_write]
  rfl

/-- The calls are writes to the stream. -/
theorem streamOf_eq (hopen : s.sock ≠ invalidSocket) (requests : List SendRequest) :
    s.streamOf requests = some ⟨PartialWrite.sentAll (requests.map SendRequest.write),
      PartialWrite.dueAll (requests.map SendRequest.write)⟩ := by
  have hfold : ∀ stream : SendStream, requests.foldlM s.streamCall stream =
      some ⟨stream.accepted ++ PartialWrite.sentAll (requests.map SendRequest.write),
        stream.due ++ PartialWrite.dueAll (requests.map SendRequest.write)⟩ := by
    induction requests with
    | nil => intro stream; simp
    | cons request rest ih =>
        intro stream
        rw [List.foldlM_cons, streamCall_eq hopen]
        simp [ih]
  rw [streamOf, hfold]
  simp

/-- Throughout a call, what has been sent is the front of what it sends in all. -/
theorem taken_prefix_sent {state : Sending}
    (hvisits : Loop.Visits (sendPass request.data request.answers)
      ⟨0, request.dataLen, 0, []⟩ state) : state.taken <+: request.write.sent := by
  have hstart : Sending.Under request.data request.dataLen ⟨0, request.dataLen, 0, []⟩ :=
    ⟨rfl, Nat.zero_add _⟩
  have hunder := hvisits.invariant (fun _ _ hunder hpass => (hunder.again hpass).1) hstart
  have hfollows := hvisits.invariant (fun _ _ hfollows hpass => hfollows.again hpass)
    (follows_start request.answers request.dataLen)
  have hle : state.offset ≤ request.accepted := hfollows.offset_le
  obtain ⟨more, hmore⟩ := Nat.exists_eq_add_of_le hle
  rw [hunder.taken, request.sent_write, hmore, Memory.read_add]
  exact List.prefix_append _ _

/-- The stream is whole at every moment if it is in the end. -/
theorem streamWhole_iff_sentAll (hopen : s.sock ≠ invalidSocket) :
    s.StreamWhole requests ↔ PartialWrite.sentAll (requests.map SendRequest.write) <+:
      PartialWrite.dueAll (requests.map SendRequest.write) := by
  constructor
  · intro hwhole
    exact hwhole _ (.between List.prefix_rfl (streamOf_eq hopen requests))
  · intro hwhole stream hat
    cases hat with
    | between hbefore hstream =>
        obtain ⟨behind, rfl⟩ := hbefore
        rw [streamOf_eq hopen, Option.some.injEq] at hstream
        rw [List.map_append] at hwhole
        rw [← hstream]
        exact PartialWrite.sentAll_prefix_of_append hwhole
    -- inside a call the stream is a prefix of what the call leaves behind
    | @sending before request stream state hbefore hstream hvisits hsome =>
        obtain ⟨behind, rfl⟩ := hbefore
        rw [streamOf_eq hopen, Option.some.injEq] at hstream
        rw [List.map_append] at hwhole
        have hsofar := PartialWrite.sentAll_prefix_of_append hwhole
        have hfront := taken_prefix_sent hvisits
        have hnonempty : request.accepted ≠ 0 := by
          intro hnone
          rw [PartialWrite.sent_of_accepted_zero hnone, List.prefix_nil] at hfront
          exact hsome hfront
        -- a call that has sent something owes its whole message
        have hdue : request.write.due = request.payload := if_neg hnonempty
        rw [List.map_append, PartialWrite.sentAll_append, PartialWrite.dueAll_append,
          List.map_singleton, PartialWrite.sentAll_cons, PartialWrite.dueAll_cons, hdue] at hsofar
        simp only [PartialWrite.sentAll_nil, PartialWrite.dueAll_nil, List.append_nil] at hsofar
        rw [← hstream]
        exact ((List.prefix_append_right_inj _).mpr hfront).trans hsofar

/-! ## When the stream stays whole -/

/-- Requests with these payloads. -/
theorem exists_requests {writes : List (PartialWrite Byte)}
    (hshape : writes.map PartialWrite.shape =
      (requests.map SendRequest.write).map PartialWrite.shape) :
    ∃ others : List SendRequest, others.map SendRequest.kernel = requests.map SendRequest.kernel ∧
      others.map SendRequest.write = writes := by
  induction requests generalizing writes with
  | nil =>
      have hnil : writes = [] := by simpa using hshape
      exact ⟨[], rfl, hnil.symm⟩
  | cons request rest ih =>
      obtain ⟨write, writes, rfl⟩ : ∃ write behind, writes = write :: behind :=
        List.exists_cons_of_ne_nil fun hnil => by simp [hnil] at hshape
      simp only [List.map_cons, List.cons.injEq] at hshape
      obtain ⟨others, hkernel, hwrites⟩ := ih hshape.2
      refine ⟨{ request with data := .ofList write.payload 0 } :: others, ?_, ?_⟩
      · rw [List.map_cons, List.map_cons, hkernel]
        rfl
      · rw [List.map_cons, hwrites]
        obtain ⟨payload, accepted, hle⟩ := write
        obtain ⟨hlength, haccepted⟩ := Prod.mk.inj hshape.1
        simp only [List.cons.injEq, and_true, SendRequest.write, PartialWrite.mk.injEq]
        refine ⟨?_, haccepted.symm⟩
        have hall : payload.length = request.dataLen :=
          hlength.trans (request.data.length_read 0 request.dataLen)
        rw [SendRequest.payload, ← hall, Memory.read_ofList]

/-- Whether the stream stops is decided without the payloads. -/
theorem stops_iff (requests : List SendRequest) :
    PartialWrite.Stops (requests.map SendRequest.write) ↔
      (requests.map SendRequest.kernel).Pairwise fun first later =>
        0 < acceptedBytes first.1 first.2 ∧ acceptedBytes first.1 first.2 < first.1 →
          acceptedBytes later.1 later.2 = 0 := by
  rw [PartialWrite.Stops, List.pairwise_map, List.pairwise_map]
  simp only [SendRequest.breaksOff_write]
  rfl

/-- Behind a call that broke off, the stream is whole as long as what later calls
send is what was due. That holds whatever the payloads are only if later calls
send nothing. -/
theorem streamWhole_iff (hopen : s.sock ≠ invalidSocket) (requests : List SendRequest) :
    (s.StreamWhole requests ↔ PartialWrite.Continues (requests.map SendRequest.write)) ∧
    ((∀ others : List SendRequest, others.map SendRequest.kernel = requests.map SendRequest.kernel →
        s.StreamWhole others) ↔
      requests.Pairwise fun request later => request.BreaksOff → later.accepted = 0) := by
  have hwhole : ∀ requests, s.StreamWhole requests ↔
      PartialWrite.Continues (requests.map SendRequest.write) := fun requests =>
    (streamWhole_iff_sentAll hopen).trans PartialWrite.sentAll_prefix_iff
  have hstops : PartialWrite.Stops (requests.map SendRequest.write) ↔
      requests.Pairwise fun request later => request.BreaksOff → later.accepted = 0 := by
    rw [stops_iff, List.pairwise_map]
    rfl
  refine ⟨hwhole requests, ?_⟩
  rw [← hstops]
  have htwo : Nontrivial Byte := ⟨0, 1, by decide⟩
  constructor
  · intro hall
    apply PartialWrite.stops_of_forall_continues
    intro writes hshape
    obtain ⟨others, hkernel, rfl⟩ := exists_requests hshape
    exact (hwhole others).mp (hall others hkernel)
  · intro hstop others hkernel
    refine (hwhole others).mpr (PartialWrite.Stops.continues ?_)
    rw [stops_iff] at hstop ⊢
    rwa [hkernel]

def connected : SelectClient := { new (fun _ => 0) (fun _ => 0) with sock := 5 }

/-- A call of two bytes of which the kernel takes the first. -/
def brokenOff : SendRequest := ⟨.ofList [1, 2] 0, 2, fun call => if call = 0 then 1 else -1⟩

def oneByte : SendRequest := ⟨.ofList [3] 0, 1, fun _ => 1⟩

/-- The call that breaks off is the last. -/
theorem streamWhole_in_order : connected.StreamWhole [oneByte, brokenOff] := by
  have hpairwise : [oneByte, brokenOff].Pairwise fun request later =>
      request.BreaksOff → later.accepted = 0 := by
    refine List.pairwise_pair.mpr ?_
    intro hbreaks
    exact absurd hbreaks.2 (by decide)
  exact (streamWhole_iff (by decide) [oneByte, brokenOff]).2.mpr hpairwise _ rfl

/-- A call behind it puts its byte in the place of the missing one. -/
theorem streamWhole_not_behind_failure : ¬ connected.StreamWhole [brokenOff, oneByte] := by
  rw [streamWhole_iff_sentAll (by decide)]
  decide

end SelectClient

end SelectNet
