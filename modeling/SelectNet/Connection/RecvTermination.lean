import SelectNet.CommonLib.SelectClient

/-!
# When the receive loops end

A pass of a receive loop takes off as many bytes as the header says. A header
that says 0 takes nothing off, and the loop meets the same header again. Where
the reference parser meets no such header, every pass consumes and the loops
end; where it does, two of the three classes stay in the loop for ever and the
third queues empty packages until its queue is too long.
-/

namespace SelectNet

variable {τ : Type}

/-- Every pass that goes round again takes at least one byte off. -/
def Consumes (body : OBuffer (Memory Byte) × τ →
      Pass (OBuffer (Memory Byte) × τ) (Option (RecvExit τ)))
    (start : OBuffer (Memory Byte) × τ) : Prop :=
  ∀ state next, Loop.Visits body start state → body state = .again next →
    next.1.unread.length < state.1.unread.length

/-- The loop ends, each pass on the way consuming something. -/
def Terminates (body : OBuffer (Memory Byte) × τ →
      Pass (OBuffer (Memory Byte) × τ) (Option (RecvExit τ)))
    (start : OBuffer (Memory Byte) × τ) : Prop :=
  Loop.Ends body start ∧ Consumes body start

section Passes

variable {onPackage : τ → List Byte → Handed τ} {oRecv next : OBuffer (Memory Byte)} {t t' : τ}

/-- A pass that goes round again takes the first frame off, or stays before a
header of size 0. -/
theorem recvPass_again_parse (hvalid : oRecv.Valid)
    (hagain : recvPass onPackage (oRecv, t) = .again (next, t')) :
    next.Valid ∧
      ((∃ frame, headRule.parse oRecv.unread = (headRule.parse next.unread).after [frame] ∧
          next.unread.length < oRecv.unread.length ∧ onPackage t frame = .more t') ∨
        headRule.parse oRecv.unread = ⟨[], .stuck⟩ ∧ next.unread = oRecv.unread ∧
          onPackage t [] = .more t') := by
  obtain ⟨count, hsize, hhead, hlen, htake, hnext, _, hunread⟩ := recvPass_again hvalid hagain
  refine ⟨hnext, ?_⟩
  rcases Nat.eq_zero_or_pos count with rfl | hpos
  · exact Or.inr ⟨Framing.parse_stuck hhead hsize, hunread, htake⟩
  · refine Or.inl ⟨_, hunread ▸ Framing.parse_frame hhead hsize hpos hlen, ?_, htake⟩
    rw [hunread, List.length_drop]
    omega

/-- On the way to a header of size 0 the ending never changes. -/
theorem ending_of_visits (hvalid : oRecv.Valid)
    (hvisits : Loop.Visits (recvPass onPackage) (oRecv, t) (next, t')) :
    next.Valid ∧ (headRule.parse next.unread).ending = (headRule.parse oRecv.unread).ending := by
  have hagain : ∀ state later : OBuffer (Memory Byte) × τ,
      state.1.Valid ∧ (headRule.parse state.1.unread).ending =
        (headRule.parse oRecv.unread).ending →
      recvPass onPackage state = .again later →
      later.1.Valid ∧ (headRule.parse later.1.unread).ending =
        (headRule.parse oRecv.unread).ending := by
    rintro ⟨o, t⟩ ⟨o', t'⟩ ⟨ho, hending⟩ hbody
    obtain ⟨ho', ⟨frame, hparse, _, _⟩ | ⟨_, hsame, _⟩⟩ := recvPass_again_parse ho hbody
    · rw [hparse] at hending
      exact ⟨ho', hending⟩
    · exact ⟨ho', hsame ▸ hending⟩
  have hlast := Loop.Visits.invariant hagain ⟨hvalid, rfl⟩ hvisits
  exact hlast

theorem consumes_of_not_stuck (hvalid : oRecv.Valid)
    (hending : (headRule.parse oRecv.unread).ending ≠ .stuck) :
    Consumes (recvPass onPackage) (oRecv, t) := by
  rintro ⟨o, t⟩ ⟨o', t'⟩ hvisits hbody
  obtain ⟨ho, hsame⟩ := ending_of_visits hvalid hvisits
  obtain ⟨_, ⟨frame, _, hlt, _⟩ | ⟨hparse, _, _⟩⟩ := recvPass_again_parse ho hbody
  · exact hlt
  · rw [hparse] at hsame
    exact absurd hsame.symm hending

/-- Before a header of size 0 the loop can only be left by a full receiver. -/
theorem full_of_stuck (hvalid : oRecv.Valid)
    (hstuck : (headRule.parse oRecv.unread).ending = .stuck) {exit : Option (RecvExit τ)}
    (hyields : Loop.Yields (recvPass onPackage) (oRecv, t) exit) :
    ∃ t', exit = some (.full t') := by
  obtain ⟨⟨o, t'⟩, hvisits, hbody⟩ := hyields.visits
  obtain ⟨ho, hending⟩ := ending_of_visits hvalid hvisits
  rw [hstuck] at hending
  rcases recvPass_cases onPackage t' ho with
    ⟨hpart, _⟩ | ⟨hhead, hsize, _⟩ | ⟨count, _, _, _, hpass⟩
  · rw [Framing.parse_of_unfinished hpart] at hending
    cases hending
  · rw [Framing.parse_refused hhead hsize] at hending
    cases hending
  · rw [hbody] at hpass
    split at hpass
    next => cases hpass
    next last _ =>
      cases hpass
      exact ⟨last, rfl⟩

/-- Consuming loops end: the bytes left are a variant. -/
theorem ends_of_not_stuck (hvalid : oRecv.Valid)
    (hending : (headRule.parse oRecv.unread).ending ≠ .stuck) :
    Loop.Ends (recvPass onPackage) (oRecv, t) := by
  have hagain : ∀ state next, Loop.Visits (recvPass onPackage) (oRecv, t) state →
      recvPass onPackage state = .again next →
      Loop.Visits (recvPass onPackage) (oRecv, t) next ∧
        next.1.unread.length < state.1.unread.length := by
    intro state next hvisits hbody
    exact ⟨hvisits.tail hbody, consumes_of_not_stuck hvalid hending state next hvisits hbody⟩
  exact Loop.Ends.of_variant (fun state => state.1.unread.length) hagain .refl

/-- A receiver that is never full: the loop ends, and each pass consumes, exactly
if the reference parser meets no header of size 0. -/
theorem terminates_iff (take : τ → List Byte → τ) (hvalid : oRecv.Valid) :
    Terminates (recvPass fun t frame => .more (take t frame)) (oRecv, t) ↔
      (headRule.parse oRecv.unread).ending ≠ .stuck := by
  constructor
  · rintro ⟨hends, _⟩ hstuck
    obtain ⟨next, hvisits, hnext, _, hparse⟩ :=
      visits_ending hvalid (handAll_more take t (headRule.parse oRecv.unread).frames)
    rw [hstuck] at hparse
    exact not_ends_of_stuck (fun t => ⟨take t [], rfl⟩) hnext hparse (hvisits.ends_iff.mp hends)
  · intro hending
    exact ⟨ends_of_not_stuck hvalid hending, consumes_of_not_stuck hvalid hending⟩

end Passes

/-! ## The client with a queue -/

namespace SelectClientThread

variable {oRecv : OBuffer (Memory Byte)} {t : SelectClientThread}

/-- Every pass queues a package, and the queue is bounded. -/
theorem recvLoop_ends (hvalid : oRecv.Valid) (t : SelectClientThread) :
    Loop.Ends (recvPass onPackage) (oRecv, t) := by
  have hagain : ∀ state next : OBuffer (Memory Byte) × SelectClientThread, state.1.Valid →
      recvPass onPackage state = .again next → next.1.Valid ∧
        (clientRecvQueueMaxAccumulateCount - next.2.ext.recvQueue.size).toNat <
          (clientRecvQueueMaxAccumulateCount - state.2.ext.recvQueue.size).toNat := by
    rintro ⟨o, t⟩ ⟨o', t'⟩ ho hbody
    obtain ⟨count, _, _, _, htake, ho', _, _⟩ := recvPass_again ho hbody
    obtain ⟨rfl, hle⟩ := onPackage_more htake
    refine ⟨ho', ?_⟩
    simp only [queuePackage_size] at hle ⊢
    omega
  exact Loop.Ends.of_variant
    (fun state => (clientRecvQueueMaxAccumulateCount - state.2.ext.recvQueue.size).toNat)
    hagain hvalid

/-- Passes that consume nothing are made exactly if a header of size 0 is met
while there is still room for an empty package. -/
theorem consumes_iff (hvalid : oRecv.Valid) (t : SelectClientThread) :
    Consumes (recvPass onPackage) (oRecv, t) ↔
      ¬ ((headRule.parse oRecv.unread).ending = .stuck ∧
        t.ext.recvQueue.size + (headRule.parse oRecv.unread).frames.length <
          clientRecvQueueMaxAccumulateCount) := by
  constructor
  · -- behind the last whole message the loop hands over an empty one, and stays
    rintro hconsumes ⟨hstuck, hroom⟩
    obtain ⟨next, hvisits, hnext, _, hparse⟩ :=
      visits_ending hvalid (handAll_of_room (s := t)
        (headRule.parse oRecv.unread).frames (by omega))
    rw [hstuck] at hparse
    have hpass := recvPass_of_stuck onPackage
      ((headRule.parse oRecv.unread).frames.foldl queuePackage t) hnext hparse
    rw [onPackage_of_room [] (by rw [queuePackages_size]; exact hroom)] at hpass
    exact absurd (hconsumes _ _ hvisits hpass) (Nat.lt_irrefl _)
  · rintro hnot ⟨o, t'⟩ ⟨o', t''⟩ hvisits hbody
    -- the queue and the messages still to be cut never become fewer together
    have hagain : ∀ state later : OBuffer (Memory Byte) × SelectClientThread,
        state.1.Valid ∧ t.ext.recvQueue.size + (headRule.parse oRecv.unread).frames.length ≤
          state.2.ext.recvQueue.size + (headRule.parse state.1.unread).frames.length →
        recvPass onPackage state = .again later →
        later.1.Valid ∧ t.ext.recvQueue.size + (headRule.parse oRecv.unread).frames.length ≤
          later.2.ext.recvQueue.size + (headRule.parse later.1.unread).frames.length := by
      rintro ⟨o, t⟩ ⟨o', t'⟩ ⟨ho, hle⟩ hbody
      obtain ⟨ho', ⟨frame, hparse, _, htake⟩ | ⟨_, hsame, htake⟩⟩ := recvPass_again_parse ho hbody
      · obtain ⟨rfl, _⟩ := onPackage_more htake
        simp only [hparse, Framing.Parsed.frames_after, List.length_append,
          List.length_singleton] at hle
        refine ⟨ho', ?_⟩
        simp only [queuePackage_size]
        omega
      · obtain ⟨rfl, _⟩ := onPackage_more htake
        simp only [← hsame] at hle
        refine ⟨ho', ?_⟩
        simp only [queuePackage_size]
        omega
    have hcount := Loop.Visits.invariant hagain ⟨hvalid, Int.le_refl _⟩ hvisits
    obtain ⟨ho, hending⟩ := ending_of_visits hvalid hvisits
    obtain ⟨_, ⟨frame, _, hlt, _⟩ | ⟨hparse, _, htake⟩⟩ := recvPass_again_parse ho hbody
    · exact hlt
    · obtain ⟨rfl, hle⟩ := onPackage_more htake
      rw [hparse] at hending hcount
      rw [queuePackage_size] at hle
      refine absurd ⟨hending.symm, ?_⟩ hnot
      have hcount := hcount.2
      simp only [List.length_nil] at hcount
      omega

end SelectClientThread

/-! ## The three classes -/

/-- The loops of `ClientSocket` and `SelectClient`, in every state they can be
entered in, end and consume on every pass exactly if the reference parser meets
no header of size 0 in what was retained and received. The loop of
`SelectClient_Thread` always ends, and consumes on every pass exactly if no such
header is met before its queue is full. -/
theorem recv_terminates_iff (bytes : List Byte) :
    (∀ (ω : Type) (handle : MsgHandle ω) (s : ClientSocket ω),
      (ClientSocket.machine handle).Reachable s →
        (Terminates (ClientSocket.recvLoop handle) (s.recvHead bytes) ↔
          (headRule.parse (s.retained ++ bytes)).ending ≠ .stuck)) ∧
    (∀ s : SelectClient, SelectClient.machine.Reachable s →
      (Terminates SelectClient.recvLoop (s.recvStart bytes) ↔
        (headRule.parse (s.retained ++ bytes)).ending ≠ .stuck)) ∧
    ∀ s : SelectClientThread, SelectClientThread.machine.Reachable s →
      Loop.Ends (recvPass SelectClientThread.onPackage) (s.recvStart bytes) ∧
      (Terminates (recvPass SelectClientThread.onPackage) (s.recvStart bytes) ↔
        ¬ ((headRule.parse (s.retained ++ bytes)).ending = .stuck ∧
          s.ext.recvQueue.size + (headRule.parse (s.retained ++ bytes)).frames.length <
            clientRecvQueueMaxAccumulateCount)) := by
  refine ⟨fun ω handle s hreach => ?_, fun s hreach => ?_, fun s hreach => ?_⟩
  · obtain ⟨rest, hretained⟩ := (ClientSocket.inv_of_reachable hreach).recv
    obtain ⟨hvalid, hunread⟩ := hretained.behind bytes
    rw [Endpoint.retained, hretained.read, ← hunread]
    exact terminates_iff (ClientSocket.onPackage handle) hvalid
  · obtain ⟨rest, hretained⟩ := (SelectClient.inv_of_reachable hreach).recv
    obtain ⟨hvalid, hunread⟩ := hretained.behind bytes
    rw [SelectClient.retained, hretained.read, ← hunread]
    exact terminates_iff SelectClient.onPackage hvalid
  · obtain ⟨rest, hretained⟩ := (SelectClientThread.inv_of_reachable hreach).recv
    obtain ⟨hvalid, hunread⟩ := hretained.behind bytes
    -- the full queue ends this loop in any case, so only consuming is left
    have hends := SelectClientThread.recvLoop_ends hvalid (s.recvStart bytes).2
    rw [Endpoint.retained, hretained.read, ← hunread]
    refine ⟨hends, Iff.trans ⟨And.right, fun hconsumes => ⟨hends, hconsumes⟩⟩ ?_⟩
    exact SelectClientThread.consumes_iff hvalid (s.recvStart bytes).2

theorem recv_terminates_on_frame :
    Terminates SelectClient.recvLoop
      ((SelectClient.connect (.connected 5) (.new (fun _ => 0) fun _ => 0)).2.recvStart
        [6, 0, 8, 0, 0, 0]) :=
  ((recv_terminates_iff [6, 0, 8, 0, 0, 0]).2.1 _ (.next (.start ⟨fun _ => 0, fun _ => 0, rfl⟩)
    (show SelectClient.machine.step _ (.connect (.connected 5)) _ from rfl))).mpr (by decide)

/-- Six zero bytes on a new connection. -/
theorem recv_stays_at_zero :
    (∃ s : ClientSocket Unit, (ClientSocket.machine fun world _ => (world, [])).Reachable s ∧
      (RecvAnswer.data [0, 0, 0, 0, 0, 0]).received s.sock (serverRecvBufferSize - s.retainSize) =
        [0, 0, 0, 0, 0, 0] ∧
      ¬ Loop.Ends (ClientSocket.recvLoop fun world _ => (world, []))
        (s.recvHead [0, 0, 0, 0, 0, 0])) ∧
    (∃ s : SelectClient, SelectClient.machine.Reachable s ∧
      (RecvAnswer.data [0, 0, 0, 0, 0, 0]).received s.sock (clientRecvBufferSize - s.retainSize) =
        [0, 0, 0, 0, 0, 0] ∧
      ¬ Loop.Ends SelectClient.recvLoop (s.recvStart [0, 0, 0, 0, 0, 0])) ∧
    ∃ s : SelectClientThread, SelectClientThread.machine.Reachable s ∧
      (RecvAnswer.data [0, 0, 0, 0, 0, 0]).received s.sock (clientRecvBufferSize - s.retainSize) =
        [0, 0, 0, 0, 0, 0] ∧
      ¬ Consumes (recvPass SelectClientThread.onPackage) (s.recvStart [0, 0, 0, 0, 0, 0]) := by
  have hzeros : headRule.parse [0, 0, 0, 0, 0, 0] = ⟨[], .stuck⟩ := by decide
  obtain ⟨hvalid, hunread⟩ := (Retained.nothing fun _ => 0).behind [0, 0, 0, 0, 0, 0]
  rw [List.nil_append] at hunread
  have hparse := (congrArg headRule.parse hunread).trans hzeros
  refine ⟨⟨.new 5 () (fun _ => 0) (fun _ => 0) (fun _ => 0) none,
    .start ⟨_, _, _, _, _, _, rfl⟩, by decide, ?_⟩,
    ⟨(SelectClient.connect (.connected 5) (.new (fun _ => 0) fun _ => 0)).2,
      .next (.start ⟨_, _, rfl⟩)
        (show SelectClient.machine.step _ (.connect (.connected 5)) _ from rfl), by decide, ?_⟩,
    ⟨(SelectClientThread.connect (.connected 5)
        (.new (fun _ => 0) (fun _ => 0) (fun _ => 0) none)).2,
      .next (.start ⟨_, _, _, _, rfl⟩)
        (show SelectClientThread.machine.step _ (.connect (.connected 5)) _ from rfl),
      by decide, ?_⟩⟩
  · have hmore : ∀ t : ClientSocket Unit, ∃ t',
        Handed.more (ClientSocket.onPackage (fun world _ => (world, [])) t []) = .more t' :=
      fun t => ⟨_, rfl⟩
    exact not_ends_of_stuck hmore hvalid hparse
  · have hmore : ∀ t : SelectClient, ∃ t',
        Handed.more (SelectClient.onPackage t []) = .more t' := fun t => ⟨_, rfl⟩
    exact not_ends_of_stuck hmore hvalid hparse
  · intro hconsumes
    refine (SelectClientThread.consumes_iff hvalid _).mp hconsumes ?_
    rw [hparse]
    exact ⟨rfl, by decide⟩

end SelectNet
