import SelectNet.CommonLib.SelectClient
import SelectNet.Connection.Receiver

/-!
# A SelectClient that connects again

Two clients that retain the same go through the same chunks alike. `Close` does
not reset `_retainSize`, so what is left of a message that the old connection
broke off is put in front of the new one.
-/

namespace SelectNet

namespace SelectClient

/-- The bytes `recv` stores when a chunk is there. -/
def taken (t : SelectClient) (chunk : List Byte) : List Byte :=
  (RecvAnswer.data chunk).received t.sock (clientRecvBufferSize - t.retainSize)

/-- `OnRun` on the chunks that `recv` gives. A moment within is the head of a
pass of the receive loop. -/
def receiver : Receiver SelectClient (List Byte) where
  call s chunk next := ∃ value, Returns (.readable (.data chunk)) s value next
  within s chunk t := s.sock ≠ invalidSocket ∧ s.taken chunk ≠ [] ∧
    ∃ oRecv, Loop.Visits recvLoop (s.recvStart (s.taken chunk)) (oRecv, t)
  delivered := SelectClient.delivered

/-- Two clients that have delivered the same since `s` and `f`. -/
structure Paired (s f t u : SelectClient) : Prop where
  sock : t.sock = invalidSocket ↔ u.sock = invalidSocket
  since : receiver.SameSince s f t u

/-- Between calls, they also retain the same. -/
structure Alike (s f t u : SelectClient) : Prop where
  paired : Paired s f t u
  inv : Inv t ∧ Inv u
  retained : t.retained = u.retained

variable {s f t u v next : SelectClient} {chunk : List Byte} {chunks frames : List (List Byte)}

theorem Paired.onPackage (hpaired : Paired s f t u) (bytes : List Byte) :
    Paired s f (onPackage t bytes) (onPackage u bytes) := by
  obtain ⟨hsock, frames, ht, hu⟩ := hpaired
  simp only [receiver] at ht hu
  refine ⟨hsock, frames ++ [(fillPackage t.package bytes).read 0 packageMaxSize], ?_, ?_⟩
  · simp only [receiver, SelectClient.onPackage]
    rw [ht, List.append_assoc]
  · simp only [receiver, SelectClient.onPackage]
    rw [hu, List.append_assoc, read_fillPackage_congr t.package u.package]

theorem Paired.close (hpaired : Paired s f t u) : Paired s f (close t) (close u) := by
  obtain ⟨_, _, ht, htsock⟩ := close_same t
  obtain ⟨_, _, hu, husock⟩ := close_same u
  obtain ⟨_, frames, htframes, huframes⟩ := hpaired
  exact ⟨⟨fun _ => husock, fun _ => htsock⟩, frames, ht.trans htframes, hu.trans huframes⟩

namespace Alike

theorem symm (halike : Alike s f t u) : Alike f s u t := by
  obtain ⟨⟨hsock, hsince⟩, hinv, hretained⟩ := halike
  exact ⟨⟨hsock.symm, hsince.symm⟩, hinv.symm, hretained.symm⟩

theorem close (halike : Alike s f t u) : Alike s f (close t) (close u) := by
  obtain ⟨htretain, htbuf, _⟩ := close_same t
  obtain ⟨huretain, hubuf, _⟩ := close_same u
  refine ⟨halike.paired.close, ⟨halike.inv.1.close, halike.inv.2.close⟩, ?_⟩
  rw [SelectClient.retained, SelectClient.retained, htretain, htbuf, huretain, hubuf]
  exact halike.retained

/-- Alike clients are given the same bytes. -/
theorem taken_eq (halike : Alike s f t u) (hopen : t.sock ≠ invalidSocket) (chunk : List Byte) :
    u.sock ≠ invalidSocket ∧ t.taken chunk = u.taken chunk := by
  have hopen' : u.sock ≠ invalidSocket := fun hclosed => hopen (halike.paired.sock.mpr hclosed)
  obtain ⟨rest, ht⟩ := halike.inv.1.recv
  obtain ⟨rest', hu⟩ := halike.inv.2.recv
  have hrest : rest = rest' := ht.read.symm.trans (halike.retained.trans hu.read)
  refine ⟨hopen', ?_⟩
  simp only [taken, RecvAnswer.received, if_neg hopen, if_neg hopen', ht.size_eq, hu.size_eq,
    hrest]

/-- Their loops start over the same bytes. -/
theorem start (halike : Alike s f t u) (bytes : List Byte) :
    SameBytes (Paired s f) (t.recvStart bytes) (u.recvStart bytes) := by
  obtain ⟨rest, ht⟩ := halike.inv.1.recv
  obtain ⟨rest', hu⟩ := halike.inv.2.recv
  have hrest : rest = rest' := ht.read.symm.trans (halike.retained.trans hu.read)
  obtain ⟨htvalid, htunread⟩ := ht.behind bytes
  obtain ⟨huvalid, huunread⟩ := hu.behind bytes
  exact ⟨⟨htvalid, huvalid⟩, ⟨Option.some_ne_none _, Option.some_ne_none _⟩,
    htunread.trans (hrest ▸ huunread.symm), halike.paired.sock, halike.paired.since⟩

end Alike

theorem loop_alike (state other : OBuffer (Memory Byte) × SelectClient)
    (hsame : SameBytes (Paired s f) state other) :
    Loop.Alike (SameBytes (Paired s f)) (SameExit (Paired s f) fun _ _ => False)
      (recvLoop state) (recvLoop other) :=
  recvPass_alike (fun _ _ bytes hpaired => hpaired.onPackage bytes) state other hsame

theorem Alike.within (halike : Alike s f t u) (hwithin : receiver.within t chunk v) :
    ∃ w, receiver.within u chunk w ∧ Paired s f v w := by
  obtain ⟨hopen, hsome, oRecv, hvisits⟩ := hwithin
  obtain ⟨hopen', htaken⟩ := halike.taken_eq hopen chunk
  obtain ⟨⟨other, w⟩, hvisits', hsame⟩ :=
    Loop.Visits.simulate loop_alike (halike.start (t.taken chunk)) hvisits
  rw [htaken] at hsome hvisits'
  exact ⟨w, ⟨hopen', hsome, other, hvisits'⟩, hsame.same⟩

/-- A call that returns on the one returns on the other, and leaves them alike. -/
theorem Alike.call (halike : Alike s f t u) (hcall : receiver.call t chunk next) :
    ∃ next', receiver.call u chunk next' ∧ Alike s f next next' := by
  obtain ⟨value, hcall⟩ := hcall
  by_cases hopen : t.sock = invalidSocket
  · obtain ⟨fuel, hcall⟩ := hcall
    rw [onRun, if_pos hopen] at hcall
    cases hcall
    refine ⟨u, ⟨-1, 0, ?_⟩, halike⟩
    rw [onRun, if_pos (halike.paired.sock.mp hopen)]
  · obtain ⟨hopen', htaken⟩ := halike.taken_eq hopen chunk
    rcases returns_cases halike.inv.1 hopen hcall with
      ⟨hnone, _, rfl⟩ | ⟨hsome, oRecv, v, hyields, _, rfl⟩
    · exact ⟨SelectClient.close u,
        ⟨-1, returns_of_nothing hopen' (htaken.symm.trans hnone)⟩, halike.close⟩
    · obtain ⟨exit, hyields', hexit⟩ :=
        Loop.Yields.simulate loop_alike (halike.start (t.taken chunk)) hyields
      cases exit with
      | none => exact hexit.elim
      | some exit =>
          cases exit with
          | tooLong w => exact hexit.elim
          | full w => exact hexit.elim
          | stopped other w =>
              obtain ⟨hsame, hpart⟩ := hexit
              rw [htaken] at hyields'
              have hkept := retained_of_stopped halike.inv.1 _ hyields
              have hkept' := retained_of_stopped halike.inv.2 _ hyields'
              have hsome' : u.taken chunk ≠ [] := htaken ▸ hsome
              refine ⟨w.recvStop other, ⟨0, returns_of_stopped hopen' hsome' hyields'⟩,
                ⟨⟨hsame.same.sock, hsame.same.since⟩, ⟨⟨⟨_, hkept⟩⟩, ⟨⟨_, hkept'⟩⟩⟩, ?_⟩⟩
              exact hkept.read.trans (hsame.unread.trans hkept'.read.symm)

theorem alike_of_retainSize (hs : Inv s) (hf : Inv f) (hopen : s.sock ≠ invalidSocket)
    (hopen' : f.sock ≠ invalidSocket) (hclean : s.retainSize = 0) (hfresh : f.retainSize = 0) :
    Alike s f s f := by
  refine ⟨⟨iff_of_false hopen hopen', [], ?_, ?_⟩, ⟨hs, hf⟩, ?_⟩
  · exact (List.append_nil _).symm
  · exact (List.append_nil _).symm
  · rw [SelectClient.retained, SelectClient.retained, hclean, hfresh]
    rfl

theorem taken_probe (hinv : Inv s) (hopen : s.sock ≠ invalidSocket) : s.taken probe = probe := by
  obtain ⟨rest, hretained⟩ := hinv.recv
  exact received_probe hretained hopen

theorem delivered_of_visits {oRecv next : OBuffer (Memory Byte)} (hvalid : oRecv.Valid)
    (hvisits : Loop.Visits recvLoop (oRecv, t) (next, u)) :
    ∃ frames, u.delivered = t.delivered ++ frames := by
  have hagain : ∀ state later : OBuffer (Memory Byte) × SelectClient,
      (state.1.Valid ∧ ∃ frames, state.2.delivered = t.delivered ++ frames) →
      recvLoop state = .again later →
      later.1.Valid ∧ ∃ frames, later.2.delivered = t.delivered ++ frames := by
    rintro ⟨o, v⟩ ⟨o', v'⟩ ⟨ho, frames, hframes⟩ hbody
    obtain ⟨count, _, _, _, htake, ho', _, _⟩ := recvPass_again ho hbody
    cases htake
    have hnext : ∃ frame, (onPackage v (o.unread.take count)).delivered = v.delivered ++ [frame] :=
      ⟨_, rfl⟩
    obtain ⟨frame, hframe⟩ := hnext
    refine ⟨ho', frames ++ [frame], ?_⟩
    rw [← List.append_assoc, ← hframes]
    exact hframe
  have hlast := Loop.Visits.invariant hagain ⟨hvalid, [], (List.append_nil _).symm⟩ hvisits
  exact hlast.2

/-- Behind a rest, no moment of receiving the probe has delivered just the probe. -/
theorem delivered_ne_of_visits (hinv : Inv s) (hdirty : s.retainSize ≠ 0)
    {next : OBuffer (Memory Byte)}
    (hvisits : Loop.Visits recvLoop (s.recvStart probe) (next, t)) :
    t.delivered ≠ s.delivered ++ [padded probe] := by
  intro hdelivered
  obtain ⟨rest, hretained⟩ := hinv.recv
  obtain ⟨hvalid, hunread⟩ := hretained.behind probe
  have hrest : rest ≠ [] := by
    rintro rfl
    exact hdirty hretained.size_eq
  rcases first_of_visits hvalid hvisits with rfl | ⟨count, o, first, hsize, hlen, htake, ho, hlater⟩
  · cases List.self_eq_append_right.mp hdelivered
  · rw [hunread] at hsize hlen htake
    cases htake
    obtain ⟨frames, hframes⟩ := delivered_of_visits ho hlater
    have hshort : ((rest ++ probe).take count).length ≤ packageMaxSize := by
      rw [List.length_take]
      exact Nat.le_trans (Nat.min_le_left _ _) (headRule_size_le hsize)
    simp only [SelectClient.onPackage, read_fillPackage _ hshort] at hframes
    rw [hdelivered, List.append_assoc] at hframes
    have hfirst := List.append_cancel_left hframes
    rw [List.singleton_append, List.cons.injEq] at hfirst
    exact padded_take_ne_probe hrest hretained.part hsize hlen hfirst.1.symm

theorem not_delivers_probe (hinv : Inv s) (hopen : s.sock ≠ invalidSocket)
    (hdirty : s.retainSize ≠ 0) : ¬ receiver.Delivers s [probe] [padded probe] := by
  intro hdelivers
  have hprobe := taken_probe hinv hopen
  obtain ⟨t, hruns, next, ⟨value, hcall⟩ | ⟨_, _, oRecv, hvisits⟩, hnext⟩ :=
    Receiver.Delivers.of_snoc [] hdelivers
  · cases Machine.Runs.nil_iff.mp hruns
    rcases returns_cases hinv hopen hcall with
      ⟨hnone, _, _⟩ | ⟨hsome, oRecv, t, hyields, _, rfl⟩
    · cases hprobe.symm.trans hnone
    · obtain ⟨⟨o, last⟩, hvisits, hleave⟩ := hyields.visits
      obtain rfl : last = t := eq_of_stopped hleave
      change Loop.Visits recvLoop (s.recvStart (s.taken probe)) (o, last) at hvisits
      rw [hprobe] at hvisits
      exact delivered_ne_of_visits hinv hdirty hvisits hnext
  · cases Machine.Runs.nil_iff.mp hruns
    rw [hprobe] at hvisits
    exact delivered_ne_of_visits hinv hdirty hvisits hnext

theorem delivers_probe (hinv : Inv s) (hopen : s.sock ≠ invalidSocket) (hclean : s.retainSize = 0) :
    receiver.Delivers s [probe] [padded probe] := by
  have hprobe := taken_probe hinv hopen
  obtain ⟨rest, hretained⟩ := hinv.recv
  have hrest : rest = [] := by
    rw [← hretained.read, hclean]
    rfl
  subst hrest
  have hloop := recvPass_spec (fun t bytes => .more (onPackage t bytes)) hretained probe
    (s.recvStart probe).2
  simp only [List.nil_append, parse_probe, handAll_more] at hloop
  obtain ⟨oRecv, hyields, _⟩ := hloop
  have hsome : s.taken probe ≠ [] := by
    rw [hprobe]
    decide
  have hyields : Loop.Yields recvLoop (s.recvStart (s.taken probe))
      (some (.stopped oRecv (onPackage (s.recvStart probe).2 probe))) := by
    rw [hprobe]
    exact hyields
  refine Or.inl ⟨_, .single ⟨0, returns_of_stopped hopen hsome hyields⟩, ?_⟩
  change s.delivered ++ [(fillPackage s.package probe).read 0 packageMaxSize] = _
  rw [read_fillPackage _ (show probe.length ≤ packageMaxSize by decide)]
  rfl

/-- A new connection of `s` delivers what the first connection of a new client
does, for the same chunks. -/
def ReceivesAsNew (s : SelectClient) : Prop :=
  ∀ (sock sock' : Socket) (recvBuf package : Memory Byte),
    sock ≠ invalidSocket → sock' ≠ invalidSocket → ∀ chunks frames,
      (receiver.Delivers (connect (.connected sock) s).2 chunks frames ↔
        receiver.Delivers (connect (.connected sock') (new recvBuf package)).2 chunks frames)

theorem delivers_of_alike (halike : Alike s f s f) (hdelivers : receiver.Delivers s chunks frames) :
    receiver.Delivers f chunks frames :=
  hdelivers.simulate (fun _ _ _ _ halike hcall => halike.call hcall)
    (fun _ _ _ _ halike hwithin => halike.within hwithin) (fun _ _ halike => halike.paired)
    (fun _ _ hpaired => hpaired.since) halike

theorem receivesAsNew_iff (hinv : Inv s) : ReceivesAsNew s ↔ s.retainSize = 0 := by
  have hretain : ∀ sock, (connect (.connected sock) s).2.retainSize = s.retainSize :=
    fun sock => (close_same s).1
  have hnew : ∀ recvBuf package, Inv (new recvBuf package) :=
    fun recvBuf package => ⟨[], Retained.nothing recvBuf⟩
  constructor
  · intro hsame
    by_contra hdirty
    have hopen : (5 : Socket) ≠ invalidSocket := by decide
    have hfresh := delivers_probe ((hnew (fun _ => 0) fun _ => 0).connect (.connected 5)) hopen rfl
    exact not_delivers_probe (hinv.connect (.connected 5)) hopen (hretain 5 ▸ hdirty)
      ((hsame 5 5 _ _ hopen hopen _ _).mpr hfresh)
  · intro hclean sock sock' recvBuf package hopen hopen' chunks frames
    have halike := alike_of_retainSize (hinv.connect (.connected sock))
      ((hnew recvBuf package).connect (.connected sock')) hopen hopen' ((hretain sock).trans hclean)
      rfl
    exact ⟨delivers_of_alike halike, delivers_of_alike halike.symm⟩

end SelectClient

end SelectNet
