import SelectNet.Connection.Receiver
import SelectNet.EasyTcpClient.EasyTcpClient

/-!
# An EasyTcpClient that connects again

`Close` does not reset `_lastPos`: the message buffer keeps what the old
connection left in it.
-/

namespace SelectNet

namespace EasyTcpClient

/-- A `DataHeader` without a body. -/
def probe : List Byte := [4, 0, 0, 0]

theorem parse_probe : dataRule.parse probe = ⟨[probe], .rest []⟩ := by decide

/-- The bytes `recv` stores when a chunk is there. -/
def taken (t : EasyTcpClient) (chunk : List Byte) : List Byte :=
  (RecvAnswer.data chunk).received t.sock recvBuffSize

/-- `OnRun` on the chunks that `recv` gives. A moment within is the head of a
pass of the loop over the message buffer. -/
def receiver : Receiver EasyTcpClient (List Byte) where
  call s chunk next := ∃ value, Returns (.readable (.data chunk)) s value next
  within s chunk t := s.isRun = true ∧ s.taken chunk ≠ [] ∧
    Loop.Visits msgPass (s.recvStart (s.taken chunk)) t
  delivered := EasyTcpClient.netMsgs

/-- Two clients with the same pending bytes that have delivered the same since
`s` and `f`. -/
structure Alike (s f t u : EasyTcpClient) : Prop where
  isRun : t.isRun = u.isRun
  since : receiver.SameSince s f t u
  nonneg : 0 ≤ t.lastPos ∧ 0 ≤ u.lastPos
  pending : t.pending = u.pending

variable {s f t u v next : EasyTcpClient} {chunk : List Byte} {chunks frames : List (List Byte)}

namespace Alike

theorem symm (halike : Alike s f t u) : Alike f s u t := by
  obtain ⟨hrun, hsince, hnonneg, hpending⟩ := halike
  exact ⟨hrun.symm, hsince.symm, hnonneg.symm, hpending.symm⟩

theorem close (halike : Alike s f t u) : Alike s f (close t) (close u) := by
  obtain ⟨htpos, htbuf, htmsgs, htsock, htconnect⟩ := close_same t
  obtain ⟨hupos, hubuf, humsgs, husock, huconnect⟩ := close_same u
  obtain ⟨_, ⟨frames, ht, hu⟩, hnonneg, hpending⟩ := halike
  refine ⟨?_, ⟨frames, htmsgs.trans ht, humsgs.trans hu⟩, ?_, ?_⟩
  · rw [EasyTcpClient.isRun, EasyTcpClient.isRun, htconnect, huconnect, htsock, husock]
  · rw [htpos, hupos]
    exact hnonneg
  · rw [EasyTcpClient.pending, EasyTcpClient.pending, htpos, htbuf, hupos, hubuf]
    exact hpending

theorem recvStart (halike : Alike s f t u) (bytes : List Byte) :
    Alike s f (t.recvStart bytes) (u.recvStart bytes) := by
  obtain ⟨htnonneg, htpending⟩ := recvStart_spec halike.nonneg.1 bytes
  obtain ⟨hunonneg, hupending⟩ := recvStart_spec halike.nonneg.2 bytes
  refine ⟨halike.isRun, halike.since, ⟨htnonneg, hunonneg⟩, ?_⟩
  rw [htpending, hupending, halike.pending]

end Alike

/-- Two loops over the same bytes. -/
def SameLeave (s f : EasyTcpClient) : Option EasyTcpClient → Option EasyTcpClient → Prop
  | none, none => True
  | some t, some u => Alike s f t u
  | _, _ => False

theorem msgPass_alike (t u : EasyTcpClient) (halike : Alike s f t u) :
    Loop.Alike (Alike s f) (SameLeave s f) (msgPass t) (msgPass u) := by
  obtain ⟨hrun, ⟨frames, ht, hu⟩, ⟨htnonneg, hunonneg⟩, hpending⟩ := halike
  rcases dataRule.head_cases t.pending with
    hpart | ⟨hhead, hsize⟩ | ⟨count, hhead, hsize, hlen⟩
  · rw [msgPass_of_unfinished htnonneg hpart, msgPass_of_unfinished hunonneg (hpending ▸ hpart)]
    exact ⟨hrun, ⟨frames, ht, hu⟩, ⟨htnonneg, hunonneg⟩, hpending⟩
  · rw [msgPass_of_refused hhead hsize, msgPass_of_refused (hpending ▸ hhead) (hpending ▸ hsize)]
    trivial
  · obtain ⟨_, _, hpass, htpos, htread⟩ := msgPass_of_frame hhead hsize hlen
    rw [hpending] at hhead hsize hlen
    obtain ⟨_, _, hpass', hupos, huread⟩ := msgPass_of_frame hhead hsize hlen
    rw [hpass, hpass']
    refine ⟨hrun, ⟨frames ++ [u.pending.take count], ?_, ?_⟩, ⟨htpos, hupos⟩, ?_⟩
    · rw [← List.append_assoc, ← ht, ← hpending]
      rfl
    · rw [← List.append_assoc, ← hu]
      rfl
    · exact htread.trans (hpending ▸ huread.symm)

namespace Alike

theorem taken_eq (halike : Alike s f t u) (hopen : t.isRun = true) (chunk : List Byte) :
    u.isRun = true ∧ t.taken chunk = u.taken chunk := by
  have hopen' := halike.isRun.symm.trans hopen
  refine ⟨hopen', ?_⟩
  simp only [EasyTcpClient.isRun, Bool.and_eq_true, decide_eq_true_eq] at hopen hopen'
  simp only [taken, RecvAnswer.received, if_neg hopen.1, if_neg hopen'.1]

theorem within (halike : Alike s f t u) (hwithin : receiver.within t chunk v) :
    ∃ w, receiver.within u chunk w ∧ Alike s f v w := by
  obtain ⟨hopen, hsome, hvisits⟩ := hwithin
  obtain ⟨hopen', htaken⟩ := halike.taken_eq hopen chunk
  obtain ⟨w, hvisits', hsame⟩ :=
    Loop.Visits.simulate msgPass_alike (halike.recvStart (t.taken chunk)) hvisits
  rw [htaken] at hsome hvisits'
  exact ⟨w, ⟨hopen', hsome, hvisits'⟩, hsame⟩

/-- A call that returns on the one returns on the other, and leaves them alike. -/
theorem call (halike : Alike s f t u) (hcall : receiver.call t chunk next) :
    ∃ next', receiver.call u chunk next' ∧ Alike s f next next' := by
  obtain ⟨value, hcall⟩ := hcall
  by_cases hopen : t.isRun = true
  · obtain ⟨hopen', htaken⟩ := halike.taken_eq hopen chunk
    rcases returns_cases hopen hcall with ⟨hnone, rfl⟩ | ⟨hsome, hyields⟩
    · exact ⟨EasyTcpClient.close u, ⟨0, returns_of_nothing hopen' (htaken.symm.trans hnone)⟩,
        halike.close⟩
    · obtain ⟨exit, hyields', hsame⟩ :=
        Loop.Yields.simulate msgPass_alike (halike.recvStart (t.taken chunk)) hyields
      have hsome' : u.taken chunk ≠ [] := htaken ▸ hsome
      rw [htaken] at hyields'
      match exit, hsame with
      | some w, hsame => exact ⟨w, ⟨1, returns_of_yields hopen' hsome' hyields'⟩, hsame⟩
  · have hclosed : t.isRun = false := (Bool.not_eq_true _).mp hopen
    obtain ⟨fuel, hcall⟩ := hcall
    rw [onRun, if_pos hclosed] at hcall
    cases hcall
    refine ⟨u, ⟨0, 0, ?_⟩, halike⟩
    rw [onRun, if_pos (halike.isRun.symm.trans hclosed)]

end Alike

/-! ## A client that has bytes pending -/

theorem taken_probe (hopen : s.isRun = true) : s.taken probe = probe := by
  simp only [isRun, Bool.and_eq_true, decide_eq_true_eq] at hopen
  simp only [taken, RecvAnswer.received, if_neg hopen.1]
  rfl

theorem netMsgs_of_visits (hnonneg : 0 ≤ t.lastPos) (hvisits : Loop.Visits msgPass t u) :
    ∃ frames, u.netMsgs = t.netMsgs ++ frames := by
  have hagain : ∀ state later : EasyTcpClient,
      (0 ≤ state.lastPos ∧ ∃ frames, state.netMsgs = t.netMsgs ++ frames) →
      msgPass state = .again later →
      0 ≤ later.lastPos ∧ ∃ frames, later.netMsgs = t.netMsgs ++ frames := by
    rintro state later ⟨hpos, frames, hframes⟩ hbody
    obtain ⟨count, _, _, hmsgs, hlater, _⟩ := msgPass_again hpos hbody
    refine ⟨hlater, frames ++ [state.pending.take count], ?_⟩
    rw [← List.append_assoc, ← hframes, hmsgs]
  have hlast := Loop.Visits.invariant hagain ⟨hnonneg, [], (List.append_nil _).symm⟩ hvisits
  exact hlast.2

/-- Behind a rest, no moment of receiving the probe has delivered just the probe. -/
theorem netMsgs_ne_of_visits (hinv : Inv s) (hdirty : s.lastPos ≠ 0)
    (hvisits : Loop.Visits msgPass (s.recvStart probe) t) :
    t.netMsgs ≠ s.netMsgs ++ [probe] := by
  intro hdelivered
  obtain ⟨hnonneg, hpending⟩ := recvStart_spec hinv.nonneg probe
  have hrest : s.pending ≠ [] := by
    intro hnone
    have hlen := length_pending s
    have hpos := hinv.nonneg
    rw [hnone, List.length_nil] at hlen
    omega
  rcases Relation.ReflTransGen.cases_head hvisits with rfl | ⟨first, hbody, hlater⟩
  · cases List.self_eq_append_right.mp hdelivered
  · obtain ⟨count, hsize, hlen, hmsgs, hpos, _⟩ := msgPass_again hnonneg hbody
    obtain ⟨frames, hframes⟩ := netMsgs_of_visits hpos hlater
    rw [hpending] at hsize hlen hmsgs
    rw [hdelivered, hmsgs, List.append_assoc] at hframes
    have hfirst := List.append_cancel_left hframes
    rw [List.singleton_append, List.cons.injEq] at hfirst
    have hframe : dataRule.IsFrame probe := by
      refine ⟨?_, ?_⟩ <;> decide
    have hborder : Framing.Borderless probe := by
      unfold Framing.Borderless
      decide
    exact Framing.take_ne_of_unfinished hframe hborder hrest hinv.part hsize hlen hfirst.1.symm

theorem not_delivers_probe (hinv : Inv s) (hopen : s.isRun = true) (hdirty : s.lastPos ≠ 0) :
    ¬ receiver.Delivers s [probe] [probe] := by
  intro hdelivers
  have hprobe := taken_probe hopen
  obtain ⟨t, hruns, next, ⟨value, hcall⟩ | ⟨_, _, hvisits⟩, hnext⟩ :=
    Receiver.Delivers.of_snoc [] hdelivers
  · cases Machine.Runs.nil_iff.mp hruns
    rcases returns_cases hopen hcall with ⟨hnone, _⟩ | ⟨_, hyields⟩
    · cases hprobe.symm.trans hnone
    · obtain ⟨last, hvisits, hleave⟩ := hyields.visits
      have hpos := nonneg_of_visits (recvStart_spec hinv.nonneg _).1 hvisits
      obtain ⟨rfl, _⟩ := msgPass_leave hpos hleave
      change Loop.Visits msgPass (s.recvStart (s.taken probe)) next at hvisits
      rw [hprobe] at hvisits
      exact netMsgs_ne_of_visits hinv hdirty hvisits hnext
  · cases Machine.Runs.nil_iff.mp hruns
    rw [hprobe] at hvisits
    exact netMsgs_ne_of_visits hinv hdirty hvisits hnext

theorem delivers_probe (hinv : Inv s) (hopen : s.isRun = true) (hclean : s.lastPos = 0) :
    receiver.Delivers s [probe] [probe] := by
  have hprobe := taken_probe hopen
  have hsome : s.taken probe ≠ [] := by
    rw [hprobe]
    decide
  obtain ⟨hnonneg, hpending⟩ := recvStart_spec hinv.nonneg probe
  have hfresh : s.pending = [] := by
    rw [pending, hclean]
    rfl
  rw [hfresh, List.nil_append] at hpending
  obtain ⟨t, ht⟩ : ∃ t, t = s.recvStart probe := ⟨_, rfl⟩
  rw [← ht] at hnonneg hpending
  have hwhole : dataRule.size t.pending = some probe.length := by
    rw [hpending]
    decide
  obtain ⟨szMsgBuf, lastPos, hpass, hpos, hread⟩ :=
    msgPass_of_frame (by rw [hpending]; decide) hwhole (by rw [hpending])
  rw [hpending, List.take_length] at hpass
  obtain ⟨last, hlast⟩ : ∃ last, last = { t with
    netMsgs := t.netMsgs ++ [probe], szMsgBuf, lastPos } := ⟨_, rfl⟩
  rw [← hlast] at hpass
  have hpart : dataRule.Unfinished last.pending := by
    refine Or.inl ?_
    rw [hlast, pending, hread, hpending]
    decide
  have hstop : msgPass last = .leave (some last) :=
    msgPass_of_unfinished (by rw [hlast]; exact hpos) hpart
  have hyields : Loop.Yields msgPass (s.recvStart (s.taken probe)) (some last) := by
    rw [hprobe, ← ht]
    exact (Loop.Yields.of_leave hstop).of_again hpass
  refine Or.inl ⟨last, .single ⟨1, returns_of_yields hopen hsome hyields⟩, ?_⟩
  rw [hlast, ht]
  rfl

/-- A new connection of `s`, closed, delivers what the first connection of a new
client does, for the same chunks. -/
def ReceivesAsNew (s : EasyTcpClient) : Prop :=
  ∀ sock sock' : Socket, sock ≠ invalidSocket → sock' ≠ invalidSocket → ∀ chunks frames,
    (receiver.Delivers (connect sock true (close s)).2 chunks frames ↔
      receiver.Delivers (connect sock' true new).2 chunks frames)

theorem delivers_of_alike (halike : Alike s f s f) (hdelivers : receiver.Delivers s chunks frames) :
    receiver.Delivers f chunks frames :=
  hdelivers.simulate (fun _ _ _ _ halike hcall => halike.call hcall)
    (fun _ _ _ _ halike hwithin => halike.within hwithin) (fun _ _ halike => halike)
    (fun _ _ halike => halike.since) halike

/-- What a connected client starts with. -/
theorem connected_spec (hinv : Inv s) (hclosed : s.sock = invalidSocket) {sock : Socket}
    (hopen : sock ≠ invalidSocket) :
    Inv (connect sock true s).2 ∧ (connect sock true s).2.isRun = true ∧
      (connect sock true s).2.lastPos = s.lastPos := by
  have hnext : (connect sock true s).2 = { s with sock, isConnect := true } := by
    have hinit : initSocket sock s = { s with sock } := by
      rw [initSocket, if_neg (not_not.mpr hclosed)]
    rw [connect, if_pos hclosed, hinit]
    exact congrArg Prod.snd (if_pos ⟨hopen, rfl⟩)
  rw [hnext]
  refine ⟨hinv.of_same rfl rfl, ?_, rfl⟩
  simp only [isRun, Bool.and_true, decide_eq_true_eq]
  exact hopen

theorem receivesAsNew_iff (hinv : Inv s) : ReceivesAsNew s ↔ s.lastPos = 0 := by
  have hclosed := (close_same s).2.2.2.1
  have hretain := (close_same s).1
  constructor
  · intro hsame
    by_contra hdirty
    have hopen : (5 : Socket) ≠ invalidSocket := by decide
    obtain ⟨hs, hrun, hpos⟩ := connected_spec hinv.close hclosed hopen
    obtain ⟨hf, hrun', hpos'⟩ := connected_spec new_inv rfl hopen
    exact not_delivers_probe hs hrun (by rw [hpos, hretain]; exact hdirty)
      ((hsame 5 5 hopen hopen _ _).mpr (delivers_probe hf hrun' hpos'))
  · intro hclean sock sock' hopen hopen' chunks frames
    obtain ⟨hs, hrun, hpos⟩ := connected_spec hinv.close hclosed hopen
    obtain ⟨hf, hrun', hpos'⟩ := connected_spec new_inv rfl hopen'
    have halike : Alike (connect sock true (EasyTcpClient.close s)).2 (connect sock' true new).2
        (connect sock true (EasyTcpClient.close s)).2 (connect sock' true new).2 := by
      refine ⟨hrun.trans hrun'.symm, ⟨[], (List.append_nil _).symm, (List.append_nil _).symm⟩,
        ⟨hs.nonneg, hf.nonneg⟩, ?_⟩
      rw [pending, pending, hpos, hretain, hclean, hpos']
      rfl
    exact ⟨delivers_of_alike halike, delivers_of_alike halike.symm⟩

end EasyTcpClient

end SelectNet
