import Mathlib.Algebra.Ring.Int.Defs
import SelectNet.Server.Adoption

/-!
# Load balance

As long as no client is removed, `GetClientNum` of a handler is the number of
pushes to its queue, whatever it has drained. The scan of `OnRun` finds a handler
with the least, and so the handlers stay balanced.
-/

namespace SelectNet.SelectServerThread

variable {ω : Type} {s next : SelectServerThread} {label : ServerLabel ω} {handle : MsgHandle ω}

/-- What the scan reads is what `GetClientNum` is in this state. -/
structure Exact (s : SelectServerThread) (counts : Counts) : Prop where
  front : ∀ h, s.clientHandleArr[0]? = some h → counts.front = s.getClientNum h
  compared : ∀ position h, s.clientHandleArr[position]? = some h →
    counts.compared position = s.getClientNum h
  kept : ∀ position h, s.clientHandleArr[position]? = some h →
    counts.kept position = s.getClientNum h

/-- A serving server whose accepts choose and push in one step. -/
def ServesAtomic (s : SelectServerThread) (label : ServerLabel ω) : Prop :=
  Serves s label ∧
    ∀ clientSock counts, label = .onRun (.client clientSock counts) → s.Exact counts

/-- No handler has removed a client. -/
def NoneRemoved (s : SelectServerThread) : Prop :=
  ∀ h ∈ s.clientHandleArr, h.closesocket = []

/-! ## The scan -/

/-- The scan over the handlers from a position on keeps the least count so far. -/
theorem scanHandles_spec {counts : Counts} {num : Nat → Int} {handles : List SelectClientHandle}
    {position minId : Nat}
    (hcompared : ∀ i h, handles[i]? = some h →
      counts.compared (position + i) = num (position + i) ∧
        counts.kept (position + i) = num (position + i) ∧ h.clientHandleID = position + i)
    (hleast : ∀ other < position, num minId ≤ num other)
    (hlt : minId < position + handles.length) :
    scanHandles counts handles position minId (num minId) < position + handles.length ∧
      ∀ other < position + handles.length,
        num (scanHandles counts handles position minId (num minId)) ≤ num other := by
  induction handles generalizing position minId with
  | nil => exact ⟨hlt, hleast⟩
  | cons h handles ih =>
      obtain ⟨hfirst, hkept, hid⟩ := hcompared 0 h rfl
      rw [Nat.add_zero] at hfirst hkept hid
      have hrest : ∀ i h', handles[i]? = some h' →
          counts.compared (position + 1 + i) = num (position + 1 + i) ∧
            counts.kept (position + 1 + i) = num (position + 1 + i) ∧
            h'.clientHandleID = position + 1 + i := by
        intro i h' hat
        have hshift : position + 1 + i = position + (i + 1) := by omega
        rw [hshift]
        exact hcompared (i + 1) h' hat
      have hlen : position + (h :: handles).length = position + 1 + handles.length := by
        rw [List.length_cons]
        omega
      rw [hlen] at hlt ⊢
      rw [scanHandles, hfirst]
      split
      -- a smaller count is taken over together with its id
      next hless =>
        rw [hkept, hid]
        apply ih hrest
        · intro other hother
          rcases Nat.lt_succ_iff_lt_or_eq.mp hother with hbefore | rfl
          · exact (Int.le_of_lt hless).trans (hleast other hbefore)
          · exact Int.le_refl _
        · omega
      next hge =>
        apply ih hrest
        · intro other hother
          rcases Nat.lt_succ_iff_lt_or_eq.mp hother with hbefore | rfl
          · exact hleast other hbefore
          · exact Int.not_lt.mp hge
        · exact hlt

/-! ## What `GetClientNum` counts -/

/-- Without removals, a handler's count is the number of pushes to its queue. -/
theorem Present.getClientNum_eq (hpresent : s.Present) (hnone : s.NoneRemoved) {position : Nat}
    {h : SelectClientHandle} (hat : s.clientHandleArr[position]? = some h) :
    s.getClientNum h = (s.pushedTo position).length := by
  obtain ⟨hqueue, _, ⟨queue, hqueue', hholds⟩⟩ := hpresent.paired position h hat
  have hclosed := hnone h (List.mem_of_getElem? hat)
  have hsize : queue.size = queue.queue.nodes.length := hholds.counted
  have hadopted : h.adopted.length = h.clientSockArr.length := by
    have hplaced := hholds.serving.placed.length_eq
    simpa [hclosed] using hplaced
  rw [getClientNum, hqueue, hqueue', hholds.order, Option.elim_some, hsize]
  simp only [List.length_append, List.length_map, hadopted]
  omega

theorem Present.scan_least (hpresent : s.Present) (hnone : s.NoneRemoved) {counts : Counts}
    (hexact : s.Exact counts) (hsome : s.clientHandleArr ≠ []) :
    ∀ other < s.queues.length,
      (s.pushedTo (scanHandles counts s.clientHandleArr 0 0 counts.front)).length ≤
        (s.pushedTo other).length := by
  obtain ⟨num, hnum⟩ : ∃ num : Nat → Int, num = fun i => ((s.pushedTo i).length : Int) := ⟨_, rfl⟩
  have hcount : ∀ position h, s.clientHandleArr[position]? = some h →
      s.getClientNum h = num position := by
    intro position h hat
    rw [hnum]
    exact hpresent.getClientNum_eq hnone hat
  have hlen : 0 < s.clientHandleArr.length := List.length_pos_iff.mpr hsome
  have hfront : counts.front = num 0 := by
    have hat := List.getElem?_eq_getElem hlen
    rw [hexact.front _ hat, hcount 0 _ hat]
  -- the counts the scan reads are those of the clients pushed to each thread
  have hread : ∀ i h, s.clientHandleArr[i]? = some h →
      counts.compared (0 + i) = num (0 + i) ∧ counts.kept (0 + i) = num (0 + i) ∧
        h.clientHandleID = 0 + i := by
    intro i h hat
    rw [Nat.zero_add]
    exact ⟨(hexact.compared i h hat).trans (hcount i h hat),
      (hexact.kept i h hat).trans (hcount i h hat), (hpresent.paired i h hat).id⟩
  have hnothing : ∀ other < 0, num 0 ≤ num other := fun other hother =>
    absurd hother (Nat.not_lt_zero _)
  obtain ⟨_, hleast⟩ := scanHandles_spec hread hnothing (by simpa using hlen)
  intro other hother
  have hle := hleast other (by rw [hpresent.length]; omega)
  rw [← hfront, hnum] at hle
  exact Int.ofNat_le.mp hle

/-! ## Whole runs -/

/-- Removals are never taken back. -/
theorem NoneRemoved.before {fuel position : Nat} {label : HandleLabel ω} (hpresent : s.Present)
    (hstep : s.handleStep handle fuel position label = some next) (hnone : next.NoneRemoved) :
    s.NoneRemoved := by
  obtain ⟨h, queue, h', queue', hat, _, _, hholds, hmove, rfl⟩ := hpresent.handleStep_cases hstep
  obtain ⟨_, hsteps⟩ := hholds.step hmove
  intro other hother
  obtain ⟨index, hlt, hindex⟩ := List.getElem_of_mem hother
  by_cases hsame : position = index
  · subst hsame
    have hgone : h'.closesocket = [] := hnone h' (List.mem_set hlt h')
    rw [List.getElem?_eq_getElem hlt, hindex, Option.some.injEq] at hat
    have hprefix := hsteps.closed
    rw [hgone, List.prefix_nil, ← hat] at hprefix
    exact hprefix
  · have hstill : (s.clientHandleArr.set position h')[index]? = some other := by
      rw [List.getElem?_set_ne hsame, List.getElem?_eq_getElem hlt, hindex]
    exact hnone other (List.mem_of_getElem? hstill)

/-- What holds of a serving server as long as it has removed no client. -/
def EvenlyLoaded (s : SelectServerThread) : Prop :=
  s.Present ∧ (s.NoneRemoved → Dispatch.Balanced s.pushed s.queues.length)

theorem initServer_pushed (threadNum : Int) (s : SelectServerThread) :
    (initServer threadNum s).2.pushed = s.pushed := by
  have hall : ∀ (count : Nat) (s : SelectServerThread),
      ((List.range count).foldl initHandle s).pushed = s.pushed := by
    intro count s
    induction count with
    | zero => rfl
    | succ count ih =>
        rw [List.range_succ, List.foldl_append]
        exact ih
  unfold initServer
  split
  · rfl
  · exact hall _ _

theorem EvenlyLoaded.step {fuel : Nat} (heven : s.EvenlyLoaded) (hserves : ServesAtomic s label)
    (hstep : step handle fuel label s = some next) : next.EvenlyLoaded := by
  obtain ⟨hpresent, hbalanced⟩ := heven
  refine ⟨hpresent.step hserves.1 hstep, fun hnone => ?_⟩
  rcases hserves.1.cases hstep with ⟨serverSock, rfl⟩ | ⟨threadNum, hqueues, rfl⟩ |
    ⟨clientSock, counts, hlabel, hsock, hpush⟩ | ⟨position, label', _, hmove⟩
  · exact hbalanced hnone
  · rw [initServer_pushed, hpresent.pushed_eq_nil hqueues]
    exact Dispatch.Balanced.nil _
  · have hsome : s.clientHandleArr ≠ [] := by
      intro hnil
      rw [pushClient, hnil] at hpush
      cases hpush
    obtain ⟨id, queue, hid, _, rfl⟩ := pushClient_cases hpresent.array hpush
    have hleast := hpresent.scan_least hnone (hserves.2 clientSock counts hlabel) hsome
    rw [← hid] at hleast
    simpa using (hbalanced hnone).push hleast clientSock
  · have hbefore := hbalanced (NoneRemoved.before hpresent hmove hnone)
    obtain ⟨h, queue, h', queue', _, _, _, _, _, rfl⟩ := hpresent.handleStep_cases hmove
    simpa using hbefore

theorem evenlyLoaded_of_reachable
    (hreach : ((machine handle).restrict ServesAtomic).Reachable s) : s.EvenlyLoaded := by
  have hinitial : ∀ s, (machine handle).initial s → s.EvenlyLoaded := by
    rintro s rfl
    exact ⟨new_present, fun _ => Dispatch.Balanced.nil _⟩
  have hstep : ∀ s label next, s.EvenlyLoaded → ServesAtomic s label →
      (machine handle).step s label next → next.EvenlyLoaded := by
    rintro s label next heven hserves ⟨fuel, hmove⟩
    exact heven.step hserves hmove
  exact hreach.invariant_restrict hinitial hstep

/-- Without removals the handlers' counts add up to the accepted clients. -/
theorem Present.sum_getClientNum (hpresent : s.Present) (hnone : s.NoneRemoved) :
    (s.clientHandleArr.map s.getClientNum).sum = s.accepted.length := by
  have hmap : s.clientHandleArr.map s.getClientNum =
      (List.range s.queues.length).map fun id => ((s.pushedTo id).length : Int) := by
    apply List.ext_getElem
    · simp [hpresent.length]
    · intro position hlt _
      rw [List.length_map] at hlt
      rw [List.getElem_map, List.getElem_map, List.getElem_range]
      exact hpresent.getClientNum_eq hnone (List.getElem?_eq_getElem hlt)
  have hall := (Dispatch.perm_flatMap_dealtTo hpresent.pushed).length_eq
  rw [List.length_flatMap] at hall
  rw [hmap, accepted, hall]
  induction List.range s.queues.length with
  | nil => rfl
  | cons id ids ih =>
      rw [List.map_cons, List.map_cons, List.sum_cons, List.sum_cons, ih, Int.natCast_add]
      rfl

/-- As long as no client is removed, the handlers' counts add up to the accepted
clients and differ by at most 1. -/
theorem load_balanced (handle : MsgHandle ω)
    (hreach : ((machine handle).restrict ServesAtomic).Reachable s) (hnone : s.removed = []) :
    (s.clientHandleArr.map s.getClientNum).sum = s.accepted.length ∧
      ∀ h ∈ s.clientHandleArr, ∀ h' ∈ s.clientHandleArr,
        s.getClientNum h ≤ s.getClientNum h' + 1 := by
  obtain ⟨hpresent, hbalanced⟩ := evenlyLoaded_of_reachable hreach
  have hkept : s.NoneRemoved := List.flatMap_eq_nil_iff.mp hnone
  refine ⟨hpresent.sum_getClientNum hkept, fun h hmem h' hmem' => ?_⟩
  obtain ⟨position, hlt, hat⟩ := List.getElem_of_mem hmem
  obtain ⟨position', hlt', hat'⟩ := List.getElem_of_mem hmem'
  rw [hpresent.getClientNum_eq hkept (List.getElem?_eq_some_iff.mpr ⟨hlt, hat⟩),
    hpresent.getClientNum_eq hkept (List.getElem?_eq_some_iff.mpr ⟨hlt', hat'⟩)]
  rw [hpresent.length] at hlt hlt'
  have hle := hbalanced hkept position hlt position' hlt'
  rw [← pushedTo_eq, ← pushedTo_eq] at hle
  omega

/-- Two handlers, two clients. -/
theorem load_balanced_two : ∃ s : SelectServerThread, s.accepted = [5, 6] ∧
    (s.clientHandleArr.map s.getClientNum).sum = s.accepted.length ∧
      ∀ h ∈ s.clientHandleArr, ∀ h' ∈ s.clientHandleArr,
        s.getClientNum h ≤ s.getClientNum h' + 1 := by
  let quiet : MsgHandle Unit := fun _ _ => ((), [])
  have hstart : ((machine quiet).restrict ServesAtomic).Reachable new := .start rfl
  have hinit := hstart.step_restrict (.initServer 2) ⟨rfl, by simp⟩ ⟨0, rfl⟩
  have hbind := hinit.step_restrict (.bind (.bound 3)) ⟨trivial, by simp⟩ ⟨0, rfl⟩
  have hfirst := hbind.step_restrict (.onRun (.client 5 ⟨0, fun _ => 0, fun _ => 0⟩))
    ⟨trivial, by
      rintro _ _ ⟨⟩
      refine ⟨?_, ?_, ?_⟩
      · rintro _ ⟨⟩
        rfl
      · rintro (_ | _ | _) _ ⟨⟩ <;> rfl
      · rintro (_ | _ | _) _ ⟨⟩ <;> rfl⟩
    ⟨0, rfl⟩
  have hsecond := hfirst.step_restrict
    (.onRun (.client 6 ⟨1, fun i => if i = 0 then 1 else 0, fun i => if i = 0 then 1 else 0⟩))
    ⟨trivial, by
      rintro _ _ ⟨⟩
      refine ⟨?_, ?_, ?_⟩
      · rintro _ ⟨⟩
        rfl
      · rintro (_ | _ | _) _ ⟨⟩ <;> rfl
      · rintro (_ | _ | _) _ ⟨⟩ <;> rfl⟩
    ⟨0, rfl⟩
  exact ⟨_, rfl, load_balanced quiet hsecond rfl⟩

end SelectNet.SelectServerThread
