import SelectNet.Server.Shutdown

/-!
# Which queue a handler drains

Handlers and queues are tied only by their positions in two vectors. `Close`
empties the one of the handlers and leaves that of the queues as it is, so
`InitServer` pairs by position only where there has been no queue before.
-/

namespace SelectNet.SelectServerThread

variable {ω : Type} {s next : SelectServerThread} {label : ServerLabel ω} {handle : MsgHandle ω}

/-- Each handler drains the live queue that the array has for its id, no other
handler drains it, and an accepted client goes to the handler whose load the
scan compared. -/
structure PairedQueues (s : SelectServerThread) : Prop where
  entry : ∀ h ∈ s.clientHandleArr,
    s.clientStateQueueArr[h.clientHandleID]? = some h.clientStateQueue
  live : ∀ h ∈ s.clientHandleArr, s.queue h.clientStateQueue ≠ none
  apart : (s.clientHandleArr.map SelectClientHandle.clientStateQueue).Nodup
  adopter : ∀ clientSock counts next, pushClient clientSock counts s = some next →
    ∃ h, s.clientHandleArr[scanHandles counts s.clientHandleArr 0 0 counts.front]? = some h ∧
      next.pushed = s.pushed ++ [(h.clientStateQueue, clientSock)]

/-- `InitServer` makes handlers only while the array has no queues. -/
def InitsEmpty (s : SelectServerThread) : ServerLabel ω → Prop
  | .initServer threadNum => 1 ≤ threadNum → s.clientStateQueueArr = []
  | _ => True

/-- Handlers at their own ids, over the live queues with these positions. -/
structure ByPosition (s : SelectServerThread) : Prop where
  id : ∀ (position : Nat) (h : SelectClientHandle), s.clientHandleArr[position]? = some h →
    h.clientHandleID = position
  queue : ∀ (position : Nat) (h : SelectClientHandle), s.clientHandleArr[position]? = some h →
    h.clientStateQueue = position
  live : ∀ position < s.clientHandleArr.length, s.queue position ≠ none

/-! ## What the steps keep -/

/-- Handlers and queues that stand where they stood. -/
theorem ByPosition.of_eq (hplaced : s.ByPosition)
    (hhandles : next.clientHandleArr = s.clientHandleArr) (hqueues : next.queues = s.queues) :
    next.ByPosition := by
  refine ⟨?_, ?_, ?_⟩
  · rw [hhandles]
    exact hplaced.id
  · rw [hhandles]
    exact hplaced.queue
  · rw [hhandles]
    intro position hlt
    rw [SelectServerThread.queue, hqueues]
    exact hplaced.live position hlt

/-- A handler replaced by one that drains the same queue under the same id. -/
theorem ByPosition.replace (hplaced : s.ByPosition) {position : Nat} {h h' : SelectClientHandle}
    (hat : s.clientHandleArr[position]? = some h) (hid : h'.clientHandleID = h.clientHandleID)
    (hqueue : h'.clientStateQueue = h.clientStateQueue)
    (hhandles : next.clientHandleArr = s.clientHandleArr.set position h')
    (hlive : ∀ other, s.queue other ≠ none → next.queue other ≠ none) : next.ByPosition := by
  have hcases : ∀ (other : Nat) (h'' : SelectClientHandle),
      next.clientHandleArr[other]? = some h'' →
      ∃ old : SelectClientHandle, s.clientHandleArr[other]? = some old ∧
        h''.clientHandleID = old.clientHandleID ∧ h''.clientStateQueue = old.clientStateQueue := by
    intro other h'' hother
    rw [hhandles, List.getElem?_set] at hother
    split at hother
    next hsame =>
      subst hsame
      rw [if_pos (List.getElem?_eq_some_iff.mp hat).1, Option.some.injEq] at hother
      subst hother
      exact ⟨h, hat, hid, hqueue⟩
    next => exact ⟨h'', hother, rfl, rfl⟩
  refine ⟨?_, ?_, ?_⟩
  · intro other h'' hother
    obtain ⟨old, hold, hsame, _⟩ := hcases other h'' hother
    exact hsame.trans (hplaced.id other old hold)
  · intro other h'' hother
    obtain ⟨old, hold, _, hsame⟩ := hcases other h'' hother
    exact hsame.trans (hplaced.queue other old hold)
  · intro other hlt
    rw [hhandles, List.length_set] at hlt
    exact hlive other (hplaced.live other hlt)

/-- A queue replaced by a queue stays live, and so do the others. -/
theorem live_of_set {id : Nat} {queue queue' : SafeQueue QMClientState}
    (hqueue : s.queue id = some queue) {other : Nat} (hlive : s.queue other ≠ none)
    (hqueues : next.queues = s.queues.set id (some queue')) : next.queue other ≠ none := by
  have hset := queue_set (queue_lt hqueue) (some queue') other
  have hnext : next.queue other = _ :=
    (congrArg (fun queues => (queues[other]?).join) hqueues).trans
    hset
  rw [hnext]
  split
  · exact Option.some_ne_none _
  · exact hlive

theorem ByPosition.initServer (hplaced : s.ByPosition) (hinv : s.Inv) {threadNum : Int}
    (hempty : 1 ≤ threadNum → s.clientStateQueueArr = []) :
    (initServer threadNum s).2.ByPosition := by
  unfold SelectServerThread.initServer
  split
  next => exact hplaced.of_eq rfl rfl
  next hthreads =>
    have harray := hempty (by omega)
    have hqueues : s.queues = [] := by
      have hlen := congrArg List.length (hinv.array.symm.trans harray)
      rw [List.length_range, List.length_nil, List.length_eq_zero_iff] at hlen
      exact hlen
    -- without queues there is no handler either, for each would have a live one
    have hnone : s.clientHandleArr = [] := by
      by_contra hsome
      apply hplaced.live 0 (List.length_pos_iff.mpr hsome)
      rw [SelectServerThread.queue, hqueues]
      rfl
    change ByPosition ((List.range threadNum.toNat).foldl initHandle
      { s with clientHandleThread := threadNum })
    rw [initAll_eq (s := { s with clientHandleThread := threadNum }) hqueues harray hnone]
    have hat : ∀ position h, ((List.range threadNum.toNat).map fun i =>
        SelectClientHandle.new i i)[position]? = some h →
        h = SelectClientHandle.new position position := by
      intro position h hat
      obtain ⟨i, hrange, rfl⟩ := Option.map_eq_some_iff.mp ((List.getElem?_map).symm.trans hat)
      obtain ⟨_, hsame⟩ := List.getElem?_eq_some_iff.mp hrange
      rw [List.getElem_range] at hsame
      rw [hsame]
    refine ⟨fun position h hposition => by rw [hat position h hposition]; rfl,
      fun position h hposition => by rw [hat position h hposition]; rfl, ?_⟩
    intro position hlt
    simp only [List.length_map, List.length_range] at hlt
    simp [SelectServerThread.queue, hlt]

theorem closeStart_arrays (s : SelectServerThread) :
    (closeStart s).clientHandleArr = s.clientHandleArr ∧ (closeStart s).queues = s.queues := by
  unfold closeStart
  split
  · exact ⟨rfl, rfl⟩
  · exact ⟨rfl, rfl⟩

theorem ByPosition.closeStart (hplaced : s.ByPosition) : (closeStart s).ByPosition :=
  hplaced.of_eq (closeStart_arrays s).1 (closeStart_arrays s).2

theorem ByPosition.bind (hplaced : s.ByPosition) (answer : BindAnswer) :
    (bind answer s).ByPosition := by
  have hlistening : ∀ serverSock, ByPosition { s with serverSock } := fun _ =>
    hplaced.of_eq rfl rfl
  cases answer with
  | noSocket => exact hlistening invalidSocket
  | refused sock => exact (hlistening sock).closeStart
  | bound sock => exact hlistening sock

theorem ByPosition.pushClient (hplaced : s.ByPosition) (hinv : s.Inv) {clientSock : Socket}
    {counts : Counts} (hpush : pushClient clientSock counts s = some next) : next.ByPosition := by
  obtain ⟨id, queue, _, hqueue, rfl⟩ := pushClient_cases hinv.array hpush
  refine ⟨hplaced.id, hplaced.queue, ?_⟩
  intro position hlt
  exact live_of_set hqueue (hplaced.live position hlt) rfl

theorem ByPosition.stopHandle (hplaced : s.ByPosition) {position : Nat} {h : SelectClientHandle}
    (hat : s.clientHandleArr[position]? = some h) :
    ByPosition { s with
      clientHandleArr := s.clientHandleArr.set position { h with isRunging := false } } := by
  have hid : SelectClientHandle.clientHandleID { h with isRunging := false } =
      h.clientHandleID := rfl
  exact hplaced.replace hat hid rfl rfl fun _ hlive => hlive

theorem ByPosition.deleteHandle (hplaced : s.ByPosition) (hinv : s.Inv) {position : Nat}
    {h : SelectClientHandle} (hat : s.clientHandleArr[position]? = some h) (point : MainPoint) :
    ByPosition { s with
      clientHandleArr := s.clientHandleArr.set position h.close
      point } := by
  have hserving := (hinv.handles h (List.mem_of_getElem? hat)).serving
  obtain ⟨_, hkeeps, _⟩ := SelectClientHandle.close_spec hserving
  exact hplaced.replace hat hkeeps.id hkeeps.queue rfl fun _ hlive => hlive

theorem ByPosition.deleteQueues (hinv : s.Inv) (hstep : s.deleteQueues = some next) :
    next.ByPosition := by
  obtain ⟨queues, rfl, _⟩ := deleteQueues_cases hinv hstep
  refine ⟨?_, ?_, ?_⟩
  · intro position h hat
    cases hat
  · intro position h hat
    cases hat
  · intro position hlt
    exact absurd hlt (Nat.not_lt_zero position)

theorem ByPosition.handleStep {fuel position : Nat} {label : HandleLabel ω}
    (hplaced : s.ByPosition) (hinv : s.Inv)
    (hstep : s.handleStep handle fuel position label = some next) : next.ByPosition := by
  obtain ⟨h, queue, h', queue', hat, hqueue, hmove, rfl⟩ :=
    SelectServerThread.handleStep_cases hstep
  have haccounts := hinv.handles h (List.mem_of_getElem? hat)
  obtain ⟨_, hsteps⟩ := (haccounts.holds (hinv.queues _ queue hqueue)).step hmove
  exact hplaced.replace hat hsteps.id hsteps.queue rfl fun _ hlive => live_of_set hqueue hlive rfl

/-- Only `InitServer` could pair by the wrong position. -/
theorem ByPosition.step {fuel : Nat} (hplaced : s.ByPosition) (hinv : s.Inv)
    (hinits : InitsEmpty s label) (hstep : step handle fuel label s = some next) :
    next.ByPosition := by
  cases step_cases hstep with
  | initServer threadNum => exact hplaced.initServer hinv hinits
  | bind answer => exact hplaced.bind answer
  | listen success =>
      cases success with
      | true => exact hplaced
      | false => exact hplaced.closeStart
  | wait => exact hplaced
  | selectFailed => exact hplaced.closeStart
  | pushClient _ _ _ hpush => exact hplaced.pushClient hinv hpush
  | close => exact hplaced.closeStart
  | stopHandle _ hat => exact hplaced.stopHandle hat
  | deleteHandle _ hat => exact hplaced.deleteHandle hinv hat _
  | deleteQueues hdelete => exact ByPosition.deleteQueues hinv hdelete
  | handle hmove => exact hplaced.handleStep hinv hmove

/-! ## Whole runs -/

/-- The scan ends at the handler it started with or at one it has compared. -/
theorem scanHandles_cases (counts : Counts) (handles : List SelectClientHandle) (position : Nat)
    (minId : Nat) (minClient : Int) :
    scanHandles counts handles position minId minClient = minId ∨
      ∃ h ∈ handles, scanHandles counts handles position minId minClient = h.clientHandleID := by
  induction handles generalizing position minId minClient with
  | nil => exact Or.inl rfl
  | cons h handles ih =>
      rw [scanHandles]
      split
      next =>
        rcases ih (position + 1) h.clientHandleID (counts.kept position) with hkept | hfound
        · exact Or.inr ⟨h, List.mem_cons_self, hkept⟩
        · obtain ⟨other, hother, hsame⟩ := hfound
          exact Or.inr ⟨other, List.mem_cons_of_mem h hother, hsame⟩
      next =>
        rcases ih (position + 1) minId minClient with hkept | hfound
        · exact Or.inl hkept
        · obtain ⟨other, hother, hsame⟩ := hfound
          exact Or.inr ⟨other, List.mem_cons_of_mem h hother, hsame⟩

theorem ByPosition.scan_lt (hplaced : s.ByPosition) (hsome : s.clientHandleArr ≠ [])
    (counts : Counts) :
    scanHandles counts s.clientHandleArr 0 0 counts.front < s.clientHandleArr.length := by
  rcases scanHandles_cases counts s.clientHandleArr 0 0 counts.front with hfirst | hfound
  · rw [hfirst]
    exact List.length_pos_iff.mpr hsome
  · obtain ⟨h, hmem, hsame⟩ := hfound
    obtain ⟨position, hlt, hat⟩ := List.getElem_of_mem hmem
    rw [hsame, hplaced.id position h (List.getElem?_eq_some_iff.mpr ⟨hlt, hat⟩)]
    exact hlt

theorem ByPosition.pairedQueues (hplaced : s.ByPosition) (hinv : s.Inv) : s.PairedQueues := by
  have hat : ∀ h ∈ s.clientHandleArr, ∃ position < s.clientHandleArr.length,
      h.clientHandleID = position ∧ h.clientStateQueue = position := by
    intro h hmem
    obtain ⟨position, hlt, hat⟩ := List.getElem_of_mem hmem
    have hat' := List.getElem?_eq_some_iff.mpr ⟨hlt, hat⟩
    exact ⟨position, hlt, hplaced.id position h hat', hplaced.queue position h hat'⟩
  refine ⟨?_, ?_, ?_, ?_⟩
  · intro h hmem
    obtain ⟨position, hlt, hid, hqueue⟩ := hat h hmem
    obtain ⟨queue, hlive⟩ := Option.ne_none_iff_exists'.mp (hplaced.live position hlt)
    rw [hid, hqueue, hinv.array, List.getElem?_range (queue_lt hlive)]
  · intro h hmem
    obtain ⟨position, hlt, _, hqueue⟩ := hat h hmem
    rw [hqueue]
    exact hplaced.live position hlt
  · have hrange : s.clientHandleArr.map SelectClientHandle.clientStateQueue =
        List.range s.clientHandleArr.length := by
      apply List.ext_getElem
      · simp
      · intro position hlt _
        rw [List.getElem_map, List.getElem_range]
        rw [List.length_map] at hlt
        exact hplaced.queue position _ (List.getElem?_eq_getElem hlt)
    rw [hrange]
    exact List.nodup_range
  · intro clientSock counts next hpush
    have hsome : s.clientHandleArr ≠ [] := by
      intro hnone
      rw [SelectServerThread.pushClient, hnone] at hpush
      cases hpush
    have hlt := hplaced.scan_lt hsome counts
    have hfound := List.getElem?_eq_getElem hlt
    refine ⟨_, hfound, ?_⟩
    obtain ⟨id, queue, hid, _, rfl⟩ := pushClient_cases hinv.array hpush
    rw [hplaced.queue _ _ hfound, hid]

theorem new_byPosition : new.ByPosition where
  id := by simp [new]
  queue := by simp [new]
  live := by simp [new]

theorem byPosition_of_reachable
    (hreach : ((machine handle).restrict InitsEmpty).Reachable s) : s.ByPosition := by
  induction hreach with
  | start hstart =>
      cases hstart
      exact new_byPosition
  | next hbefore hmove ih =>
      obtain ⟨hinits, fuel, hstep⟩ := hmove
      exact ih.step (inv_of_reachable hbefore.of_restrict) hinits hstep

/-- In every run whose `InitServer` calls find no queues in the array, handlers
and queues are paired in every state. -/
theorem handlers_paired_of_initsEmpty (handle : MsgHandle ω)
    (hreach : ((machine handle).restrict InitsEmpty).Reachable s) : s.PairedQueues :=
  (byPosition_of_reachable hreach).pairedQueues (inv_of_reachable hreach.of_restrict)

/-- While there is no `Close`, an `InitServer` that finds no queues finds none in
the array. -/
theorem initsEmpty_of_serves (hreach : ((machine handle).restrict Serves).Reachable s) :
    ((machine handle).restrict InitsEmpty).Reachable s := by
  induction hreach with
  | start hstart => exact .start hstart
  | @next s next label hbefore hmove ih =>
      obtain ⟨hserves, hstep⟩ := hmove
      refine .next ih ⟨?_, hstep⟩
      cases label with
      | initServer threadNum =>
          have hqueues : s.queues = [] := hserves
          intro _
          rw [(inv_of_reachable hbefore.of_restrict).array, hqueues]
          rfl
      | _ => trivial

/-- Two handlers with three clients in their queues. -/
theorem handlers_paired_two :
    threeAccepted.clientHandleArr.map SelectClientHandle.clientStateQueue = [0, 1] ∧
      threeAccepted.pushedTo 0 = [5, 7] ∧ threeAccepted.pushedTo 1 = [6] ∧
      threeAccepted.PairedQueues :=
  ⟨rfl, rfl, rfl, handlers_paired_of_initsEmpty quiet
    (initsEmpty_of_serves (threeAccepted_reachable quiet))⟩

/-! ## A server that is started again -/

/-- After `Close` and another `InitServer` the new handler drains the deleted
queue. -/
theorem restart_unpairs : ¬ ∀ s : SelectServerThread, (machine quiet).Reachable s →
    s.serverSock ≠ invalidSocket → s.PairedQueues := by
  intro hall
  have hnew : (machine quiet).Reachable .new := .start rfl
  have hinit := hnew.step (.initServer 1) ⟨0, rfl⟩
  have hbind := hinit.step (.bind (.bound 3)) ⟨0, rfl⟩
  have hclose := hbind.step .close ⟨0, rfl⟩
  have hstop := hclose.step .stopHandle ⟨0, rfl⟩
  have hstopped := hstop.step (.handle 0 .test) ⟨0, rfl⟩
  have hdelete := hstopped.step .deleteHandle ⟨0, rfl⟩
  have hclosed := hdelete.step .deleteQueues ⟨0, rfl⟩
  have hagain := hclosed.step (.initServer 1) ⟨0, rfl⟩
  have hopen := hagain.step (.bind (.bound 3)) ⟨0, rfl⟩
  have hpaired := hall _ hopen (by decide)
  exact hpaired.live _ List.mem_cons_self rfl

end SelectNet.SelectServerThread
