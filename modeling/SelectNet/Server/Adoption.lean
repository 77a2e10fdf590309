import SelectNet.Server.Ownership

/-!
# Every accepted client is adopted once

A serving `SelectServer_Thread`: any interleaving of accepts with the handlers'
tests, drains and sweeps, and with no `Close`. Handler, queue and entry of the
queue array are paired by position.
-/

namespace SelectNet.SelectServerThread

variable {ω : Type}

/-- The steps of a server that has its handlers from one `InitServer` and does
not come to `Close`. -/
def Serves (s : SelectServerThread) : ServerLabel ω → Prop
  | .initServer _ => s.queues = []
  | .bind (.refused _) | .listen false | .onRun .selectFailed => False
  | .close | .stopHandle | .deleteHandle | .deleteQueues => False
  | _ => True

/-- A handler, its queue and what it holds, at its position. -/
structure Paired (s : SelectServerThread) (position : Nat) (h : SelectClientHandle) : Prop where
  queue : h.clientStateQueue = position
  id : h.clientHandleID = position
  holds : ∃ queue, s.queue position = some queue ∧ h.Holds queue (s.pushedTo position)

/-- A server that serves has a handler for each of its queues. -/
structure Present (s : SelectServerThread) : Prop where
  array : s.clientStateQueueArr = List.range s.queues.length
  length : s.clientHandleArr.length = s.queues.length
  paired : ∀ position h, s.clientHandleArr[position]? = some h → s.Paired position h
  pushed : ∀ push ∈ s.pushed, push.1 < s.queues.length

variable {s next : SelectServerThread} {label : ServerLabel ω} {handle : MsgHandle ω}

/-- What the loop of `InitServer` makes of a server that has no handlers yet. -/
theorem initAll_eq (hqueues : s.queues = []) (harray : s.clientStateQueueArr = [])
    (hhandles : s.clientHandleArr = []) (count : Nat) :
    (List.range count).foldl initHandle s = { s with
      queues := List.replicate count (some .new)
      clientStateQueueArr := List.range count
      clientHandleArr := (List.range count).map fun i => .new i i } := by
  induction count with
  | zero =>
      cases s
      simp only at hqueues harray hhandles
      subst hqueues harray hhandles
      rfl
  | succ count ih =>
      rw [List.range_succ, List.foldl_append, ih]
      simp [initHandle, List.replicate_succ', List.getD_eq_getElem?_getD]

theorem new_holds (handleID id : Nat) :
    (SelectClientHandle.new handleID id).Holds .new [] := by
  refine ⟨?_, MyQueue.new_counted, rfl, ⟨List.Sublist.refl _, List.Perm.refl _, ?_⟩, ?_⟩
  · simp [SafeQueue.new]
  · simp [SelectClientHandle.new]
  · simp

theorem Present.pushed_eq_nil (hpresent : s.Present) (hqueues : s.queues = []) :
    s.pushed = [] := by
  apply List.eq_nil_iff_forall_not_mem.mpr
  intro push hpush
  have hlt := hpresent.pushed push hpush
  rw [hqueues] at hlt
  exact Nat.not_lt_zero _ hlt

theorem Present.initServer (hpresent : s.Present) (hqueues : s.queues = []) (threadNum : Int) :
    (initServer threadNum s).2.Present := by
  have harray : s.clientStateQueueArr = [] := by rw [hpresent.array, hqueues]; rfl
  have hnone : s.clientHandleArr = [] := by
    have hlen := hpresent.length
    rwa [hqueues, List.length_nil, List.length_eq_zero_iff] at hlen
  have hpushed := hpresent.pushed_eq_nil hqueues
  unfold SelectServerThread.initServer
  split
  · exact ⟨hpresent.array, hpresent.length, fun position h hat =>
      ⟨(hpresent.paired position h hat).queue, (hpresent.paired position h hat).id,
        (hpresent.paired position h hat).holds⟩, hpresent.pushed⟩
  · change Present ((List.range threadNum.toNat).foldl initHandle
      { s with clientHandleThread := threadNum })
    rw [initAll_eq (s := { s with clientHandleThread := threadNum }) hqueues harray hnone]
    refine ⟨by simp, by simp, ?_, by simp [hpushed]⟩
    intro position h hat
    simp only [List.getElem?_map, Option.map_eq_some_iff] at hat
    obtain ⟨position', hrange, rfl⟩ := hat
    obtain ⟨hlt, hsame⟩ := List.getElem?_eq_some_iff.mp hrange
    rw [List.getElem_range] at hsame
    rw [List.length_range] at hlt
    subst hsame
    refine ⟨rfl, rfl, ⟨.new, ?_, ?_⟩⟩
    · simp [SelectServerThread.queue, hlt]
    · simpa [SelectServerThread.pushedTo, hpushed] using new_holds position position

theorem Present.listening (hpresent : s.Present) (serverSock : Socket) :
    Present { s with serverSock } :=
  ⟨hpresent.array, hpresent.length, fun position h hat =>
    ⟨(hpresent.paired position h hat).queue, (hpresent.paired position h hat).id,
      (hpresent.paired position h hat).holds⟩, hpresent.pushed⟩

/-! ## Pushes -/

theorem pushedTo_eq (s : SelectServerThread) (id : Nat) :
    s.pushedTo id = Dispatch.dealtTo s.pushed id := rfl

theorem pushedTo_push_self (s : SelectServerThread) (id : Nat) (sock : Socket)
    (queues : List (Option (SafeQueue QMClientState))) :
    pushedTo { s with queues, pushed := s.pushed ++ [(id, sock)] } id =
      s.pushedTo id ++ [sock] :=
  Dispatch.dealtTo_push_self s.pushed id sock

theorem pushedTo_push_of_ne (s : SelectServerThread) {id other : Nat} (hne : id ≠ other)
    (sock : Socket) (queues : List (Option (SafeQueue QMClientState))) :
    pushedTo { s with queues, pushed := s.pushed ++ [(id, sock)] } other = s.pushedTo other :=
  Dispatch.dealtTo_push_of_ne s.pushed sock hne

theorem Present.pushClient (hpresent : s.Present) {clientSock : Socket}
    (hsock : clientSock ≠ invalidSocket) {counts : Counts}
    (hpush : pushClient clientSock counts s = some next) : next.Present := by
  obtain ⟨id, queue, _, hqueue, rfl⟩ := pushClient_cases hpresent.array hpush
  have hlt := queue_lt hqueue
  have hset := queue_set hlt (some (queue.push ⟨EClientState.join.code, clientSock⟩))
  refine ⟨?_, ?_, ?_, ?_⟩
  · simpa using hpresent.array
  · simpa using hpresent.length
  · intro position h hat
    obtain ⟨hown, hid, ⟨queue', hqueue', hholds⟩⟩ := hpresent.paired position h hat
    by_cases hsame : id = position
    · -- the entry is in the queue of this very thread
      subst hsame
      cases hqueue.symm.trans hqueue'
      refine ⟨hown, hid, ⟨_, (hset id).trans (if_pos rfl), ?_⟩⟩
      rw [pushedTo_push_self]
      exact hholds.push hsock
    · refine ⟨hown, hid, ⟨queue', ?_, ?_⟩⟩
      · exact ((hset position).trans (if_neg hsame)).trans hqueue'
      · rw [pushedTo_push_of_ne s hsame]
        exact hholds
  · intro push hpush'
    simp only [List.mem_append, List.mem_singleton] at hpush'
    rw [List.length_set]
    rcases hpush' with hold | rfl
    · exact hpresent.pushed push hold
    · exact hlt

/-! ## Steps of one handler -/

/-- All that a step of a paired handler changes. -/
theorem Present.handleStep_cases {fuel position : Nat} {label : HandleLabel ω}
    (hpresent : s.Present) (hstep : s.handleStep handle fuel position label = some next) :
    ∃ h queue h' queue', s.clientHandleArr[position]? = some h ∧ s.Paired position h ∧
      s.queue position = some queue ∧ h.Holds queue (s.pushedTo position) ∧
      h.step handle fuel label queue = some (h', queue') ∧ next = { s with
        clientHandleArr := s.clientHandleArr.set position h'
        queues := s.queues.set position (some queue') } := by
  obtain ⟨h, queue, h', queue', hat, hqueue, hmove, rfl⟩ :=
    SelectServerThread.handleStep_cases hstep
  have hpaired := hpresent.paired position h hat
  obtain ⟨queue'', hqueue', hholds⟩ := hpaired.holds
  rw [hpaired.queue] at hqueue ⊢
  cases hqueue.symm.trans hqueue'
  exact ⟨h, queue, h', queue', hat, hpaired, hqueue, hholds, hmove, rfl⟩

theorem Present.handleStep {fuel position : Nat} {label : HandleLabel ω} (hpresent : s.Present)
    (hstep : s.handleStep handle fuel position label = some next) : next.Present := by
  obtain ⟨h, queue, h', queue', hat, hpaired, hqueue, hholds, hmove, rfl⟩ :=
    hpresent.handleStep_cases hstep
  obtain ⟨hholds', hsteps⟩ := hholds.step hmove
  have hset := queue_set (queue_lt hqueue) (some queue')
  refine ⟨?_, ?_, ?_, ?_⟩
  · simpa using hpresent.array
  · simpa using hpresent.length
  · intro other h'' hother
    rw [List.getElem?_set] at hother
    split at hother
    next hsame =>
      subst hsame
      rw [if_pos (List.getElem?_eq_some_iff.mp hat).1, Option.some.injEq] at hother
      subst hother
      exact ⟨hsteps.queue.trans hpaired.queue, hsteps.id.trans hpaired.id, queue',
        (hset position).trans (if_pos rfl), hholds'⟩
    next hne =>
      obtain ⟨hown, hid, ⟨queue'', hqueue'', hholds''⟩⟩ := hpresent.paired other h'' hother
      exact ⟨hown, hid, queue'', ((hset other).trans (if_neg hne)).trans hqueue'', hholds''⟩
  · simpa using hpresent.pushed

/-! ## Whole runs -/

/-- All that a step of a serving server does. -/
theorem Serves.cases {fuel : Nat} (hserves : Serves s label)
    (hstep : step handle fuel label s = some next) :
    (∃ serverSock, next = { s with serverSock }) ∨
    (∃ threadNum, s.queues = [] ∧ next = (SelectServerThread.initServer threadNum s).2) ∨
    (∃ clientSock counts, label = .onRun (.client clientSock counts) ∧
      clientSock ≠ invalidSocket ∧ SelectServerThread.pushClient clientSock counts s = some next) ∨
    ∃ position label', label = .handle position label' ∧
      SelectServerThread.handleStep handle fuel position label' s = some next := by
  cases step_cases hstep with
  | initServer threadNum => exact Or.inr (Or.inl ⟨threadNum, hserves, rfl⟩)
  | bind answer =>
      apply Or.inl
      cases answer with
      | noSocket => exact ⟨invalidSocket, rfl⟩
      | refused _ => exact hserves.elim
      | bound sock => exact ⟨sock, rfl⟩
  | listen success =>
      apply Or.inl
      cases success with
      | true => exact ⟨s.serverSock, rfl⟩
      | false => exact hserves.elim
  | wait => exact Or.inl ⟨s.serverSock, rfl⟩
  | pushClient _ _ hsock hpush => exact Or.inr (Or.inr (Or.inl ⟨_, _, rfl, hsock, hpush⟩))
  | handle hmove => exact Or.inr (Or.inr (Or.inr ⟨_, _, rfl, hmove⟩))
  -- a server that serves does not shut down
  | selectFailed => exact hserves.elim
  | close => exact hserves.elim
  | stopHandle => exact hserves.elim
  | deleteHandle => exact hserves.elim
  | deleteQueues => exact hserves.elim

theorem Present.step {fuel : Nat} (hpresent : s.Present) (hserves : Serves s label)
    (hstep : step handle fuel label s = some next) : next.Present := by
  rcases hserves.cases hstep with ⟨serverSock, rfl⟩ | ⟨threadNum, hqueues, rfl⟩ |
    ⟨clientSock, counts, _, hsock, hpush⟩ | ⟨position, label', _, hmove⟩
  · exact hpresent.listening serverSock
  · exact hpresent.initServer hqueues threadNum
  · exact hpresent.pushClient hsock hpush
  · exact hpresent.handleStep hmove

theorem new_present : new.Present where
  array := rfl
  length := rfl
  paired := by simp [new]
  pushed := by simp [new]

theorem present_of_reachable
    (hreach : ((machine handle).restrict Serves).Reachable s) : s.Present := by
  have hinitial : ∀ s, (machine handle).initial s → s.Present := by
    rintro s rfl
    exact new_present
  have hstep : ∀ s label next, s.Present → Serves s label → (machine handle).step s label next →
      next.Present := by
    rintro s label next hpresent hserves ⟨fuel, hmove⟩
    exact hpresent.step hserves hmove
  exact hreach.invariant_restrict hinitial hstep

/-! ## The account of all handlers -/

/-- The sockets of the clients in the handlers' lists. -/
def served (s : SelectServerThread) : List Socket :=
  s.clientHandleArr.flatMap fun h => h.clientSockArr.map Endpoint.sock

/-- The sockets of the clients that the handlers have deleted. -/
def removed (s : SelectServerThread) : List Socket :=
  s.clientHandleArr.flatMap SelectClientHandle.closesocket

theorem adopted_perm (haccounts : ∀ h ∈ s.clientHandleArr, Accounts h) :
    s.adopted.Perm (s.served ++ s.removed) := by
  apply (List.Perm.flatMap_left _ fun h hmem => (haccounts h hmem).serving.placed).trans
  exact (List.flatMap_append_perm _ _ _).symm

theorem Present.allLive (hpresent : s.Present) : s.AllLive := by
  intro id hlt
  rw [← hpresent.length] at hlt
  obtain ⟨queue, hqueue, _⟩ := (hpresent.paired id _ (List.getElem?_eq_getElem hlt)).holds
  rw [hqueue]
  exact Option.some_ne_none _

/-- Each accepted socket is in one place, and each handler adopts in the order
of the pushes to its queue. -/
structure AdoptedOnce (s : SelectServerThread) : Prop where
  once : s.accepted.Perm (s.waiting ++ (s.served ++ s.removed))
  order : ∀ (position : Nat) (h : SelectClientHandle), s.clientHandleArr[position]? = some h →
    ∃ queue, s.queue h.clientStateQueue = some queue ∧
      s.pushedTo h.clientStateQueue =
        h.adopted ++ queue.queue.nodes.map QMClientState.clientSock ∧
      (h.clientSockArr.map Endpoint.sock).Sublist h.adopted ∧
      h.adopted.Perm (h.clientSockArr.map Endpoint.sock ++ h.closesocket)
  apart : s.clientHandleArr.length = s.queues.length ∧
    ∀ (position : Nat) (h : SelectClientHandle), s.clientHandleArr[position]? = some h →
      h.clientStateQueue = position

theorem Present.adopted (hpresent : s.Present) (hinv : s.Inv) : s.AdoptedOnce := by
  refine ⟨?_, ?_, hpresent.length, fun position h hat => (hpresent.paired position h hat).queue⟩
  · have hcount := (hinv.account hpresent.allLive).2.2
    have hall : s.accepted.Perm (s.waiting ++ s.adopted) := by
      apply List.perm_iff_count.mpr
      intro sock
      rw [List.count_append]
      exact hcount sock
    exact hall.trans ((adopted_perm hinv.handles).append_left _)
  · intro position h hat
    obtain ⟨hqueue, _, ⟨queue, hat', hholds⟩⟩ := hpresent.paired position h hat
    rw [hqueue]
    exact ⟨queue, hat', hholds.order, hholds.serving.listed, hholds.serving.placed⟩

/-- The drain of the handler at a position has adopted all that was pushed to
its queue, and leaves the queue with no node and size 0. -/
def Drained (s : SelectServerThread) (position : Nat) : Prop :=
  ∃ h queue, s.clientHandleArr[position]? = some h ∧ s.queue h.clientStateQueue = some queue ∧
    queue.size = 0 ∧ queue.size = queue.queue.nodes.length ∧ h.adopted = s.pushedTo position

theorem Present.drained {fuel position : Nat} {fresh : Nat → Fresh} (hpresent : s.Present)
    (hstep : s.handleStep handle fuel position (.drain fresh) = some next) :
    next.Drained position := by
  obtain ⟨h, queue, h', queue', hat, hpaired, hat', hholds, hmove, rfl⟩ :=
    hpresent.handleStep_cases hstep
  obtain ⟨hholds', hsteps⟩ := hholds.step hmove
  have hempty : queue'.queue = .new := by
    rcases SelectClientHandle.step_cases hmove with ⟨hlabel, _⟩ |
      ⟨_, _, _, _, hdrain, _⟩ | ⟨_, _, hlabel, _⟩
    · cases hlabel
    · exact (SelectClientHandle.drain_spec hholds.joins hdrain).2
    · cases hlabel
  refine ⟨h', queue', ?_, ?_, ?_, hholds'.counted, ?_⟩
  · simp only
    rw [List.getElem?_set_self (List.getElem?_eq_some_iff.mp hat).1]
  · rw [hsteps.queue, hpaired.queue]
    exact (queue_set (queue_lt hat') (some queue') position).trans (if_pos rfl)
  · rw [SafeQueue.size, hempty]
    rfl
  · have horder := hholds'.order
    rw [hempty, MyQueue.new_nodes, List.map_nil, List.append_nil] at horder
    exact horder.symm

/-- A handler that has come to the lock can always make its drain. -/
theorem Present.can_drain {position : Nat} {h : SelectClientHandle} (hpresent : s.Present)
    (hat : s.clientHandleArr[position]? = some h) (hpoint : h.point = .drain)
    (fresh : Nat → Fresh) :
    ∃ next, (machine handle).step s (.handle position (.drain fresh)) next := by
  obtain ⟨hqueue, _, ⟨queue, hat', hholds⟩⟩ := hpresent.paired position h hat
  obtain ⟨fuel, h', queue', hdrain⟩ := SelectClientHandle.drain_ends h fresh hholds.joins
  refine ⟨{ s with
    clientHandleArr := s.clientHandleArr.set position { h' with point := .poll }
    queues := s.queues.set position (some queue') }, fuel, ?_⟩
  simp only [SelectServerThread.step, SelectServerThread.handleStep, hat, hqueue, hat',
    SelectClientHandle.step, hpoint, hdrain, Option.map_some]

/-- No accepted client is lost or adopted twice, in any interleaving. -/
theorem accepted_adopted_once (handle : MsgHandle ω)
    (hreach : ((machine handle).restrict Serves).Reachable s) :
    s.AdoptedOnce ∧
      (∀ position fresh next, (machine handle).step s (.handle position (.drain fresh)) next →
        next.Drained position) ∧
      ∀ position h fresh, s.clientHandleArr[position]? = some h → h.point = .drain →
        ∃ next, (machine handle).step s (.handle position (.drain fresh)) next := by
  have hpresent := present_of_reachable hreach
  refine ⟨hpresent.adopted (inv_of_reachable hreach.of_restrict), ?_, ?_⟩
  · rintro position fresh next ⟨fuel, hstep⟩
    exact hpresent.drained hstep
  · intro position h fresh hat hpoint
    exact hpresent.can_drain hat hpoint fresh

/-! ## First clients -/

section First

variable (handle : MsgHandle ω)

/-- A server with one handler that has accepted its first client. -/
def firstAccepted : SelectServerThread :=
  { bind (.bound 3) (initServer 1 new).2 with
    queues := [some (SafeQueue.new.push ⟨EClientState.join.code, 5⟩)]
    pushed := [(0, 5)] }

theorem firstAccepted_reachable : ((machine handle).restrict Serves).Reachable firstAccepted := by
  have hnew : ((machine handle).restrict Serves).Reachable new := .start rfl
  have hinit : ((machine handle).restrict Serves).Reachable (initServer 1 new).2 :=
    hnew.step_restrict (.initServer 1) rfl ⟨0, rfl⟩
  have hbind : ((machine handle).restrict Serves).Reachable
      (bind (.bound 3) (initServer 1 new).2) :=
    hinit.step_restrict (.bind (.bound 3)) trivial ⟨0, rfl⟩
  exact hbind.step_restrict (.onRun (.client 5 ⟨0, fun _ => 0, fun _ => 0⟩)) trivial ⟨0, rfl⟩

/-- Two handlers, of which the first has been pushed 5 and 7 and is to drain them,
and the second 6. -/
def threeAccepted : SelectServerThread :=
  { bind (.bound 3) (initServer 2 new).2 with
    clientHandleArr := [{ SelectClientHandle.new 0 0 with point := .drain }, .new 1 1]
    queues := [[5, 7], [6]].map fun socks => some <|
      socks.foldl (fun queue sock => queue.push ⟨EClientState.join.code, sock⟩) .new
    pushed := [(0, 5), (1, 6), (0, 7)] }

theorem threeAccepted_reachable :
    ((machine handle).restrict Serves).Reachable threeAccepted := by
  have hnew : ((machine handle).restrict Serves).Reachable new := .start rfl
  have hinit : ((machine handle).restrict Serves).Reachable (initServer 2 new).2 :=
    hnew.step_restrict (.initServer 2) rfl ⟨0, rfl⟩
  have hbind := hinit.step_restrict (.bind (.bound 3)) trivial ⟨0, rfl⟩
  have hfirst := hbind.step_restrict (.onRun (.client 5 ⟨0, fun _ => 0, fun _ => 0⟩)) trivial
    ⟨0, rfl⟩
  have hsecond := hfirst.step_restrict
    (.onRun (.client 6 ⟨1, fun position => 1 - position, fun _ => 0⟩)) trivial ⟨0, rfl⟩
  have hthird := hsecond.step_restrict (.onRun (.client 7 ⟨1, fun _ => 1, fun _ => 1⟩)) trivial
    ⟨0, rfl⟩
  exact hthird.step_restrict (.handle 0 .test) trivial ⟨0, rfl⟩

/-- The first handler adopts its two clients while 6 still waits. -/
theorem accepted_adopted_once_three :
    threeAccepted.AdoptedOnce ∧ threeAccepted.adopted = [] ∧
      ∃ next : SelectServerThread, next.AdoptedOnce ∧ next.Drained 0 ∧
        next.clientHandleArr.map SelectClientHandle.adopted = [[5, 7], []] ∧
        next.waiting = [6] := by
  let quiet : MsgHandle Unit := fun _ _ => ((), [])
  let fresh : Nat → Fresh := fun _ => ⟨fun _ => 0, fun _ => 0, fun _ => 0⟩
  obtain ⟨honce, hdrained, _⟩ := accepted_adopted_once quiet (threeAccepted_reachable quiet)
  have hdrains : (threeAccepted.handleStep quiet 3 0 (.drain fresh)).map (fun next =>
      (next.clientHandleArr.map SelectClientHandle.adopted, next.waiting)) =
      some ([[5, 7], []], [6]) := by decide +kernel
  obtain ⟨next, hstep, hnext⟩ := Option.map_eq_some_iff.mp hdrains
  have hreach := (threeAccepted_reachable quiet).step_restrict (.handle 0 (.drain fresh)) trivial
    ⟨3, hstep⟩
  exact ⟨honce, rfl, next, (accepted_adopted_once quiet hreach).1, hdrained 0 fresh next ⟨3, hstep⟩,
    (Prod.mk.inj hnext).1, (Prod.mk.inj hnext).2⟩

end First

end SelectNet.SelectServerThread
