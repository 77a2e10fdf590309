import SelectNet.Foundation.Dispatch
import SelectNet.Foundation.Machine
import SelectNet.Server.Handler

/-!
# Who holds an accepted socket

Over all runs of a `SelectServer_Thread`: as long as no queue is deleted, every
socket that `accept` returned is an entry of a queue or was adopted by a handler,
and the handlers account for those they adopted. `Close` deletes handlers that
have stopped, one after the other.
-/

namespace SelectNet.SelectServerThread

variable {ω : Type}

/-- The sockets waiting in a queue. -/
def entries (queue : Option (SafeQueue QMClientState)) : List Socket :=
  queue.elim [] fun queue => queue.queue.nodes.map QMClientState.clientSock

/-- What is still in the queues. -/
def waiting (s : SelectServerThread) : List Socket := s.queues.flatMap entries

/-- What the handlers have adopted. -/
def adopted (s : SelectServerThread) : List Socket :=
  s.clientHandleArr.flatMap SelectClientHandle.adopted

/-- No queue has been deleted. -/
def AllLive (s : SelectServerThread) : Prop := ∀ id < s.queues.length, s.queue id ≠ none

/-- A queue of `Join` entries with sockets. -/
structure Joins (queue : SafeQueue QMClientState) : Prop where
  joins : ∀ entry ∈ queue.queue.nodes, entry.type = EClientState.join.code
  counted : queue.queue.Counted
  valid : ∀ entry ∈ queue.queue.nodes, entry.clientSock ≠ invalidSocket

/-- A handler that accounts for what it adopted. -/
structure Accounts (h : SelectClientHandle) : Prop where
  serving : h.Serving h.clientSockArr
  valid : ∀ sock ∈ h.adopted, sock ≠ invalidSocket
  honest : h.Honest

structure Inv (s : SelectServerThread) : Prop where
  array : s.clientStateQueueArr = List.range s.queues.length
  queues : ∀ id queue, s.queue id = some queue → Joins queue
  handles : ∀ h ∈ s.clientHandleArr, Accounts h
  account : s.AllLive → s.released = [] ∧ s.clientHandleArr.length = s.queues.length ∧
    ∀ sock, s.accepted.count sock = s.waiting.count sock + s.adopted.count sock
  deleted : ∀ until_, s.point = .closing until_ → ∀ position h,
    s.clientHandleArr[position]? = some h → position < until_ →
    h.point = .stopped ∧ h.clientSockArr = []

variable {s next : SelectServerThread} {position : Nat} {h h' : SelectClientHandle}

theorem queue_lt {id : Nat} {queue : SafeQueue QMClientState} (hqueue : s.queue id = some queue) :
    id < s.queues.length := by
  by_contra hge
  rw [SelectServerThread.queue, List.getElem?_eq_none (Nat.le_of_not_lt hge)] at hqueue
  cases hqueue

/-- A queue written to the store. -/
theorem queue_set {id : Nat} (hlt : id < s.queues.length)
    (entry : Option (SafeQueue QMClientState)) (other : Nat) :
    queue { s with queues := s.queues.set id entry } other =
      if id = other then entry else s.queue other := by
  simp only [SelectServerThread.queue, List.getElem?_set, hlt, if_true]
  split <;> rfl

theorem getElem?_of_queue {id : Nat} {queue : SafeQueue QMClientState}
    (hqueue : s.queue id = some queue) : s.queues[id]? = some (some queue) := by
  rw [SelectServerThread.queue, Option.join_eq_some_iff] at hqueue
  exact hqueue

/-- A queue replaced by a queue, in the store of the queues. -/
theorem AllLive.of_set {id : Nat} {queue queue' : SafeQueue QMClientState}
    (hqueue : s.queue id = some queue) (hlen : next.queues.length = s.queues.length)
    (hset : ∀ other, next.queue other = if id = other then some queue' else s.queue other)
    (hlive : next.AllLive) : s.AllLive := by
  intro other hlt
  have hother := hlive other (hlen.symm ▸ hlt)
  rw [hset other] at hother
  split at hother
  next hsame =>
    subst hsame
    rw [hqueue]
    exact Option.some_ne_none _
  next => exact hother

/-! ## Steps of the main thread -/

theorem Inv.initHandle (hinv : s.Inv) (hidle : s.point = .idle) (i : Nat) :
    (SelectServerThread.initHandle s i).Inv := by
  have hqueue : ∀ id, (SelectServerThread.initHandle s i).queue id =
      if id = s.queues.length then some .new else s.queue id := by
    intro id
    change ((s.queues ++ [some SafeQueue.new])[id]?).join = _
    split
    next hsame =>
      rw [hsame, List.getElem?_append_right (Nat.le_refl _)]
      simp
    next hne =>
      by_cases hlt : id < s.queues.length
      · rw [List.getElem?_append_left hlt]
        rfl
      · have hge : (s.queues ++ [some SafeQueue.new]).length ≤ id := by
          rw [List.length_append, List.length_singleton]
          omega
        rw [List.getElem?_eq_none hge, SelectServerThread.queue,
          List.getElem?_eq_none (Nat.le_of_not_lt hlt)]
  refine ⟨?_, ?_, ?_, ?_, ?_⟩
  · simp [SelectServerThread.initHandle, hinv.array, List.range_succ]
  · intro id queue hat
    rw [hqueue id] at hat
    split at hat
    · cases hat
      exact ⟨by simp [SafeQueue.new], MyQueue.new_counted, by simp [SafeQueue.new]⟩
    · exact hinv.queues id queue hat
  · intro h hmem
    rcases List.mem_append.mp hmem with hold | hnew
    · exact hinv.handles h hold
    · rw [List.mem_singleton.mp hnew]
      refine ⟨⟨List.Sublist.refl _, List.Perm.refl _, ?_⟩, ?_, ?_⟩
      · simp [SelectClientHandle.new]
      · simp [SelectClientHandle.new]
      · simp [SelectClientHandle.Honest, SelectClientHandle.new]
  · -- the new queue is empty and the new thread has nothing, so no count changes
    intro hlive
    have hbefore : s.AllLive := by
      intro id hlt
      have hid := hlive id (by simp [SelectServerThread.initHandle]; omega)
      rwa [hqueue id, if_neg (Nat.ne_of_lt hlt)] at hid
    obtain ⟨hreleased, hlen, hcount⟩ := hinv.account hbefore
    refine ⟨hreleased, by simp [SelectServerThread.initHandle, hlen], ?_⟩
    intro sock
    have hsame := hcount sock
    simpa [SelectServerThread.initHandle, accepted, waiting, adopted, entries, SafeQueue.new,
      SelectClientHandle.new] using hsame
  · intro until_ hclosing
    cases hidle.symm.trans hclosing

theorem Inv.initServer (hinv : s.Inv) (hidle : s.point = .idle) (threadNum : Int) :
    (initServer threadNum s).2.Inv := by
  have hstart : Inv { s with clientHandleThread := threadNum } :=
    ⟨hinv.array, hinv.queues, hinv.handles, hinv.account, hinv.deleted⟩
  have hall : ∀ count, Inv ((List.range count).foldl SelectServerThread.initHandle
        { s with clientHandleThread := threadNum }) ∧
      ((List.range count).foldl SelectServerThread.initHandle
        { s with clientHandleThread := threadNum }).point = .idle := by
    intro count
    induction count with
    | zero => exact ⟨hstart, hidle⟩
    | succ count ih =>
        rw [List.range_succ, List.foldl_append]
        exact ⟨ih.1.initHandle ih.2 count, ih.2⟩
  unfold SelectServerThread.initServer
  split
  · exact hstart
  · exact (hall threadNum.toNat).1

/-- The account does not depend on the listening socket. -/
theorem Inv.listening (hinv : s.Inv) (serverSock : Socket) : Inv { s with serverSock } :=
  ⟨hinv.array, hinv.queues, hinv.handles, hinv.account, hinv.deleted⟩

theorem Inv.closeStart (hinv : s.Inv) : (closeStart s).Inv := by
  unfold SelectServerThread.closeStart
  split
  · refine ⟨hinv.array, hinv.queues, hinv.handles, hinv.account, ?_⟩
    intro until_ hclosing position h _ hlt
    cases hclosing
    exact absurd hlt (Nat.not_lt_zero _)
  · exact hinv

/-- All that an accepted client changes. -/
theorem pushClient_cases (harray : s.clientStateQueueArr = List.range s.queues.length)
    {clientSock : Socket} {counts : Counts} (hpush : pushClient clientSock counts s = some next) :
    ∃ id queue, id = scanHandles counts s.clientHandleArr 0 0 counts.front ∧
      s.queue id = some queue ∧ next = { s with
        queues := s.queues.set id (some (queue.push ⟨EClientState.join.code, clientSock⟩))
        pushed := s.pushed ++ [(id, clientSock)] } := by
  unfold SelectServerThread.pushClient at hpush
  split at hpush
  next => cases hpush
  next =>
    simp only at hpush
    split at hpush
    next => cases hpush
    next id hid =>
      obtain ⟨queue, hqueue, rfl⟩ := Option.map_eq_some_iff.mp hpush
      rw [harray] at hid
      obtain ⟨hlt, hid⟩ := List.getElem?_eq_some_iff.mp hid
      rw [List.getElem_range] at hid
      exact ⟨id, queue, hid.symm, hqueue, rfl⟩

theorem Joins.push {queue : SafeQueue QMClientState} (hjoins : Joins queue) {clientSock : Socket}
    (hsock : clientSock ≠ invalidSocket) :
    Joins (queue.push ⟨EClientState.join.code, clientSock⟩) := by
  refine ⟨?_, hjoins.counted.push _, ?_⟩
  · intro entry hentry
    rcases List.mem_append.mp hentry with hold | hnew
    · exact hjoins.joins entry hold
    · rw [List.mem_singleton.mp hnew]
  · intro entry hentry
    rcases List.mem_append.mp hentry with hold | hnew
    · exact hjoins.valid entry hold
    · rwa [List.mem_singleton.mp hnew]

theorem Inv.pushClient (hinv : s.Inv) {clientSock : Socket} (hsock : clientSock ≠ invalidSocket)
    {counts : Counts} (hpush : pushClient clientSock counts s = some next) : next.Inv := by
  obtain ⟨id, queue, _, hqueue, rfl⟩ := pushClient_cases hinv.array hpush
  have hset := queue_set (queue_lt hqueue)
    (some (queue.push ⟨EClientState.join.code, clientSock⟩))
  refine ⟨?_, ?_, hinv.handles, ?_, hinv.deleted⟩
  · simpa using hinv.array
  · intro other queue' hat
    have hat' := (hset other).symm.trans hat
    split at hat'
    · cases hat'
      exact (hinv.queues id queue hqueue).push hsock
    · exact hinv.queues other queue' hat'
  · intro hlive
    have hbefore : s.AllLive := AllLive.of_set hqueue (by simp) hset hlive
    obtain ⟨hreleased, hlen, hcount⟩ := hinv.account hbefore
    refine ⟨hreleased, by simpa using hlen, fun sock => ?_⟩
    have hgrown := Dispatch.count_flatMap_set entries (getElem?_of_queue hqueue)
      (some (queue.push ⟨EClientState.join.code, clientSock⟩)) sock
    -- the socket is accepted and waits, so both sides grow by the same one
    have hentry : (entries (some (queue.push ⟨EClientState.join.code, clientSock⟩))).count sock =
        (entries (some queue)).count sock + [clientSock].count sock := by
      simp only [entries, Option.elim_some, SafeQueue.push, MyQueue.push_nodes, List.map_append,
        List.map_cons, List.map_nil, List.count_append]
    have hsame := hcount sock
    simp only [accepted, waiting, adopted, List.map_append, List.map_cons, List.map_nil,
      List.count_append] at hsame ⊢
    omega

/-! ## Steps of one handler -/

/-- A handler and a queue replaced by what a step makes of them. -/
theorem Inv.replace (hinv : s.Inv) (hat : s.clientHandleArr[position]? = some h)
    (haccounts : Accounts h') {id : Nat} {queue queue' : SafeQueue QMClientState}
    (hqueue : s.queue id = some queue) (hjoins : Joins queue')
    (hsame : h.adopted ++ entries (some queue) = h'.adopted ++ entries (some queue'))
    (hdeleted : ∀ until_, s.point = .closing until_ → position < until_ →
      h'.point = .stopped ∧ h'.clientSockArr = []) :
    Inv { s with
      clientHandleArr := s.clientHandleArr.set position h'
      queues := s.queues.set id (some queue') } := by
  have hset := queue_set (queue_lt hqueue) (some queue')
  refine ⟨?_, ?_, ?_, ?_, ?_⟩
  · simpa using hinv.array
  · intro other queue'' hother
    have hother' := (hset other).symm.trans hother
    split at hother'
    · cases hother'
      exact hjoins
    · exact hinv.queues other queue'' hother'
  · intro other hother
    rcases List.mem_or_eq_of_mem_set hother with hold | rfl
    · exact hinv.handles other hold
    · exact haccounts
  · intro hlive
    have hbefore : s.AllLive := AllLive.of_set hqueue (by simp) hset hlive
    obtain ⟨hreleased, hlen, hcount⟩ := hinv.account hbefore
    refine ⟨hreleased, by simpa using hlen, fun sock => ?_⟩
    have hqueues := Dispatch.count_flatMap_set entries (getElem?_of_queue hqueue)
      (some queue') sock
    have hhandles := Dispatch.count_flatMap_set SelectClientHandle.adopted hat h' sock
    -- what the thread takes out of its queue it has adopted
    have hmoved := congrArg (List.count sock) hsame
    have hbalance := hcount sock
    simp only [accepted, waiting, adopted, List.count_append] at hbalance hmoved ⊢
    omega
  · intro until_ hclosing other h'' hother hbefore
    rw [List.getElem?_set] at hother
    split at hother
    next hsame =>
      subst other
      rw [if_pos (List.getElem?_eq_some_iff.mp hat).1, Option.some.injEq] at hother
      exact hother ▸ hdeleted until_ hclosing hbefore
    next => exact hinv.deleted until_ hclosing other h'' hother hbefore

/-- All that a step of a handler's thread changes. -/
theorem handleStep_cases {handle : MsgHandle ω} {fuel : Nat} {label : HandleLabel ω}
    (hstep : s.handleStep handle fuel position label = some next) :
    ∃ h queue h' queue', s.clientHandleArr[position]? = some h ∧
      s.queue h.clientStateQueue = some queue ∧
      h.step handle fuel label queue = some (h', queue') ∧ next = { s with
        clientHandleArr := s.clientHandleArr.set position h'
        queues := s.queues.set h.clientStateQueue (some queue') } := by
  unfold SelectServerThread.handleStep at hstep
  split at hstep
  next => cases hstep
  next h hat =>
    split at hstep
    next => cases hstep
    next queue hqueue =>
      obtain ⟨⟨h', queue'⟩, hmove, rfl⟩ := Option.map_eq_some_iff.mp hstep
      exact ⟨h, queue, h', queue', hat, hqueue, hmove, rfl⟩

/-- A handler over its queue holds what it adopted and what waits there. -/
theorem Accounts.holds (haccounts : Accounts h) {queue : SafeQueue QMClientState}
    (hjoins : Joins queue) : h.Holds queue (h.adopted ++ entries (some queue)) := by
  refine ⟨hjoins.joins, hjoins.counted, rfl, haccounts.serving, ?_⟩
  intro sock hsock
  rcases List.mem_append.mp hsock with hold | hnew
  · exact haccounts.valid sock hold
  · obtain ⟨entry, hentry, rfl⟩ := List.mem_map.mp hnew
    exact hjoins.valid entry hentry

theorem Inv.handleStep {handle : MsgHandle ω} {fuel : Nat} {label : HandleLabel ω}
    (hinv : s.Inv) (hstep : s.handleStep handle fuel position label = some next) :
    next.Inv := by
  obtain ⟨h, queue, h', queue', hat, hqueue, hmove, rfl⟩ := handleStep_cases hstep
  have haccounts := hinv.handles h (List.mem_of_getElem? hat)
  obtain ⟨hholds, hsteps⟩ := (haccounts.holds (hinv.queues _ queue hqueue)).step hmove
  have hvalid : ∀ sock ∈ h'.adopted ++ entries (some queue'), sock ≠ invalidSocket := by
    intro sock hsock
    apply hholds.valid
    rw [hholds.order]
    exact hsock
  refine hinv.replace hat ⟨hholds.serving, ?_, hsteps.honest haccounts.honest⟩ hqueue
    ⟨hholds.joins, hholds.counted, ?_⟩ hholds.order ?_
  · intro sock hsock
    exact hvalid sock (List.mem_append_left _ hsock)
  · intro entry hentry
    exact hvalid _ (List.mem_append_right _ (List.mem_map_of_mem hentry))
  · intro until_ hclosing hbefore
    -- a deleted handler's thread has stopped and takes no step
    exact absurd (hinv.deleted until_ hclosing position h hat hbefore).1 hsteps.running

/-! ## The stages of `Close` -/

/-- A handler replaced, with the queues as they are. -/
theorem Inv.replaceHandle (hinv : s.Inv) (hat : s.clientHandleArr[position]? = some h)
    (haccounts : Accounts h') (hadopted : h'.adopted = h.adopted) (point : MainPoint)
    (hdeleted : ∀ until_, point = .closing until_ → ∀ other h'',
      (s.clientHandleArr.set position h')[other]? = some h'' → other < until_ →
      h''.point = .stopped ∧ h''.clientSockArr = []) :
    Inv { s with clientHandleArr := s.clientHandleArr.set position h', point } := by
  refine ⟨hinv.array, hinv.queues, ?_, ?_, hdeleted⟩
  · intro other hother
    rcases List.mem_or_eq_of_mem_set hother with hold | rfl
    · exact hinv.handles other hold
    · exact haccounts
  · intro hlive
    obtain ⟨hreleased, hlen, hcount⟩ := hinv.account hlive
    refine ⟨hreleased, by simpa using hlen, fun sock => ?_⟩
    have hhandles := Dispatch.count_flatMap_set SelectClientHandle.adopted hat h' sock
    have hbalance := hcount sock
    rw [hadopted] at hhandles
    simp only [accepted, waiting, adopted] at hbalance ⊢
    omega

theorem Inv.stopHandle (hinv : s.Inv) {position : Nat} (hpoint : s.point = .closing position)
    {h : SelectClientHandle} (hat : s.clientHandleArr[position]? = some h) :
    Inv { s with
      clientHandleArr := s.clientHandleArr.set position { h with isRunging := false } } := by
  obtain ⟨hserving, hvalid, hhonest⟩ := hinv.handles h (List.mem_of_getElem? hat)
  have hstill : Accounts { h with isRunging := false } :=
    ⟨⟨hserving.listed, hserving.placed, hserving.clients⟩, hvalid, hhonest⟩
  refine hinv.replaceHandle hat hstill rfl s.point ?_
  intro until_ hclosing other h'' hother hbefore
  cases hpoint.symm.trans hclosing
  rw [List.getElem?_set_ne (Nat.ne_of_gt hbefore)] at hother
  exact hinv.deleted position hclosing other h'' hother hbefore

theorem Inv.deleteHandle (hinv : s.Inv) {position : Nat} (hpoint : s.point = .closing position)
    {h : SelectClientHandle} (hat : s.clientHandleArr[position]? = some h)
    (hstop : h.isHandleStop = true) :
    Inv { s with
      clientHandleArr := s.clientHandleArr.set position h.close
      point := .closing (position + 1) } := by
  obtain ⟨hserving, hvalid, hhonest⟩ := hinv.handles h (List.mem_of_getElem? hat)
  obtain ⟨hnone, hkeeps, hadopted⟩ := SelectClientHandle.close_spec hserving
  have hstopped : h.close.point = .stopped := by
    rw [SelectClientHandle.close_point]
    exact hhonest hstop
  have hclosed : Accounts h.close := ⟨hnone, hadopted.symm ▸ hvalid, fun _ => hstopped⟩
  refine hinv.replaceHandle hat hclosed hadopted _ ?_
  intro until_ hclosing other h'' hother hbefore
  cases hclosing
  rw [List.getElem?_set] at hother
  split at hother
  next hsame =>
    subst other
    rw [if_pos (List.getElem?_eq_some_iff.mp hat).1, Option.some.injEq] at hother
    subst h''
    exact ⟨hstopped, rfl⟩
  next hne =>
    -- the threads before this one were deleted earlier
    exact hinv.deleted position hpoint other h'' hother (by omega)

/-- The loop over the queue array fails at a queue that is already deleted. -/
theorem deleteQueue_foldlM {ids : List Nat}
    {queues queues' : List (Option (SafeQueue QMClientState))}
    (hdelete : ids.foldlM deleteQueue queues = some queues') :
    queues'.length = queues.length ∧
      (∀ id, (queues'[id]?).join = if id ∈ ids then none else (queues[id]?).join) ∧
      ∀ id ∈ ids, (queues[id]?).join ≠ none := by
  induction ids generalizing queues with
  | nil =>
      cases hdelete
      simp
  | cons first ids ih =>
      rw [List.foldlM_cons, Option.bind_eq_bind, Option.bind_eq_some_iff] at hdelete
      obtain ⟨middle, hfirst, hrest⟩ := hdelete
      obtain ⟨hlen, hall, hlive⟩ := ih hrest
      -- a queue is deleted once, so each id of the row was still live
      unfold deleteQueue at hfirst
      split at hfirst
      next queue hqueue =>
        cases hfirst
        refine ⟨by simpa using hlen, fun id => ?_, fun id hmem => ?_⟩
        · rw [hall id, List.getElem?_set]
          by_cases hmem : id ∈ ids
          · simp [hmem]
          · by_cases hid : first = id
            · subst first
              simp [(List.getElem?_eq_some_iff.mp hqueue).1]
            · simp [hmem, hid, Ne.symm hid]
        · by_cases hid : id = first
          · subst id
            simp [hqueue]
          · have hrest := hlive id (List.mem_of_ne_of_mem hid hmem)
            rwa [List.getElem?_set_ne (Ne.symm hid)] at hrest
      next => cases hfirst

/-- When `Close` comes to the queues, none of them was deleted before, and no
handler has clients any more. -/
theorem deleteQueues_cases (hinv : s.Inv) (hstep : s.deleteQueues = some next) :
    ∃ queues : List (Option (SafeQueue QMClientState)), next = { s with
        queues
        clientHandleArr := []
        point := .idle
        released := s.released ++ s.clientHandleArr.flatMap SelectClientHandle.closesocket } ∧
      s.AllLive ∧ (∀ h ∈ s.clientHandleArr, h.clientSockArr = []) ∧
      queues.length = s.queues.length ∧ ∀ id : Nat, (queues[id]?).join = none := by
  unfold SelectServerThread.deleteQueues at hstep
  split at hstep
  next => cases hstep
  next until_ hpoint =>
    split at hstep
    next => cases hstep
    next hall =>
      obtain ⟨queues, hdelete, rfl⟩ := Option.map_eq_some_iff.mp hstep
      obtain ⟨hlen, hnone, hlive⟩ := deleteQueue_foldlM hdelete
      rw [hinv.array] at hnone hlive
      refine ⟨queues, rfl, ?_, ?_, hlen, ?_⟩
      · intro id hlt
        exact hlive id (List.mem_range.mpr hlt)
      · intro h hmem
        obtain ⟨position, hlt, hat⟩ := List.getElem_of_mem hmem
        have hbefore : position < until_ := by omega
        exact (hinv.deleted until_ hpoint position h
          (List.getElem?_eq_some_iff.mpr ⟨hlt, hat⟩) hbefore).2
      · intro id
        rw [hnone id]
        split
        next => rfl
        next hmem =>
          rw [List.mem_range, Nat.not_lt] at hmem
          rw [List.getElem?_eq_none hmem]
          rfl

theorem Inv.deleteQueues (hinv : s.Inv) (hstep : s.deleteQueues = some next) : next.Inv := by
  obtain ⟨queues, rfl, hlive, _, hsame, hnone⟩ := deleteQueues_cases hinv hstep
  obtain ⟨hreleased, hlen, hcount⟩ := hinv.account hlive
  refine ⟨?_, ?_, ?_, ?_, ?_⟩
  · rw [hsame]
    exact hinv.array
  · intro id queue hqueue
    cases (hnone id).symm.trans hqueue
  · simp
  · intro hlive'
    -- all queues are gone, so there was none
    have hzero : queues.length = 0 := by
      by_contra hpos
      exact hlive' 0 (Nat.pos_of_ne_zero hpos) (hnone 0)
    rw [hzero] at hsame
    have hnohandle : s.clientHandleArr = [] := by
      rw [← hsame, List.length_eq_zero_iff] at hlen
      exact hlen
    have hnoqueue : s.queues = [] := List.length_eq_zero_iff.mp hsame.symm
    have hnil : queues = [] := List.length_eq_zero_iff.mp hzero
    refine ⟨by simp [hreleased, hnohandle], hzero.symm, fun sock => ?_⟩
    have hbalance := hcount sock
    simpa [accepted, waiting, adopted, hnohandle, hnoqueue, hnil] using hbalance
  · intro until_ hclosing
    cases hclosing

/-! ## Whole runs -/

theorem new_inv : new.Inv where
  array := rfl
  queues := by simp [new, SelectServerThread.queue]
  handles := by simp [new]
  account := by simp [new, accepted, waiting, adopted]
  deleted := by simp [new]

/-- Every step keeps the account. -/
theorem Inv.step {handle : MsgHandle ω} {fuel : Nat} {label : ServerLabel ω} (hinv : s.Inv)
    (hstep : step handle fuel label s = some next) : next.Inv := by
  cases step_cases hstep with
  | initServer threadNum hidle => exact hinv.initServer hidle threadNum
  | bind answer =>
      cases answer with
      | noSocket => exact hinv.listening invalidSocket
      | refused sock => exact (hinv.listening sock).closeStart
      | bound sock => exact hinv.listening sock
  | listen success =>
      cases success with
      | true => exact hinv
      | false => exact hinv.closeStart
  | wait => exact hinv
  | selectFailed => exact hinv.closeStart
  | pushClient _ _ hsock hpush => exact hinv.pushClient hsock hpush
  | close => exact hinv.closeStart
  | stopHandle hpoint hat => exact hinv.stopHandle hpoint hat
  | deleteHandle hpoint hat hstop => exact hinv.deleteHandle hpoint hat hstop
  | deleteQueues hdelete => exact hinv.deleteQueues hdelete
  | handle hmove => exact hinv.handleStep hmove

theorem inv_of_reachable {handle : MsgHandle ω} (hreach : (machine handle).Reachable s) :
    s.Inv := by
  have hinitial : ∀ s, (machine handle).initial s → s.Inv := by
    rintro s rfl
    exact new_inv
  have hstep : ∀ s label next, s.Inv → (machine handle).step s label next → next.Inv := by
    rintro s label next hinv ⟨fuel, hmove⟩
    exact hinv.step hmove
  exact hreach.invariant hinitial hstep

end SelectNet.SelectServerThread
