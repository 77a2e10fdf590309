import SelectNet.Server.Adoption

/-!
# The descriptors a server has open

A descriptor is live from its push until its client is deleted: it waits in a
queue or belongs to one client. Only a push makes one live. A client that is
there after a step was there before, is new, or has had a turn that it survived.
-/

namespace SelectNet

namespace SelectClientHandle

variable {ω : Type} {handle : MsgHandle ω} {fuel : Nat} {h next : SelectClientHandle}

/-- What a sweep does for the client at a position that survives it. -/
def Survives (handle : MsgHandle ω) (fuel : Nat) (fdRead : FdSet) (turn : ClientTurn ω)
    (before after : Client) : Prop :=
  ∃ test s, ClientSocket.turn handle fuel (decide (before.sock ∈ fdRead)) turn.recv turn.send
    (before.enter turn.world test) = some (false, s) ∧ after = Client.leave s

/-- A client left by a sweep has had its turn and has survived it. -/
theorem sweep_mem {fdRead : FdSet} {turns : Nat → ClientTurn ω} {rest done : List Client}
    {count : Nat} (hsweep : sweep handle fuel fdRead turns rest count done h = some next)
    {client : Client} (hmem : client ∈ next.clientSockArr) :
    client ∈ done ∨ ∃ position before, rest[position]? = some before ∧
      Survives handle fuel fdRead (turns (count + position)) before client := by
  induction rest generalizing count done h with
  | nil =>
      simp only [sweep, Option.some.injEq] at hsweep
      subst next
      exact Or.inl hmem
  | cons first rest ih =>
      -- what the sweep of the rest says, one position further on
      have hbehind : (∃ position before, rest[position]? = some before ∧
          Survives handle fuel fdRead (turns (count + 1 + position)) before client) →
          ∃ position before, (first :: rest)[position]? = some before ∧
            Survives handle fuel fdRead (turns (count + position)) before client := by
        rintro ⟨position, before, hat, hsurvives⟩
        refine ⟨position + 1, before, hat, ?_⟩
        rwa [show count + (position + 1) = count + 1 + position by omega]
      simp only [sweep] at hsweep
      split at hsweep
      next => cases hsweep
      next failed s hturn =>
        cases failed with
        | true =>
            simp only [if_true] at hsweep
            exact (ih hsweep).imp_right hbehind
        | false =>
            simp only [Bool.false_eq_true, if_false] at hsweep
            rcases ih hsweep with hdone | hrest
            · rcases List.mem_append.mp hdone with hold | hnew
              · exact Or.inl hold
              · exact Or.inr ⟨0, first, rfl, h.test, s, hturn, List.mem_singleton.mp hnew⟩
            · exact Or.inr (hbehind hrest)

/-- A sweep leaves some of the descriptors, in their order. -/
theorem sweep_socks {fdRead : FdSet} {turns : Nat → ClientTurn ω} {rest done : List Client}
    {count : Nat} (hopen : ∀ client ∈ rest, client.Open)
    (hsweep : sweep handle fuel fdRead turns rest count done h = some next) :
    next.socks.Sublist ((done ++ rest).map Endpoint.sock) := by
  induction rest generalizing count done h with
  | nil =>
      simp only [sweep, Option.some.injEq] at hsweep
      subst next
      rw [List.append_nil]
      exact List.Sublist.refl _
  | cons client rest ih =>
      rw [List.forall_mem_cons] at hopen
      simp only [sweep] at hsweep
      split at hsweep
      next => cases hsweep
      next failed s hturn =>
        have hentered := Client.enter_inv hopen.1.inv (turns count).world h.test
        obtain ⟨_, hsettles⟩ := ClientSocket.turn_spec hentered hopen.1.sock hturn
        cases hsettles with
        | kept hsock _ =>
            have hsame : (Client.leave s).sock = client.sock := hsock
            simp only [Bool.false_eq_true, if_false] at hsweep
            have hrest := ih hopen.2 hsweep
            simpa [hsame] using hrest
        | closed =>
            simp only [if_true] at hsweep
            refine (ih hopen.2 hsweep).trans ?_
            simp only [List.map_append, List.map_cons]
            exact (List.sublist_cons_self _ _).append_left _

/-- The set that `select` is given, of which it leaves the readable ones. -/
def fdRead (h : SelectClientHandle) (readable : Socket → Bool) : FdSet :=
  h.rebuild.fdReadBackup.filter fun sock => readable sock

theorem rebuild_clientSockArr (h : SelectClientHandle) :
    h.rebuild.clientSockArr = h.clientSockArr := by
  obtain ⟨_, _, _, hrebuild⟩ := h.rebuild_cases
  rw [hrebuild]

/-- A pass over the clients leaves some of the descriptors. -/
theorem poll_socks {answer : PollAnswer ω} (hopen : ∀ client ∈ h.clientSockArr, client.Open)
    (hpoll : h.poll handle fuel answer = some next) : next.socks.Sublist h.socks := by
  simp only [poll] at hpoll
  split at hpoll
  next =>
    cases hpoll
    exact List.Sublist.refl _
  next =>
    cases answer with
    | failed =>
        cases hpoll
        exact List.nil_sublist _
    | ready readable turns =>
        have hsocks := sweep_socks (h.rebuild_clientSockArr ▸ hopen) hpoll
        rwa [List.nil_append, rebuild_clientSockArr] at hsocks

/-- A client left by a pass has survived its turn, unless there was no turn. -/
theorem poll_mem {answer : PollAnswer ω} (hpoll : h.poll handle fuel answer = some next)
    {client : Client} (hmem : client ∈ next.clientSockArr) :
    ∃ readable turns position before, answer = .ready readable turns ∧
      h.clientSockArr[position]? = some before ∧
      Survives handle fuel (h.fdRead readable) (turns position) before client := by
  simp only [poll] at hpoll
  split at hpoll
  next hempty =>
    cases hpoll
    rw [List.isEmpty_iff] at hempty
    rw [hempty] at hmem
    cases hmem
  next =>
    cases answer with
    | failed =>
        cases hpoll
        cases hmem
    | ready readable turns =>
        rcases sweep_mem hpoll hmem with hnone | ⟨position, before, hat, hsurvives⟩
        · cases hnone
        · rw [rebuild_clientSockArr] at hat
          rw [Nat.zero_add] at hsurvives
          exact ⟨readable, turns, position, before, rfl, hat, hsurvives⟩

/-- Adopting sockets makes a new client for each. -/
theorem joinAll_clients (h : SelectClientHandle) (fresh : Nat → Fresh) (socks : List Socket) :
    (h.joinAll fresh socks).socks = h.socks ++ socks ∧
      ∀ client ∈ (h.joinAll fresh socks).clientSockArr, client ∈ h.clientSockArr ∨
        client.sock ∈ socks ∧ ∃ own test, client = Client.new client.sock own test := by
  induction socks generalizing h with
  | nil => exact ⟨(List.append_nil _).symm, fun client hclient => Or.inl hclient⟩
  | cons sock socks ih =>
      obtain ⟨hsocks, hclients⟩ := ih (h.onJoin fresh sock)
      refine ⟨hsocks.trans ?_, fun client hclient => ?_⟩
      · simp [onJoin, SelectClientHandle.socks, Client.new, ClientSocket.new]
      · rcases hclients client hclient with hold | ⟨hlater, hnew⟩
        · simp only [onJoin, List.mem_append, List.mem_singleton] at hold
          rcases hold with hold | rfl
          · exact Or.inl hold
          · exact Or.inr ⟨List.mem_cons_self, _, _, rfl⟩
        · exact Or.inr ⟨List.mem_cons_of_mem _ hlater, hnew⟩

end SelectClientHandle

/-- The descriptor that a step of the server accepts. -/
def ServerLabel.accepts {ω : Type} : ServerLabel ω → List Socket
  | .onRun (.client clientSock _) => [clientSock]
  | _ => []

namespace SelectServerThread

variable {ω : Type} {handle : MsgHandle ω} {fuel : Nat} {s next : SelectServerThread}
  {label : ServerLabel ω}

/-- The descriptors that wait in a queue or belong to a client. -/
def live (s : SelectServerThread) : List Socket := s.waiting ++ s.served

/-- A client in the list of a handler. -/
def Joined (s : SelectServerThread) (client : Client) : Prop :=
  ∃ (position : Nat) (h : SelectClientHandle), s.clientHandleArr[position]? = some h ∧
    client ∈ h.clientSockArr

/-- What a step may do to the descriptors, by count. -/
structure Moves (s next : SelectServerThread) (accepts : List Socket) : Prop where
  waiting : ∀ sock, next.waiting.count sock ≤ s.waiting.count sock + accepts.count sock
  live : ∀ sock, next.live.count sock ≤ s.live.count sock + accepts.count sock

theorem Moves.of_eq (hwaiting : next.waiting = s.waiting) (hserved : next.served = s.served)
    (accepts : List Socket) : Moves s next accepts := by
  refine ⟨fun sock => ?_, fun sock => ?_⟩
  · rw [hwaiting]
    exact Nat.le_add_right _ _
  · rw [SelectServerThread.live, hwaiting, hserved]
    exact Nat.le_add_right _ _

/-- A handler with what is left of its clients. -/
theorem Moves.replaceHandle {position : Nat} {h h' : SelectClientHandle} {point : MainPoint}
    (hat : s.clientHandleArr[position]? = some h) (hsocks : h'.socks.Sublist h.socks)
    (accepts : List Socket) :
    Moves s { s with clientHandleArr := s.clientHandleArr.set position h', point } accepts := by
  refine ⟨fun sock => Nat.le_add_right _ _, fun sock => ?_⟩
  have hset := Dispatch.count_flatMap_set SelectClientHandle.socks hat h' sock
  have hless := hsocks.count_le sock
  have hserved : ((s.clientHandleArr.set position h').flatMap SelectClientHandle.socks).count sock ≤
      (s.clientHandleArr.flatMap SelectClientHandle.socks).count sock := by omega
  simp only [SelectServerThread.live, List.count_append]
  exact Nat.le_trans (Nat.add_le_add_left hserved _) (Nat.le_add_right _ _)

/-- `InitServer` makes empty queues and handlers without clients. -/
theorem initServer_same (threadNum : Int) (s : SelectServerThread) :
    (initServer threadNum s).2.waiting = s.waiting ∧
      (initServer threadNum s).2.served = s.served ∧
      ∀ client, (initServer threadNum s).2.Joined client → s.Joined client := by
  have hone : ∀ (s : SelectServerThread) (i : Nat), (initHandle s i).waiting = s.waiting ∧
      (initHandle s i).served = s.served ∧
      ∀ client, (initHandle s i).Joined client → s.Joined client := by
    intro s i
    refine ⟨by simp [initHandle, waiting, entries, SafeQueue.new],
      by simp [initHandle, served, SelectClientHandle.new], ?_⟩
    rintro client ⟨position, h, hat, hmem⟩
    rw [initHandle, List.getElem?_append] at hat
    split at hat
    · exact ⟨position, h, hat, hmem⟩
    · obtain ⟨_, hat⟩ := List.getElem?_eq_some_iff.mp hat
      rw [List.getElem_singleton] at hat
      subst hat
      cases hmem
  have hall : ∀ (ids : List Nat) (s : SelectServerThread),
      (ids.foldl initHandle s).waiting = s.waiting ∧ (ids.foldl initHandle s).served = s.served ∧
      ∀ client, (ids.foldl initHandle s).Joined client → s.Joined client := by
    intro ids
    induction ids with
    | nil => exact fun s => ⟨rfl, rfl, fun client hjoined => hjoined⟩
    | cons i ids ih =>
        intro s
        obtain ⟨hwaiting, hserved, hjoined⟩ := ih (initHandle s i)
        obtain ⟨hwaiting', hserved', hjoined'⟩ := hone s i
        exact ⟨hwaiting.trans hwaiting', hserved.trans hserved',
          fun client hlast => hjoined' client (hjoined client hlast)⟩
  obtain ⟨hwaiting, hserved, hjoined⟩ :=
    hall (List.range threadNum.toNat) { s with clientHandleThread := threadNum }
  unfold initServer
  split
  · refine ⟨rfl, rfl, ?_⟩
    rintro client ⟨position, h, hat, hmem⟩
    exact ⟨position, h, hat, hmem⟩
  · refine ⟨hwaiting, hserved, fun client hlast => ?_⟩
    obtain ⟨position, h, hat, hmem⟩ := hjoined client hlast
    exact ⟨position, h, hat, hmem⟩

theorem closeStart_same (s : SelectServerThread) : (closeStart s).queues = s.queues ∧
    (closeStart s).clientHandleArr = s.clientHandleArr := by
  unfold closeStart
  split
  · exact ⟨rfl, rfl⟩
  · exact ⟨rfl, rfl⟩

theorem bind_same (answer : BindAnswer) (s : SelectServerThread) :
    (bind answer s).queues = s.queues ∧ (bind answer s).clientHandleArr = s.clientHandleArr := by
  cases answer with
  | noSocket => exact ⟨rfl, rfl⟩
  | refused sock => exact closeStart_same { s with serverSock := sock }
  | bound sock => exact ⟨rfl, rfl⟩

theorem listen_same (success : Bool) (s : SelectServerThread) :
    (listen success s).queues = s.queues ∧
      (listen success s).clientHandleArr = s.clientHandleArr := by
  cases success with
  | true => exact ⟨rfl, rfl⟩
  | false => exact closeStart_same s

/-- A handler's step moves descriptors from its queue to its clients, or drops some. -/
theorem handle_count {h h' : SelectClientHandle} {queue queue' : SafeQueue QMClientState}
    {label : HandleLabel ω} (haccounts : Accounts h) (hjoins : Joins queue)
    (hmove : h.step handle fuel label queue = some (h', queue')) (sock : Socket) :
    (entries (some queue')).count sock ≤ (entries (some queue)).count sock ∧
      h'.socks.count sock + (entries (some queue')).count sock ≤
        h.socks.count sock + (entries (some queue)).count sock := by
  rcases SelectClientHandle.step_cases hmove with ⟨_, _, rfl, hmoved⟩ |
    ⟨fresh, last, _, _, hdrain, rfl⟩ | ⟨answer, last, _, _, hpoll, rfl, rfl⟩
  · have hsame : h'.socks = h.socks := by
      rcases hmoved with rfl | ⟨point, rfl⟩
      · rfl
      · rfl
    rw [hsame]
    exact ⟨Nat.le_refl _, Nat.le_refl _⟩
  · obtain ⟨rfl, hempty⟩ := SelectClientHandle.drain_spec hjoins.joins hdrain
    have hnone : entries (some queue') = [] := by
      rw [entries, Option.elim_some, hempty]
      rfl
    obtain ⟨hsocks, _⟩ := h.joinAll_clients fresh (entries (some queue))
    have hall : (h.joinAll fresh (entries (some queue))).socks.count sock =
        h.socks.count sock + (entries (some queue)).count sock := by
      rw [hsocks, List.count_append]
    rw [hnone]
    exact ⟨Nat.zero_le _, Nat.le_of_eq hall⟩
  · have hless := (SelectClientHandle.poll_socks haccounts.serving.clients hpoll).count_le sock
    exact ⟨Nat.le_refl _, Nat.add_le_add_right hless _⟩

/-- Only a push makes a descriptor live. -/
theorem moves_of_step (hinv : s.Inv) (hstep : step handle fuel label s = some next) :
    Moves s next label.accepts := by
  cases step_cases hstep with
  | initServer threadNum _ =>
      obtain ⟨hwaiting, hserved, _⟩ := initServer_same threadNum s
      exact .of_eq hwaiting hserved _
  | bind answer _ =>
      obtain ⟨hqueues, hhandles⟩ := bind_same answer s
      exact .of_eq (by rw [waiting, hqueues]; rfl) (by rw [served, hhandles]; rfl) _
  | listen success _ =>
      obtain ⟨hqueues, hhandles⟩ := listen_same success s
      exact .of_eq (by rw [waiting, hqueues]; rfl) (by rw [served, hhandles]; rfl) _
  | wait _ _ => exact .of_eq rfl rfl _
  | selectFailed _ =>
      obtain ⟨hqueues, hhandles⟩ := closeStart_same s
      exact .of_eq (by rw [waiting, hqueues]; rfl) (by rw [served, hhandles]; rfl) _
  | close _ =>
      obtain ⟨hqueues, hhandles⟩ := closeStart_same s
      exact .of_eq (by rw [waiting, hqueues]; rfl) (by rw [served, hhandles]; rfl) _
  | @pushClient _ clientSock _ _ _ _ hpush =>
      obtain ⟨id, queue, _, hqueue, rfl⟩ := pushClient_cases hinv.array hpush
      have hgrown := Dispatch.count_flatMap_set entries (getElem?_of_queue hqueue)
        (some (queue.push ⟨EClientState.join.code, clientSock⟩))
      have hentry : ∀ sock, (entries
          (some (queue.push ⟨EClientState.join.code, clientSock⟩))).count sock =
          (entries (some queue)).count sock + [clientSock].count sock := by
        intro sock
        simp only [entries, Option.elim_some, SafeQueue.push, MyQueue.push_nodes, List.map_append,
          List.map_cons, List.map_nil, List.count_append]
      have hwaiting : ∀ sock, ((s.queues.set id
          (some (queue.push ⟨EClientState.join.code, clientSock⟩))).flatMap entries).count sock =
          (s.queues.flatMap entries).count sock + [clientSock].count sock := by
        intro sock
        have hone := hgrown sock
        rw [hentry sock] at hone
        omega
      refine ⟨fun sock => Nat.le_of_eq (hwaiting sock), fun sock => ?_⟩
      rw [live, live, List.count_append, List.count_append]
      have hone := hwaiting sock
      change ((s.queues.set id _).flatMap entries).count sock + s.served.count sock ≤
        (s.queues.flatMap entries).count sock + s.served.count sock + [clientSock].count sock
      omega
  | @stopHandle _ h _ hat =>
      have hsame : SelectClientHandle.socks { h with isRunging := false } = h.socks := rfl
      exact .replaceHandle hat (hsame ▸ List.Sublist.refl _) _
  | @deleteHandle _ h _ hat _ =>
      have hnone : h.close.socks = [] := rfl
      exact .replaceHandle hat (hnone ▸ List.nil_sublist _) _
  | deleteQueues hdelete =>
      obtain ⟨queues, rfl, _, _, _, hnone⟩ := deleteQueues_cases hinv hdelete
      have hwaiting : queues.flatMap entries = [] := by
        rw [List.flatMap_eq_nil_iff]
        intro queue hmem
        obtain ⟨id, hlt, rfl⟩ := List.getElem_of_mem hmem
        have hgone := hnone id
        rw [List.getElem?_eq_getElem hlt, Option.join_some] at hgone
        rw [hgone]
        rfl
      refine ⟨fun sock => ?_, fun sock => ?_⟩
      · change (queues.flatMap entries).count sock ≤ _
        rw [hwaiting]
        exact Nat.zero_le _
      · change (queues.flatMap entries ++ []).count sock ≤ _
        rw [hwaiting]
        exact Nat.zero_le _
  | handle hmove =>
      obtain ⟨h, queue, h', queue', hat, hqueue, hown, rfl⟩ := handleStep_cases hmove
      have hone := handle_count (hinv.handles h (List.mem_of_getElem? hat))
        (hinv.queues _ queue hqueue) hown
      refine ⟨fun sock => ?_, fun sock => ?_⟩
      · have hqueues := Dispatch.count_flatMap_set entries (getElem?_of_queue hqueue)
          (some queue') sock
        have hless := (hone sock).1
        change ((s.queues.set h.clientStateQueue (some queue')).flatMap entries).count sock ≤
          (s.queues.flatMap entries).count sock + _
        omega
      · have hqueues := Dispatch.count_flatMap_set entries (getElem?_of_queue hqueue)
          (some queue') sock
        have hhandles := Dispatch.count_flatMap_set SelectClientHandle.socks hat h' sock
        have hless := (hone sock).2
        rw [live, live, List.count_append, List.count_append]
        change ((s.queues.set h.clientStateQueue (some queue')).flatMap entries).count sock +
            ((s.clientHandleArr.set _ h').flatMap SelectClientHandle.socks).count sock ≤
          (s.queues.flatMap entries).count sock +
            (s.clientHandleArr.flatMap SelectClientHandle.socks).count sock + _
        omega

/-! ## Where clients come from -/

/-- What a client in a handler's list was before the step: in a list that the
step did not sweep, a descriptor waiting in a queue, or in the list swept. -/
inductive Origin (handle : MsgHandle ω) (fuel : Nat) (s : SelectServerThread)
    (label : ServerLabel ω) (client : Client) : Prop where
  | kept {position : Nat} {h : SelectClientHandle}
      (hat : s.clientHandleArr[position]? = some h) (hmem : client ∈ h.clientSockArr)
      (hother : ∀ answer, label ≠ .handle position (.poll answer))
  | adopted {own : Fresh} {test : TestCounters}
      (hclient : client = Client.new client.sock own test) (hwaiting : client.sock ∈ s.waiting)
      (hlabel : ∀ position answer, label ≠ .handle position (.poll answer))
  | swept {position index : Nat} {h : SelectClientHandle} {before : Client}
      {readable : Socket → Bool} {turns : Nat → ClientTurn ω}
      (hlabel : label = .handle position (.poll (.ready readable turns)))
      (hat : s.clientHandleArr[position]? = some h)
      (hbefore : h.clientSockArr[index]? = some before)
      (hsurvives : SelectClientHandle.Survives handle fuel (h.fdRead readable) (turns index)
        before client)

theorem Joined.kept {client : Client} (hjoined : s.Joined client)
    (hlabel : ∀ position answer, label ≠ .handle position (.poll answer)) :
    Origin handle fuel s label client := by
  obtain ⟨position, h, hat, hmem⟩ := hjoined
  exact .kept hat hmem fun answer => hlabel position answer

/-- A list with one handler replaced. -/
theorem joined_set {position : Nat} {h' : SelectClientHandle} {client : Client}
    {handles : List SelectClientHandle} {other : Nat} {h : SelectClientHandle}
    (hat : (handles.set position h')[other]? = some h) (hmem : client ∈ h.clientSockArr) :
    (other = position ∧ client ∈ h'.clientSockArr) ∨
      (other ≠ position ∧ handles[other]? = some h) := by
  rw [List.getElem?_set] at hat
  split at hat
  next hsame =>
    split at hat
    · cases hat
      exact Or.inl ⟨hsame.symm, hmem⟩
    · cases hat
  next hne => exact Or.inr ⟨Ne.symm hne, hat⟩

/-- A step of a handler leaves the clients of the others alone. -/
theorem origin_of_handle (hinv : s.Inv) {position : Nat} {label : HandleLabel ω}
    (hmove : s.handleStep handle fuel position label = some next) {client : Client}
    (hjoined : next.Joined client) : Origin handle fuel s (.handle position label) client := by
  obtain ⟨h, queue, h', queue', hat, hqueue, hown, rfl⟩ := handleStep_cases hmove
  obtain ⟨other, last, hother, hmem⟩ := hjoined
  have hplace := joined_set hother hmem
  rcases hplace with ⟨rfl, hmem'⟩ | ⟨hne, hkept⟩
  · rcases SelectClientHandle.step_cases hown with ⟨rfl, _, rfl, hmoved⟩ |
      ⟨fresh, _, rfl, _, hdrain, rfl⟩ | ⟨answer, _, rfl, _, hpoll, rfl, rfl⟩
    · have hsame : client ∈ h.clientSockArr := by
        rcases hmoved with rfl | ⟨point, rfl⟩
        · exact hmem'
        · exact hmem'
      exact .kept hat hsame fun answer hpoll => by cases hpoll
    · have hjoins := hinv.queues _ queue hqueue
      obtain ⟨rfl, _⟩ := SelectClientHandle.drain_spec hjoins.joins hdrain
      rcases (h.joinAll_clients fresh _).2 client hmem' with hold | ⟨hwaits, own, test, hnew⟩
      · exact .kept hat hold fun answer hpoll => by cases hpoll
      · refine .adopted hnew ?_ fun _ _ hpoll => by cases hpoll
        exact List.mem_flatMap.mpr ⟨some queue, List.mem_of_getElem? (getElem?_of_queue hqueue),
          hwaits⟩
    · obtain ⟨readable, turns, index, before, rfl, hbefore, hsurvives⟩ :=
        SelectClientHandle.poll_mem hpoll hmem'
      exact .swept rfl hat hbefore hsurvives
  · refine .kept hkept hmem fun answer hpoll => ?_
    cases hpoll
    exact hne rfl

/-- A client that is there after a step has one of these origins. -/
theorem origin_of_step (hinv : s.Inv) (hstep : step handle fuel label s = some next)
    {client : Client} (hjoined : next.Joined client) : Origin handle fuel s label client := by
  have hsame : ∀ handles : List SelectClientHandle, next.clientHandleArr = handles →
      handles = s.clientHandleArr → s.Joined client := by
    rintro handles hnext rfl
    obtain ⟨position, h, hat, hmem⟩ := hjoined
    exact ⟨position, h, hnext ▸ hat, hmem⟩
  cases step_cases hstep with
  | initServer threadNum _ =>
      exact ((initServer_same threadNum s).2.2 client hjoined).kept
        fun _ _ hpoll => by cases hpoll
  | bind answer _ =>
      exact (hsame _ rfl (bind_same answer s).2).kept fun _ _ hpoll => by cases hpoll
  | listen success _ =>
      exact (hsame _ rfl (listen_same success s).2).kept fun _ _ hpoll => by cases hpoll
  | wait _ _ => exact hjoined.kept fun _ _ hpoll => by cases hpoll
  | selectFailed _ =>
      exact (hsame _ rfl (closeStart_same s).2).kept fun _ _ hpoll => by cases hpoll
  | close _ => exact (hsame _ rfl (closeStart_same s).2).kept fun _ _ hpoll => by cases hpoll
  | pushClient _ _ _ hpush =>
      obtain ⟨id, queue, _, _, rfl⟩ := pushClient_cases hinv.array hpush
      exact (hsame _ rfl rfl).kept fun _ _ hpoll => by cases hpoll
  | stopHandle _ hat =>
      obtain ⟨other, last, hother, hmem⟩ := hjoined
      refine Joined.kept ?_ fun _ _ hpoll => by cases hpoll
      rcases joined_set hother hmem with ⟨_, hsame⟩ | ⟨_, hkept⟩
      · exact ⟨_, _, hat, hsame⟩
      · exact ⟨other, last, hkept, hmem⟩
  | deleteHandle _ hat _ =>
      obtain ⟨other, last, hother, hmem⟩ := hjoined
      refine Joined.kept ?_ fun _ _ hpoll => by cases hpoll
      rcases joined_set hother hmem with ⟨_, hnone⟩ | ⟨_, hkept⟩
      · cases hnone
      · exact ⟨other, last, hkept, hmem⟩
  | deleteQueues hdelete =>
      obtain ⟨queues, rfl, _⟩ := deleteQueues_cases hinv hdelete
      obtain ⟨other, last, hother, _⟩ := hjoined
      cases hother
  | handle hmove => exact origin_of_handle hinv hmove hjoined

/-! ## One client for each live descriptor -/

theorem mem_served {position : Nat} {h : SelectClientHandle} {client : Client}
    (hat : s.clientHandleArr[position]? = some h) (hmem : client ∈ h.clientSockArr) :
    client.sock ∈ s.served :=
  List.mem_flatMap.mpr ⟨h, List.mem_of_getElem? hat, List.mem_map_of_mem hmem⟩

/-- With distinct live descriptors, a handler's clients have distinct ones. -/
theorem socks_nodup (hnodup : s.live.Nodup) {position : Nat} {h : SelectClientHandle}
    (hat : s.clientHandleArr[position]? = some h) : h.socks.Nodup := by
  have hserved : s.served.Nodup := (List.nodup_append.mp hnodup).2.1
  exact (List.nodup_flatMap.mp hserved).1 h (List.mem_of_getElem? hat)

/-- Two handlers have no descriptor in common. -/
theorem position_eq (hnodup : s.live.Nodup) {position other : Nat} {h h' : SelectClientHandle}
    (hat : s.clientHandleArr[position]? = some h) (hat' : s.clientHandleArr[other]? = some h')
    {sock : Socket} (hmem : sock ∈ h.socks) (hmem' : sock ∈ h'.socks) : position = other := by
  have hserved : s.served.Nodup := (List.nodup_append.mp hnodup).2.1
  have hpairs := List.pairwise_iff_getElem.mp (List.nodup_flatMap.mp hserved).2
  obtain ⟨hlt, rfl⟩ := List.getElem?_eq_some_iff.mp hat
  obtain ⟨hlt', rfl⟩ := List.getElem?_eq_some_iff.mp hat'
  rcases Nat.lt_trichotomy position other with hless | hsame | hmore
  · exact absurd hmem' (hpairs position other hlt hlt' hless hmem)
  · exact hsame
  · exact absurd hmem (hpairs other position hlt' hlt hmore hmem')

/-- Two clients with one descriptor are one. -/
theorem Joined.unique (hnodup : s.live.Nodup) {client other : Client} (hjoined : s.Joined client)
    (hjoined' : s.Joined other) (hsock : client.sock = other.sock) : client = other := by
  obtain ⟨position, h, hat, hmem⟩ := hjoined
  obtain ⟨position', h', hat', hmem'⟩ := hjoined'
  have hsame := position_eq hnodup hat hat' (List.mem_map_of_mem hmem)
    (hsock ▸ List.mem_map_of_mem hmem')
  subst position'
  cases hat.symm.trans hat'
  exact List.inj_on_of_nodup_map (socks_nodup hnodup hat) hmem hmem' hsock

theorem waiting_disjoint (hnodup : s.live.Nodup) {sock : Socket} (hwaiting : sock ∈ s.waiting)
    (hserved : sock ∈ s.served) : False :=
  (List.nodup_append.mp hnodup).2.2 sock hwaiting sock hserved rfl

end SelectServerThread

end SelectNet
