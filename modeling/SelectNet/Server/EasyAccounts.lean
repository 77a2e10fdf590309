import SelectNet.EasyTcpServer.EasyTcpServer
import SelectNet.Foundation.Dispatch

/-!
# What EasyTcp servers close

The descriptors that an `EasyTcpServer` has accepted and that are still open are
those of its clients, as long as two things do not happen: a `RecvData` that fails,
which deletes the client and leaves its descriptor open, and a `Close` of a listening
descriptor that is closed already.
-/

namespace SelectNet.EasyTcpServer

variable {s next : EasyTcpServer} {label : Label}

/-! ## The condition -/

namespace CellServer

/-- The descriptor at a position is not readable, or `recv` gives bytes for it. -/
def Answers (s : CellServer) (fdRead : List Socket) (recv : Nat → RecvAnswer) (n : Nat) : Prop :=
  ∀ pClient, s.clients[n]? = some pClient → pClient.sockfd ∈ fdRead →
    (recv n).received pClient.sockfd recvBuffSize ≠ []

/-- No `RecvData` of a sweep fails. -/
def Receives (s : CellServer) (readable : Socket → Bool) (recv : Nat → RecvAnswer) : Prop :=
  ∀ n < s.clients.length, s.Answers (s.fdRead readable) recv n

/-- No `RecvData` fails, and a `Close` finds the listening descriptor open. -/
def Meets (s : CellServer) (listening : Socket → Prop) : CellLabel → Prop
  | .poll .failed => s.clients ≠ [] → s.sock ≠ invalidSocket → listening s.sock
  | .poll (.ready readable recv) => s.Receives readable recv
  | .take => True

end CellServer

/-- A listening descriptor that is open. -/
def Listening (s : EasyTcpServer) (sock : Socket) : Prop :=
  (SocketKind.listening, sock) ∈ Lifetimes.live s.sockets

/-- A step in which no `RecvData` fails, and `Close` finds the listening descriptor
open. -/
def Meets (s : EasyTcpServer) : Label → Prop
  | .initSocket _ | .onRun .selectFailed | .close => s.sock ≠ invalidSocket → s.Listening s.sock
  | .cell position label =>
      ∀ cell, s.cellServers[position]? = some cell → cell.Meets s.Listening label
  | _ => True

/-- The accepted descriptors that are open are those of the clients, each of one
client, and no descriptor has been closed twice. -/
structure Accounted (s : EasyTcpServer) : Prop where
  held : ∀ sock, (SocketKind.accepted, sock) ∈ Lifetimes.live s.sockets ↔ sock ∈ s.held
  one : s.held.Nodup
  once : Lifetimes.ReleasedOnce s.sockets

/-! ## A CellServer -/

namespace CellServer

variable {c next : CellServer} {fuel : Nat} {closed : List Socket}

/-- `RecvData` fails where `recv` gives nothing, and keeps the descriptor. -/
theorem recvData_cases {answer : RecvAnswer} {s r : Receiving} {value : Int}
    (hrecv : recvData answer fuel s = some (.returned value r)) :
    r.pClient.sockfd = s.pClient.sockfd ∧
      (value = -1 ↔ answer.received s.pClient.sockfd recvBuffSize = []) := by
  obtain ⟨bytes, hbytes⟩ : ∃ bytes, bytes = answer.received s.pClient.sockfd recvBuffSize :=
    ⟨_, rfl⟩
  simp only [recvData, ← hbytes] at hrecv ⊢
  split at hrecv
  next hnone =>
    cases hrecv
    exact ⟨rfl, iff_of_true rfl hnone⟩
  next hsome =>
    obtain ⟨exit, hrun, hleave⟩ := Option.map_eq_some_iff.mp hrecv
    have hpass : ∀ t t' : Receiving, t.pClient.sockfd = s.pClient.sockfd →
        msgPass t = .again t' → t'.pClient.sockfd = s.pClient.sockfd := by
      intro t t' ht hagain
      unfold msgPass at hagain
      grind
    have hexit : ∀ t exit, t.pClient.sockfd = s.pClient.sockfd → msgPass t = .leave exit →
        ∀ t', exit = some t' → t'.pClient.sockfd = s.pClient.sockfd := by
      intro t exit ht hend t' ht'
      unfold msgPass at hend
      grind
    have hstart : (recvStart s bytes).pClient.sockfd = s.pClient.sockfd := rfl
    have hsock := Loop.Yields.induction hpass hexit hstart ⟨fuel, hrun⟩
    cases exit with
    | none => cases hleave
    | some last =>
        cases hleave
        exact ⟨hsock _ rfl, iff_of_false (by decide) hsome⟩

/-- A pass of the sweep leaves a quiet client alone, deletes one for which `recv` gives
nothing, and keeps any other with its descriptor. -/
theorem sweep_cases {fdRead : List Socket} {recv : Nat → RecvAnswer} {n : Nat}
    (hsweep : c.sweep fdRead recv fuel (n + 1) = some next) :
    ∃ pClient, c.clients[n]? = some pClient ∧
      (pClient.sockfd ∉ fdRead ∧ c.sweep fdRead recv fuel n = some next ∨
        pClient.sockfd ∈ fdRead ∧ (recv n).received pClient.sockfd recvBuffSize = [] ∧
          (∃ szRecv, sweep fdRead recv fuel n
            { c with szRecv, clients := c.clients.eraseIdx n } = some next) ∨
        (recv n).received pClient.sockfd recvBuffSize ≠ [] ∧
          ∃ szRecv kept, kept.sockfd = pClient.sockfd ∧ sweep fdRead recv fuel n
            { c with szRecv, clients := c.clients.set n kept } = some next) := by
  rw [sweep] at hsweep
  split at hsweep
  next => cases hsweep
  next pClient hat =>
    refine ⟨pClient, hat, ?_⟩
    split at hsweep
    next hready =>
      split at hsweep
      next value r hrecv =>
        obtain ⟨hkeep, hfails⟩ := recvData_cases hrecv
        split at hsweep
        next hvalue => exact Or.inr (Or.inl ⟨hready, hfails.mp hvalue, _, hsweep⟩)
        next hvalue =>
          exact Or.inr (Or.inr ⟨fun hnone => hvalue (hfails.mpr hnone), _, _, hkeep, hsweep⟩)
      next => cases hsweep
    next hquiet => exact Or.inl ⟨hquiet, hsweep⟩

theorem map_sockfd_set {clients : List ClientSocket} {n : Nat} {pClient kept : ClientSocket}
    (hat : clients[n]? = some pClient) (hkeep : kept.sockfd = pClient.sockfd) :
    (clients.set n kept).map ClientSocket.sockfd = clients.map ClientSocket.sockfd := by
  obtain ⟨hlt, rfl⟩ := List.getElem?_eq_some_iff.mp hat
  have hlt' : n < (clients.map ClientSocket.sockfd).length := by simpa using hlt
  have hsock : clients[n].sockfd = (clients.map ClientSocket.sockfd)[n] :=
    (List.getElem_map ClientSocket.sockfd).symm
  rw [List.map_set, hkeep, hsock, List.set_getElem_self hlt']

/-- The positions below a changed one answer as before. -/
theorem answers_set {fdRead : List Socket} {recv : Nat → RecvAnswer} {n i : Nat} (hlt : i < n)
    (szRecv : Memory Byte) (kept : ClientSocket) :
    Answers { c with szRecv, clients := c.clients.set n kept } fdRead recv i ↔
      c.Answers fdRead recv i := by
  simp only [Answers, List.getElem?_set_ne (Nat.ne_of_gt hlt)]

/-- The sweep keeps the clients whose `RecvData` does not fail and loses the
descriptors of the others. -/
theorem sweep_socks {fdRead : List Socket} {recv : Nat → RecvAnswer} {n : Nat}
    (hsweep : c.sweep fdRead recv fuel n = some next) :
    next.clientsBuff = c.clientsBuff ∧
      ∃ lost, (c.clients.map ClientSocket.sockfd).Perm
          (lost ++ next.clients.map ClientSocket.sockfd) ∧
        (lost = [] ↔ ∀ i < n, c.Answers fdRead recv i) := by
  induction n generalizing c with
  | zero =>
      cases hsweep
      exact ⟨rfl, [], .refl _, by simp⟩
  | succ n ih =>
      simp only [Nat.forall_lt_succ_right]
      obtain ⟨pClient, hat, hcases⟩ := sweep_cases hsweep
      have hhere : c.Answers fdRead recv n ↔
          (pClient.sockfd ∈ fdRead → (recv n).received pClient.sockfd recvBuffSize ≠ []) := by
        simp [Answers, hat]
      rw [hhere]
      rcases hcases with ⟨hquiet, hrest⟩ | ⟨hready, hnone, szRecv, hrest⟩ |
        ⟨hsome, szRecv, kept, hkeep, hrest⟩
      · obtain ⟨hbuff, lost, hperm, hlost⟩ := ih hrest
        refine ⟨hbuff, lost, hperm, hlost.trans (and_iff_left ?_).symm⟩
        exact fun hready => absurd hready hquiet
      · obtain ⟨hbuff, lost, hperm, _⟩ := ih hrest
        obtain ⟨hlt, hclient⟩ := List.getElem?_eq_some_iff.mp hat
        have herase := (List.getElem_cons_eraseIdx_perm hlt).symm.map ClientSocket.sockfd
        rw [hclient, List.map_cons] at herase
        refine ⟨hbuff, pClient.sockfd :: lost, herase.trans (hperm.cons pClient.sockfd), ?_⟩
        exact iff_of_false (List.cons_ne_nil _ _) fun hanswers => hanswers.2 hready hnone
      · obtain ⟨hbuff, lost, hperm, hlost⟩ := ih hrest
        refine ⟨hbuff, lost, by simpa only [map_sockfd_set hat hkeep] using hperm, ?_⟩
        rw [hlost, and_iff_left fun _ => hsome]
        exact forall₂_congr fun i hlt => answers_set hlt szRecv kept

/-- What a step does with the descriptors of the clients. -/
inductive Steps (c : CellServer) : CellLabel → List Socket → CellServer → Prop where
  | keeps {label : CellLabel} {next : CellServer} (hmeets : ∀ listening, c.Meets listening label)
      (hheld : c.held.Perm next.held) : Steps c label [] next
  | closes {next : CellServer} (hsome : c.clients ≠ []) (hsock : c.sock ≠ invalidSocket)
      (hheld : next.held = c.clientsBuff.map ClientSocket.sockfd) :
      Steps c (.poll .failed) ((c.clients.map ClientSocket.sockfd).reverse ++ [c.sock]) next
  | loses {next : CellServer} {readable : Socket → Bool} {recv : Nat → RecvAnswer}
      {lost : List Socket} (hfails : ¬ c.Receives readable recv) (hlost : lost ≠ [])
      (hheld : c.held.Perm (lost ++ next.held)) : Steps c (.poll (.ready readable recv)) [] next

theorem takeClients_held (c : CellServer) : c.held.Perm c.takeClients.held := by
  unfold takeClients
  split
  next =>
    simp only [held, List.nil_append]
    exact List.perm_append_comm.map ClientSocket.sockfd
  next => exact .refl _

theorem poll_cases {answer : CellAnswer} (hpoll : c.poll fuel answer = some (closed, next)) :
    c.Steps (.poll answer) closed next := by
  unfold poll at hpoll
  split at hpoll
  next hnone =>
    cases hpoll
    rw [List.isEmpty_iff] at hnone
    refine .keeps (fun listening => ?_) (.refl _)
    cases answer with
    | failed => exact fun hsome => absurd hnone hsome
    | ready readable recv => exact fun n hlt => by simp [hnone] at hlt
  next hsome =>
    rw [List.isEmpty_iff] at hsome
    cases answer with
    | failed =>
        cases hpoll
        unfold close
        split
        next hsock => exact .closes hsome hsock (by simp [held])
        next hsock => exact .keeps (fun listening _ hsock' => absurd hsock' hsock) (.refl _)
    | ready readable recv =>
        obtain ⟨last, hsweep, hlast⟩ := Option.map_eq_some_iff.mp hpoll
        cases hlast
        obtain ⟨hbuff, lost, hperm, hlost⟩ := sweep_socks hsweep
        have hheld : c.held.Perm (lost ++ last.held) := by
          simp only [held, List.map_append, hbuff]
          refine (hperm.append_left _).trans ?_
          rw [← List.append_assoc, ← List.append_assoc]
          exact List.perm_append_comm.append_right _
        by_cases hreceives : c.Receives readable recv
        · rw [hlost.mpr hreceives] at hheld
          exact .keeps (fun _ => hreceives) hheld
        · exact .loses hreceives (fun hnil => hreceives (hlost.mp hnil)) hheld

theorem step_cases {label : CellLabel} (hstep : c.step fuel label = some (closed, next)) :
    c.Steps label closed next := by
  unfold step at hstep
  split at hstep
  next =>
    split at hstep
    next =>
      cases hstep
      exact .keeps (fun _ => trivial) (takeClients_held c)
    next =>
      cases hstep
      exact .keeps (fun _ => trivial) (.refl _)
  next => exact poll_cases hstep
  next => cases hstep

end CellServer

/-! ## The server -/

/-- Accounted, and every descriptor that is open is open once. -/
structure Inv (s : EasyTcpServer) : Prop extends Accounted s where
  distinct : Lifetimes.Distinct s.sockets

theorem Inv.not_listening (hinv : s.Inv) {sock : Socket} (hheld : sock ∈ s.held) :
    ¬ s.Listening sock := by
  intro hlistening
  exact nomatch hinv.distinct.kind_unique hlistening ((hinv.held sock).mpr hheld)

/-- When nothing is opened or closed, no client may be lost. -/
theorem Inv.accounted_same (hinv : s.Inv) {lost : List Socket}
    (hheld : s.held.Perm (lost ++ next.held)) (hsockets : next.sockets = s.sockets) :
    next.Accounted ↔ lost = [] := by
  constructor
  · intro hnext
    rw [List.eq_nil_iff_forall_not_mem]
    intro sock hlost
    have hopen := (hinv.held sock).mpr (hheld.mem_iff.mpr (List.mem_append_left _ hlost))
    rw [← hsockets, hnext.held] at hopen
    exact List.disjoint_of_nodup_append (hheld.nodup_iff.mp hinv.one) hlost hopen
  · rintro rfl
    refine ⟨fun sock => ?_, hheld.nodup_iff.mp hinv.one, by rw [hsockets]; exact hinv.once⟩
    rw [hsockets, hinv.held, hheld.mem_iff]
    rfl

theorem Inv.accounted_kept (hinv : s.Inv) (hheld : s.held.Perm next.held)
    (hsockets : next.sockets = s.sockets) : next.Accounted := by
  have hnone : s.held.Perm ([] ++ next.held) := hheld
  exact (hinv.accounted_same hnone hsockets).mpr rfl

/-- A `Close` closes the clients it deletes and the listening descriptor, which must
be open. -/
theorem Inv.accounted_closesocket (hinv : s.Inv) {gone : List Socket} {sock : Socket}
    (hheld : s.held.Perm (gone ++ next.held))
    (hsockets : next.sockets = s.sockets ++ (gone.reverse ++ [sock]).map .released) :
    next.Accounted ↔ s.Listening sock := by
  have hnodup : (gone ++ next.held).Nodup := hheld.nodup_iff.mp hinv.one
  have hmem : ∀ id, id ∈ gone.reverse ++ [sock] ↔ id ∈ gone ∨ id = sock := by simp
  constructor
  · intro hnext
    have honce := hnext.once
    rw [hsockets, Lifetimes.releasedOnce_released] at honce
    obtain ⟨_, hdistinct, hlive⟩ := honce
    obtain ⟨kind, hkind⟩ := Lifetimes.mem_ids.mp (hlive sock ((hmem sock).mpr (.inr rfl)))
    cases kind with
    | listening => exact hkind
    | accepted =>
        -- the descriptor of a client has been closed under it
        rw [hinv.held, hheld.mem_iff, List.mem_append] at hkind
        rcases hkind with hgone | hkept
        · exact absurd rfl ((List.nodup_append.mp hdistinct).2.2 sock (List.mem_reverse.mpr hgone)
            sock List.mem_cons_self)
        · rw [← hnext.held, hsockets, Lifetimes.mem_live_released, hmem] at hkept
          exact absurd (Or.inr rfl) hkept.2
  · intro hlistening
    have hother : ∀ id ∈ gone ++ next.held, id ≠ sock := by
      rintro id hid rfl
      exact hinv.not_listening (hheld.mem_iff.mpr hid) hlistening
    refine ⟨fun id => ?_, (List.nodup_append.mp hnodup).2.1, ?_⟩
    · rw [hsockets, Lifetimes.mem_live_released, hinv.held, hheld.mem_iff, hmem]
      constructor
      · rintro ⟨hid, hstays⟩
        exact (List.mem_append.mp hid).resolve_left fun hgone => hstays (.inl hgone)
      · intro hid
        refine ⟨List.mem_append_right gone hid, ?_⟩
        rintro (hgone | hsame)
        · exact List.disjoint_of_nodup_append hnodup hgone hid
        · exact hother id (List.mem_append_right gone hid) hsame
    · rw [hsockets, Lifetimes.releasedOnce_released]
      refine ⟨hinv.once, ?_, fun id hid => ?_⟩
      · rw [List.nodup_append]
        refine ⟨List.nodup_reverse.mpr (List.nodup_append.mp hnodup).1,
          List.nodup_singleton sock, ?_⟩
        intro id hid last hlast
        rw [List.mem_singleton.mp hlast]
        exact hother id (List.mem_append_left _ (List.mem_reverse.mp hid))
      · rcases (hmem id).mp hid with hgone | rfl
        · exact Lifetimes.mem_ids_of_live
            ((hinv.held id).mpr (hheld.mem_iff.mpr (List.mem_append_left _ hgone)))
        · exact Lifetimes.mem_ids_of_live hlistening

/-- A new listening descriptor changes no account. -/
theorem accounted_listening {sock : Socket}
    (hheld : next.held = s.held)
    (hsockets : next.sockets = s.sockets ++ [.acquired .listening sock]) :
    next.Accounted ↔ s.Accounted := by
  have hlive : ∀ id, (SocketKind.accepted, id) ∈ Lifetimes.live next.sockets ↔
      (SocketKind.accepted, id) ∈ Lifetimes.live s.sockets := by
    intro id
    rw [hsockets, Lifetimes.mem_live_acquired]
    exact or_iff_left fun hnew => nomatch hnew.1
  have honce : Lifetimes.ReleasedOnce next.sockets ↔ Lifetimes.ReleasedOnce s.sockets := by
    rw [hsockets, Lifetimes.releasedOnce_acquired]
  constructor
  · rintro ⟨hnext, hone, hreleased⟩
    exact ⟨fun id => by rw [← hlive, hnext, hheld], hheld ▸ hone, honce.mp hreleased⟩
  · rintro ⟨hs, hone, hreleased⟩
    exact ⟨fun id => by rw [hlive, hs, hheld], hheld ▸ hone, honce.mpr hreleased⟩

/-- An accepted client is one account more. -/
theorem Inv.accounted_accepted (hinv : s.Inv) {cSock : Socket}
    (hnew : cSock ∉ Lifetimes.ids s.sockets) (hheld : (s.held ++ [cSock]).Perm next.held)
    (hsockets : next.sockets = s.sockets ++ [.acquired .accepted cSock]) : next.Accounted := by
  have hother : ∀ id ∈ s.held, id ≠ cSock := by
    rintro id hid rfl
    exact hnew (Lifetimes.mem_ids_of_live ((hinv.held id).mpr hid))
  refine ⟨fun id => ?_, ?_, ?_⟩
  · rw [hsockets, Lifetimes.mem_live_acquired, hinv.held, ← hheld.mem_iff, List.mem_append,
      List.mem_singleton, and_iff_right rfl]
  · rw [← hheld.nodup_iff, List.nodup_append]
    refine ⟨hinv.one, List.nodup_singleton cSock, ?_⟩
    intro id hid last hlast
    rw [List.mem_singleton.mp hlast]
    exact hother id hid
  · rw [hsockets, Lifetimes.releasedOnce_acquired]
    exact hinv.once

/-! ## Steps -/

theorem Inv.accounted_close (hinv : s.Inv) :
    s.close.Accounted ↔ (s.sock ≠ invalidSocket → s.Listening s.sock) := by
  unfold close
  split
  next hsock =>
    have hnone : s.held.Perm ([] ++ (s.closesocket [s.sock]).held) := .refl _
    rw [hinv.accounted_closesocket hnone rfl, imp_iff_right hsock]
  next hsock => exact iff_of_true hinv.toAccounted fun hsock' => absurd hsock' hsock

theorem Inv.close_distinct (hinv : s.Inv) : Lifetimes.Distinct s.close.sockets := by
  unfold close
  split
  · exact hinv.distinct.released [s.sock]
  · exact hinv.distinct

theorem Inv.initSocket (hinv : s.Inv) {answer : Option Socket}
    (hpossible : Possible s (.initSocket answer)) :
    ((s.initSocket answer).Accounted ↔ s.Meets (.initSocket answer)) ∧
      Lifetimes.Distinct (s.initSocket answer).sockets := by
  cases answer with
  | none =>
      have hsame : (s.initSocket Option.none).Accounted ↔ s.close.Accounted :=
        ⟨fun hall => ⟨hall.held, hall.one, hall.once⟩, fun hall => ⟨hall.held, hall.one, hall.once⟩⟩
      exact ⟨hsame.trans hinv.accounted_close, hinv.close_distinct⟩
  | some sock =>
      have hsame : (s.initSocket (some sock)).Accounted ↔ s.close.Accounted :=
        accounted_listening rfl rfl
      exact ⟨hsame.trans hinv.accounted_close, hinv.close_distinct.acquired hpossible.2⟩

theorem start_held (nCellServer : Int) (s : EasyTcpServer) :
    (s.start nCellServer).held = s.held := by
  simp [start, held, CellServer.held, CellServer.new]

theorem accept_cases {cSock : Socket} {counts : Counts}
    (haccept : s.accept cSock counts = some next) :
    ∃ position cell, s.cellServers[position]? = some cell ∧
      next.cellServers = s.cellServers.set position (cell.addClient (.new cSock)) ∧
      next.sockets = s.sockets ++ [.acquired .accepted cSock] := by
  obtain ⟨cell, hat, rfl⟩ := Option.map_eq_some_iff.mp haccept
  exact ⟨_, cell, hat, rfl, rfl⟩

theorem CellServer.addClient_held (pClient : ClientSocket) (c : CellServer) :
    (c.addClient pClient).held.Perm (c.held ++ [pClient.sockfd]) := by
  simp only [held, addClient, List.map_append, List.append_assoc]
  exact List.perm_append_comm.append_left _

theorem Inv.accept (hinv : s.Inv) {cSock : Socket} {counts : Counts}
    (hnew : cSock ∉ Lifetimes.ids s.sockets) (haccept : s.accept cSock counts = some next) :
    next.Accounted ∧ Lifetimes.Distinct next.sockets := by
  obtain ⟨position, cell, hat, hcells, hsockets⟩ := accept_cases haccept
  obtain ⟨others, hbefore, hafter⟩ := Dispatch.exists_perm_flatMap_set CellServer.held hat
  have hnext : next.held.Perm (s.held ++ [cSock]) := by
    rw [held, hcells]
    refine (hafter _).trans (.trans ?_ (hbefore.append_right [cSock]).symm)
    refine ((CellServer.addClient_held _ cell).append_right others).trans ?_
    rw [List.append_assoc, List.append_assoc]
    exact List.perm_append_comm.append_left cell.held
  refine ⟨hinv.accounted_accepted hnew hnext.symm hsockets, ?_⟩
  rw [hsockets]
  exact hinv.distinct.acquired hnew

theorem Inv.onRun (hinv : s.Inv) {answer : OnRunAnswer} (hpossible : Possible s (.onRun answer))
    (hrun : s.onRun answer = some next) :
    (next.Accounted ↔ s.Meets (.onRun answer)) ∧ Lifetimes.Distinct next.sockets := by
  unfold EasyTcpServer.onRun at hrun
  split at hrun
  next hopen =>
    cases answer with
    | selectFailed =>
        cases hrun
        exact ⟨hinv.accounted_close, hinv.close_distinct⟩
    | nothing =>
        cases hrun
        exact ⟨iff_of_true hinv.toAccounted trivial, hinv.distinct⟩
    | invalid =>
        cases hrun
        exact ⟨iff_of_true hinv.toAccounted trivial, hinv.distinct⟩
    | client cSock counts =>
        obtain ⟨hnext, hdistinct⟩ := hinv.accept hpossible.2 hrun
        exact ⟨iff_of_true hnext trivial, hdistinct⟩
  next hclosed =>
    cases hrun
    refine ⟨iff_of_true hinv.toAccounted ?_, hinv.distinct⟩
    cases answer with
    | selectFailed => exact fun hsock => absurd (decide_eq_true hsock) hclosed
    | nothing => trivial
    | invalid => trivial
    | client cSock counts => trivial

theorem Inv.cellStep (hinv : s.Inv) {fuel position : Nat} {label : CellLabel}
    (hstep : s.cellStep fuel position label = some next) :
    (next.Accounted ↔ s.Meets (.cell position label)) ∧ Lifetimes.Distinct next.sockets := by
  unfold EasyTcpServer.cellStep at hstep
  split at hstep
  next => cases hstep
  next cell hat =>
    obtain ⟨⟨closed, cell'⟩, hcell, hnext⟩ := Option.map_eq_some_iff.mp hstep
    cases hnext
    obtain ⟨others, hbefore, hafter⟩ := Dispatch.exists_perm_flatMap_set CellServer.held hat
    have hmeets : s.Meets (.cell position label) ↔ cell.Meets s.Listening label := by
      simp [Meets, hat]
    rw [hmeets]
    refine ⟨?_, hinv.distinct.released closed⟩
    cases CellServer.step_cases hcell with
    | keeps hkeeps hheld =>
        refine iff_of_true (hinv.accounted_kept ?_ ?_) (hkeeps _)
        · exact hbefore.trans ((hheld.append_right others).trans (hafter _).symm)
        · simp [closesocket]
    | closes hsome hsock hheld =>
        have hgone : cell.held.Perm (cell.clients.map ClientSocket.sockfd ++ cell'.held) := by
          rw [hheld, CellServer.held, List.map_append]
          exact List.perm_append_comm
        rw [hinv.accounted_closesocket ?_ rfl]
        · exact ⟨fun hlistening _ _ => hlistening, fun hall => hall hsome hsock⟩
        · refine hbefore.trans ((hgone.append_right others).trans ?_)
          rw [List.append_assoc]
          exact (hafter cell').symm.append_left _
    | loses hfails hlost hheld =>
        refine iff_of_false (fun hall => hlost ((hinv.accounted_same ?_ ?_).mp hall)) hfails
        · refine hbefore.trans ((hheld.append_right others).trans ?_)
          rw [List.append_assoc]
          exact (hafter cell').symm.append_left _
        · simp [closesocket]

/-- A step keeps the accounts exactly if it meets the condition. -/
theorem Inv.step {fuel : Nat} (hinv : s.Inv) (hpossible : Possible s label)
    (hstep : step fuel label s = some next) :
    (next.Accounted ↔ s.Meets label) ∧ Lifetimes.Distinct next.sockets := by
  cases label with
  | initSocket answer =>
      cases hstep
      exact hinv.initSocket hpossible
  | start nCellServer =>
      cases hstep
      have hheld : s.held.Perm (s.start nCellServer).held := by rw [start_held]
      exact ⟨iff_of_true (hinv.accounted_kept hheld rfl) trivial, hinv.distinct⟩
  | onRun answer => exact hinv.onRun hpossible hstep
  | close =>
      cases hstep
      exact ⟨hinv.accounted_close, hinv.close_distinct⟩
  | cell position label => exact hinv.cellStep hstep

/-! ## Whole runs -/

theorem new_inv : Inv new where
  held := by simp [new, held, Lifetimes.live]
  one := by simp [new, held]
  once := .nil
  distinct := List.nodup_nil

theorem inv_of_reachable (hreach : (machine.restrict Meets).Reachable s) : Inv s := by
  have hinitial : ∀ s, machine.initial s → Inv s := by
    rintro s rfl
    exact new_inv
  have hstep : ∀ s label next, Inv s → Meets s label → machine.step s label next → Inv next := by
    rintro s label next hinv hmeets ⟨hpossible, fuel, hmove⟩
    obtain ⟨haccounted, hdistinct⟩ := hinv.step hpossible hmove
    exact ⟨haccounted.mpr hmeets, hdistinct⟩
  exact hreach.invariant_restrict hinitial hstep

/-- As long as no `RecvData` fails and every `Close` finds the listening descriptor
open, the servers close what they accept; the first step that is otherwise breaks
this. -/
theorem easyTcp_accounted_iff (hreach : (machine.restrict Meets).Reachable s) :
    s.Accounted ∧
      ∀ label next, machine.step s label next → (next.Accounted ↔ s.Meets label) := by
  have hinv := inv_of_reachable hreach
  refine ⟨hinv.toAccounted, ?_⟩
  rintro label next ⟨hpossible, fuel, hmove⟩
  exact (hinv.step hpossible hmove).1

section Runs

/-- A server that listens at descriptor 3 and serves client 5. -/
def serving : EasyTcpServer where
  sock := 3
  cellServers := [{ CellServer.new 3 with clients := [.new 5], point := .poll }]
  sockets := [.acquired .listening 3, .acquired .accepted 5]

/-- Client 6 waits in the buffer. -/
def waiting : EasyTcpServer where
  sock := 3
  cellServers :=
    [{ CellServer.new 3 with clients := [.new 5], clientsBuff := [.new 6], point := .poll }]
  sockets := serving.sockets ++ [.acquired .accepted 6]

def anyCounts : Counts := ⟨fun _ => 0, fun _ => 0⟩

/-- A `CellServer` closes client 5 and the server's descriptor; a client that waits
in its buffer stays. -/
theorem easyTcp_accounted_closed : ∃ s : EasyTcpServer, s.held = [6] ∧ s.Accounted ∧
    ∀ label next, machine.step s label next → (next.Accounted ↔ s.Meets label) := by
  have hnew : (machine.restrict Meets).Reachable new := .start rfl
  have hinit := hnew.step_restrict (.initSocket (some 3)) (fun hsock => absurd rfl hsock)
    ⟨⟨by decide, by decide⟩, 0, rfl⟩
  have hstart := hinit.step_restrict (.start 1) trivial ⟨trivial, 0, rfl⟩
  have hfirst := hstart.step_restrict (.onRun (.client 5 anyCounts)) trivial
    ⟨⟨by decide, by decide⟩, 0, rfl⟩
  have hserving : (machine.restrict Meets).Reachable serving :=
    hfirst.step_restrict (.cell 0 .take) (fun _ _ => trivial) ⟨trivial, 0, rfl⟩
  have hwaiting : (machine.restrict Meets).Reachable waiting :=
    hserving.step_restrict (.onRun (.client 6 anyCounts)) trivial ⟨⟨by decide, by decide⟩, 0, rfl⟩
  have hmeets : waiting.Meets (.cell 0 (.poll .failed)) := by
    rintro cell ⟨⟩ _ _
    exact List.mem_cons_self
  have hclose := hwaiting.step_restrict (.cell 0 (.poll .failed)) hmeets ⟨trivial, 0, rfl⟩
  exact ⟨_, rfl, easyTcp_accounted_iff hclose⟩

/-- A client whose `recv` fails is deleted and left open, and two calls of `Close`
close the listening descriptor twice. -/
theorem easyTcp_leaks_and_closes_twice :
    (¬ ∀ s, machine.Reachable s → ∀ sock,
      ((SocketKind.accepted, sock) ∈ Lifetimes.live s.sockets ↔ sock ∈ s.held)) ∧
    ¬ ∀ s, machine.Reachable s → Lifetimes.ReleasedOnce s.sockets := by
  have hnew : machine.Reachable new := .start rfl
  have hinit := hnew.step (.initSocket (some 3)) ⟨⟨by decide, by decide⟩, 0, rfl⟩
  constructor
  · intro hall
    have hstart := hinit.step (.start 1) ⟨trivial, 0, rfl⟩
    have hfirst := hstart.step (.onRun (.client 5 anyCounts)) ⟨⟨by decide, by decide⟩, 0, rfl⟩
    have hserving : machine.Reachable serving :=
      hfirst.step (.cell 0 .take) ⟨trivial, 0, rfl⟩
    have hleave := hserving.step (.cell 0 (.poll (.ready (fun _ => true) fun _ => .failed)))
      ⟨trivial, 0, rfl⟩
    have hopen : (SocketKind.accepted, (5 : Socket)) ∈ Lifetimes.live serving.sockets := by decide
    exact absurd ((hall _ hleave 5).mp hopen) List.not_mem_nil
  · intro hall
    have hclose := hinit.step .close ⟨trivial, 0, rfl⟩
    have hagain := hclose.step .close ⟨trivial, 0, rfl⟩
    have hlive := hall _ hagain [.acquired .listening 3, .released 3] 3 [] rfl
    exact absurd hlive (by decide)

end Runs

end SelectNet.EasyTcpServer
