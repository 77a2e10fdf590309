import SelectNet.Server.Sweep

/-!
# What select is asked to poll

`OnRun` makes the set anew when the list of clients has changed, and the maximum
with it, but it starts the maximum from the first client, or without clients from
the last maximum: the listening socket itself is never compared. `Close` and a
second `Bind` leave both as they are.
-/

namespace SelectNet.SelectServer

variable {σ : Type} {handle : ServerHandle σ} {s next : SelectServer σ}

/-- The event makes `OnRun` call `select`. -/
def CallsSelect (s : SelectServer σ) : Event σ → Prop
  | .onRun _ => s.serverSock ≠ invalidSocket
  | _ => False

theorem CallsSelect.isOpen {event : Event σ} (hselect : s.CallsSelect event) :
    s.serverSock ≠ invalidSocket := by
  cases event with
  | onRun answers => exact hselect
  | _ => exact hselect.elim

/-- A call of `select` from this state polls the listening socket and the clients:
the set holds exactly them, and `_maxSock + 1` covers the set. -/
structure PollsAll (s : SelectServer σ) : Prop where
  set : s.rebuild.fdReadBackup =
    insert s.serverSock (s.clientSockArr.map fun member => member.client.sock).toFinset
  nfds : ∀ sock ∈ s.rebuild.fdReadBackup, sock ≤ s.rebuild.maxSock

/-! ## A call that makes the set anew -/

section Rebuild

variable (hchange : s.clientChange = true)

include hchange

theorem rebuild_set : s.rebuild.fdReadBackup =
    insert s.serverSock (s.clientSockArr.map fun member => member.client.sock).toFinset := by
  ext sock
  simp only [rebuild, if_pos hchange, Client.mem_pollSet]
  simp

/-- The maximum is that of the clients, or is kept. -/
theorem rebuild_maxSock_lt_iff {limit : Socket} : s.rebuild.maxSock < limit ↔
    (s.clientSockArr = [] → s.maxSock < limit) ∧
      ∀ member ∈ s.clientSockArr, member.client.sock < limit := by
  simp only [rebuild, if_pos hchange, ← Int.le_sub_one_iff, Client.pollSet_le, List.forall_mem_map]
  cases s.clientSockArr with
  | nil => simp
  | cons front rest => simp

/-- Whether the call covers the listening socket is left to the clients, or to
the last maximum when there are none. -/
theorem rebuild_pollsAll_iff : s.PollsAll ↔
    (∃ member ∈ s.clientSockArr, s.serverSock ≤ member.client.sock) ∨
      s.clientSockArr = [] ∧ s.serverSock ≤ s.maxSock := by
  have hset := rebuild_set hchange
  have hclients : ∀ member ∈ s.clientSockArr, member.client.sock ≤ s.rebuild.maxSock := by
    intro member hmember
    by_contra hover
    have hless := (rebuild_maxSock_lt_iff hchange).mp (Int.not_le.mp hover)
    exact Int.lt_irrefl _ (hless.2 member hmember)
  have hcovers : s.PollsAll ↔ s.serverSock ≤ s.rebuild.maxSock := by
    constructor
    · intro hpolls
      apply hpolls.nfds
      rw [hset]
      exact Finset.mem_insert_self _ _
    · intro hserver
      refine ⟨hset, ?_⟩
      rw [hset]
      simpa using ⟨hserver, hclients⟩
  rw [hcovers, ← Int.not_lt, rebuild_maxSock_lt_iff hchange]
  cases s.clientSockArr with
  | nil => simp
  | cons front rest => simp [imp_iff_not_or]

end Rebuild

/-! ## Before the first call -/

/-- A server that has not called `select` yet. -/
structure Unpolled (s : SelectServer σ) : Prop where
  clientSockArr : s.clientSockArr = []
  maxSock : s.maxSock = invalidSocket
  clientChange : s.clientChange = true
  serverSock : s.serverSock ≠ invalidSocket → 0 ≤ s.serverSock

/-- The first call polls nothing: it is made with `nfds` 0. -/
theorem Unpolled.not_pollsAll (hunpolled : s.Unpolled) (hopen : s.serverSock ≠ invalidSocket) :
    ¬ s.PollsAll := by
  rw [rebuild_pollsAll_iff hunpolled.clientChange, hunpolled.clientSockArr, hunpolled.maxSock]
  have hserver := hunpolled.serverSock hopen
  have hinvalid : invalidSocket < (0 : Int) := by decide
  simp only [List.not_mem_nil, false_and, exists_false, true_and, false_or, not_le]
  exact hinvalid.trans_le hserver

theorem Unpolled.listening (hunpolled : s.Unpolled) {serverSock : Socket}
    (hvalid : serverSock ≠ invalidSocket → 0 ≤ serverSock) : Unpolled { s with serverSock } :=
  { hunpolled with serverSock := hvalid }

theorem Unpolled.close (hunpolled : s.Unpolled) : s.close.Unpolled := by
  rcases s.close_cases with ⟨hsame, _⟩ | ⟨_, closesocket, hclose⟩
  · rwa [hsame]
  · rw [hclose]
    exact ⟨rfl, hunpolled.maxSock, hunpolled.clientChange, fun hopen => absurd rfl hopen⟩

/-- Nothing but a call of `select` changes this. -/
theorem Unpolled.step (hunpolled : s.Unpolled) {event : Event σ} (hquiet : ¬ s.CallsSelect event)
    (hstep : (machine handle).step s event next) : next.Unpolled := by
  obtain ⟨hpossible, hmoves⟩ := hstep
  cases event with
  | bind answer =>
      cases answer with
      | noSocket => exact hmoves ▸ hunpolled.listening fun hopen => absurd rfl hopen
      | refused sock => exact hmoves ▸ (hunpolled.listening fun _ => hpossible).close
      | bound sock => exact hmoves ▸ hunpolled.listening fun _ => hpossible
  | listen success =>
      cases success with
      | true => exact hmoves ▸ hunpolled
      | false => exact hmoves ▸ hunpolled.close
  | onRun answers =>
      obtain ⟨fuel, value, hrun⟩ := hmoves
      -- with the server socket open the call gets as far as `select`
      rcases onRun_cases hrun with ⟨_, rfl⟩ | ⟨hopen, _⟩ | ⟨hopen, _⟩
      · exact hunpolled
      · exact absurd hopen hquiet
      · exact absurd hopen hquiet
  | broadcast msg exclude =>
      rw [show next = s.broadcast msg exclude from hmoves, broadcast]
      split
      next => exact hunpolled
      next =>
        refine { hunpolled with clientSockArr := ?_ }
        rw [hunpolled.clientSockArr, List.map_nil]
  | close => exact hmoves ▸ hunpolled.close
  | elsewhere world =>
      cases hmoves
      exact { hunpolled with }

theorem new_unpolled (world : σ) : (new world).Unpolled :=
  ⟨rfl, rfl, rfl, fun hopen => absurd rfl hopen⟩

/-! ## Every run -/

/-- What holds at every call of `select` that a run makes. -/
def AtSelect (handle : ServerHandle σ) (world : σ) (labels : List (Event σ))
    (holds : SelectServer σ → Prop) : Prop :=
  ∀ before event after s, labels = before ++ event :: after →
    Machine.Runs (machine handle).step (new world) before s → s.CallsSelect event → holds s

/-- As long as every call of `select` polls all sockets there is none. -/
theorem unpolled_of_runs {world : σ} {labels rest : List (Event σ)}
    (hall : AtSelect handle world (labels ++ rest) PollsAll)
    (hruns : Machine.Runs (machine handle).step (new world) labels s) : s.Unpolled := by
  induction hruns generalizing rest with
  | start => exact new_unpolled world
  | next hbefore hstep ih =>
      rename_i labels middle next event
      rw [List.append_assoc] at hall
      have hmiddle := ih hall
      refine hmiddle.step (fun hselect => ?_) hstep
      exact hmiddle.not_pollsAll hselect.isOpen
        (hall labels event rest middle rfl hbefore hselect)

/-- A run polls all its sockets at every call of `select` only if it makes none;
a later call that makes the set anew covers the listening socket only if a client
or the last maximum does. -/
theorem pollsAll_iff_no_select (handle : ServerHandle σ) :
    (∀ (world : σ) (labels : List (Event σ)),
      AtSelect handle world labels PollsAll ↔ AtSelect handle world labels fun _ => False) ∧
    ∀ s : SelectServer σ, s.clientChange = true →
      (s.PollsAll ↔ (∃ member ∈ s.clientSockArr, s.serverSock ≤ member.client.sock) ∨
        s.clientSockArr = [] ∧ s.serverSock ≤ s.maxSock) := by
  refine ⟨fun world labels => ⟨fun hall => ?_, fun hnone => ?_⟩, fun s => rebuild_pollsAll_iff⟩
  · intro before event after s hlabels hruns hselect
    rw [hlabels] at hall
    have hunpolled := unpolled_of_runs hall hruns
    exact hunpolled.not_pollsAll hselect.isOpen (hall before event after s rfl hruns hselect)
  · intro before event after s hlabels hruns hselect
    exact absurd (hnone before event after s hlabels hruns hselect) id

/-! ## Around the first client -/

section First

/-- The first call of `select` leaves the listening socket out. -/
theorem first_select_misses : ¬ ∀ (world : Unit) (labels : List (Event Unit)),
    AtSelect silent world labels PollsAll := by
  intro hall
  let answers : OnRunAnswers := ⟨some {3}, none, fun _ => ⟨.failed, fun _ => .notWritable⟩⟩
  have hbind : Machine.Runs (machine silent).step (new ()) [.bind (.bound 3)] listening :=
    Machine.Runs.single listening_step
  have hopen : listening.CallsSelect (.onRun answers) := show (3 : Int) ≠ -1 by decide
  have hpolls := hall () _ [.bind (.bound 3)] (.onRun answers) [] listening rfl hbind hopen
  exact absurd (hpolls.nfds 3 (by decide)) (by decide)

/-- With a client at descriptor 4 the next call covers it. -/
theorem select_covers_with_client :
    (listening.accept (some ⟨4, 0, fun _ => 0, fun _ => 0, fun _ => 0⟩)).PollsAll :=
  ((pollsAll_iff_no_select silent).2 _ rfl).mpr
    (Or.inl ⟨_, List.mem_singleton.mpr rfl, by decide⟩)

end First

end SelectNet.SelectServer
