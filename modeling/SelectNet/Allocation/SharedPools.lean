import SelectNet.Allocation.SendBuffers
import SelectNet.Allocation.SizedPools
import SelectNet.Foundation.Dispatch

/-!
# Clients that share their pools

A `SelectServer` gives the same `VarMemPool` to all its clients. The log of a
client says what it asks of the pools. Here every `Alloc` of a log reaches the
pools and has its pointer kept, and every `Free` passes the pointer of its unit,
with the clients' calls in any order. Logs that account make of this a run of the
pools in which only live memory is freed, and with the size it was allocated with.
-/

namespace SelectNet

open VarMemPool

/-! ## What an event may follow -/

/-- A unit is allocated once, and freed once behind that, with its size. -/
def PoolEvent.Follows (before : List PoolEvent) : PoolEvent → Prop
  | .alloc unit _ => (∀ size, .alloc unit size ∉ before) ∧ ∀ size, .free unit size ∉ before
  | .free unit size => (∃ allocatedSize, size = some allocatedSize ∧
      .alloc unit allocatedSize ∈ before) ∧ ∀ other, .free unit other ∉ before

namespace PoolLog

variable {log : PoolLog} {owned : List (Nat × Nat)} {before : List PoolEvent} {unit size : Nat}

/-- A unit has one size. -/
theorem Accounts.size_unique (haccounts : log.Accounts owned) {other : Nat}
    (halloc : .alloc unit size ∈ log.events) (hother : .alloc unit other ∈ log.events) :
    size = other := by
  have hpair := List.inj_on_of_nodup_map haccounts.distinct (mem_allocated_iff.mpr halloc)
    (mem_allocated_iff.mpr hother) rfl
  exact (Prod.mk.inj hpair).2

/-- What is owned has been allocated, and not freed. -/
theorem Accounts.mem_owned_iff (haccounts : log.Accounts owned) :
    (unit, size) ∈ owned ↔
      .alloc unit size ∈ log.events ∧ ∀ given, .free unit given ∉ log.events := by
  constructor
  · intro howned
    exact ⟨haccounts.mem_allocated howned,
      (haccounts.outstanding_iff.mpr (List.mem_map_of_mem (f := Prod.fst) howned)).2⟩
  · rintro ⟨halloc, hkept⟩
    obtain ⟨⟨_, other⟩, howned, rfl⟩ :=
      List.mem_map.mp (haccounts.outstanding_iff.mp ⟨⟨size, halloc⟩, hkept⟩)
    rwa [haccounts.size_unique halloc (haccounts.mem_allocated howned)]

theorem Accounts.follows (haccounts : log.Accounts owned) {event : PoolEvent}
    (hwithin : before ++ [event] <+: log.events) : event.Follows before := by
  obtain ⟨rest, hevents⟩ := hwithin
  have hbefore : ∀ other ∈ before, other ∈ log.events := by
    intro other hother
    rw [← hevents, List.append_assoc]
    exact List.mem_append_left _ hother
  cases event with
  | alloc unit size =>
      have hdistinct := haccounts.distinct
      rw [allocated, ← hevents, List.append_assoc, List.filterMap_append, List.map_append,
        List.nodup_append] at hdistinct
      have hnew : ∀ other, .alloc unit other ∉ before := by
        intro other hother
        have hfirst : unit ∈ (before.filterMap PoolEvent.allocated).map Prod.fst :=
          List.mem_map.mpr ⟨(unit, other), List.mem_filterMap.mpr ⟨_, hother, rfl⟩, rfl⟩
        exact hdistinct.2.2 unit hfirst unit List.mem_cons_self rfl
      refine ⟨hnew, fun given hfree => ?_⟩
      -- a free in front would have an allocation in front of it
      obtain ⟨front, back, rfl⟩ := List.append_of_mem hfree
      have hearlier : front ++ [.free unit given] <+: log.events :=
        ⟨back ++ [.alloc unit size] ++ rest, by rw [← hevents]; simp⟩
      obtain ⟨other, hother⟩ := haccounts.ordered front unit given hearlier
      exact hnew other (List.mem_append_left _ hother)
  | free unit size =>
      have hfree : .free unit size ∈ log.events := by
        rw [← hevents]
        simp
      obtain ⟨given, hgiven⟩ := haccounts.ordered before unit size ⟨rest, hevents⟩
      obtain ⟨allocatedSize, hsize, halloc⟩ := haccounts.freedOnce.sized unit size hfree
      have hsame := haccounts.size_unique halloc (hbefore _ hgiven)
      refine ⟨⟨given, hsame ▸ hsize, hgiven⟩, fun other hother => ?_⟩
      have honce := haccounts.freedOnce.once
      rw [freed, ← hevents, List.append_assoc, List.filterMap_append, List.map_append,
        List.nodup_append] at honce
      have hfirst : unit ∈ (before.filterMap PoolEvent.freed).map Prod.fst :=
        List.mem_map.mpr ⟨(unit, other), List.mem_filterMap.mpr ⟨_, hother, rfl⟩, rfl⟩
      exact honce.2.2 unit hfirst unit List.mem_cons_self rfl

end PoolLog

/-! ## The pools behind the logs -/

/-- Pools with several users, known by their numbers, and what `Alloc` has
returned for each unit of a user. -/
structure SharedPools where
  pools : VarMemPool
  heap : Heap
  address : Nat → Nat → Nat

namespace SharedPools

/-- Pools that nobody has used. -/
def start (s : VarState) : SharedPools := ⟨s.pools, s.heap, fun _ _ => 0⟩

/-- A call of a user as its log says, and the pools behind it. -/
inductive Step (s : SharedPools) : Nat × PoolEvent → SharedPools → Prop where
  | alloc {user unit size fresh p : Nat} {source : Source} {pools : VarMemPool} {heap : Heap}
      (halloc : s.pools.alloc s.heap size fresh = some (p, source, pools, heap))
      (hroom : VarState.Room ⟨s.pools, s.heap, []⟩ size fresh source) :
      Step s (user, .alloc unit size)
        ⟨pools, heap, Function.update s.address user (Function.update (s.address user) unit p)⟩
  | free {user unit size : Nat} {source : Source} {pools : VarMemPool} {heap : Heap}
      (hfree : s.pools.free s.heap (s.address user unit) size = some (source, pools, heap)) :
      Step s (user, .free unit (some size)) { s with pools, heap }

/-- A user's unit, with its size, as live memory. -/
def lease (s : SharedPools) : Nat × Nat × Nat → Lease
  | (user, unit, size) => ⟨s.address user unit, size, sourceOf size⟩

/-- The pools have run on the calls, and what is live are the units allocated and
not freed in them. -/
structure Replays (s : SharedPools) (calls : List (Nat × PoolEvent))
    (units : List (Nat × Nat × Nat)) (live : List Lease) : Prop where
  reach : varMachine.Reachable ⟨s.pools, s.heap, live⟩
  leases : live.Perm (units.map s.lease)
  outstanding : ∀ user unit size, (user, unit, size) ∈ units ↔
    (user, .alloc unit size) ∈ calls ∧ ∀ given, (user, .free unit given) ∉ calls

variable {s next : SharedPools} {calls : List (Nat × PoolEvent)} {units : List (Nat × Nat × Nat)}
  {live : List Lease} {user unit size : Nat}

theorem mem_dealtTo {event : PoolEvent} :
    event ∈ Dispatch.dealtTo calls user ↔ (user, event) ∈ calls := by
  simp [Dispatch.dealtTo]

/-- The pointers of the units are different. -/
theorem Replays.distinct (hreplays : s.Replays calls units live) :
    (units.map fun entry => (s.lease entry).p).Nodup := by
  obtain ⟨_, hinv⟩ := VarState.explained_of_reachable hreplays.reach
  have hperm := hreplays.leases.map Lease.p
  rw [List.map_map] at hperm
  exact hperm.nodup_iff.mp hinv.safe.distinct

theorem Replays.alloc (hreplays : s.Replays calls units live)
    (hfollows : (PoolEvent.alloc unit size).Follows (Dispatch.dealtTo calls user))
    {fresh p : Nat} {source : Source} {pools : VarMemPool} {heap : Heap}
    (halloc : s.pools.alloc s.heap size fresh = some (p, source, pools, heap))
    (hroom : VarState.Room ⟨s.pools, s.heap, []⟩ size fresh source) :
    Replays
      ⟨pools, heap, Function.update s.address user (Function.update (s.address user) unit p)⟩
      (calls ++ [(user, .alloc unit size)]) ((user, unit, size) :: units)
      (⟨p, size, source⟩ :: live) := by
  have hroom' : VarState.Room ⟨s.pools, s.heap, live⟩ size fresh source := by
    cases source <;> exact hroom
  refine ⟨hreplays.reach.next (VarState.Step.alloc halloc hroom'), ?_, ?_⟩
  · have hold : units.map (lease ⟨pools, heap, Function.update s.address user
        (Function.update (s.address user) unit p)⟩) = units.map s.lease := by
      apply List.map_congr_left
      rintro ⟨other, unit', size'⟩ hentry
      have hcalled := ((hreplays.outstanding _ _ _).mp hentry).1
      by_cases huser : other = user
      · subst huser
        have hne : unit' ≠ unit := by
          rintro rfl
          exact hfollows.1 size' (mem_dealtTo.mpr hcalled)
        simp only [lease, Function.update_self, Function.update_of_ne hne]
      · simp only [lease, Function.update_of_ne huser]
    rw [List.map_cons, hold, source_of_alloc halloc]
    simp only [lease, Function.update_self]
    exact hreplays.leases.cons _
  · intro user' unit' size'
    simp only [List.mem_cons, hreplays.outstanding, List.mem_append, List.not_mem_nil, or_false,
      Prod.mk.injEq, PoolEvent.alloc.injEq, reduceCtorEq, and_false]
    constructor
    · rintro (⟨rfl, rfl, rfl⟩ | ⟨hcalled, hkept⟩)
      · exact ⟨Or.inr ⟨rfl, rfl, rfl⟩, fun given hfree => hfollows.2 given (mem_dealtTo.mpr hfree)⟩
      · exact ⟨Or.inl hcalled, hkept⟩
    · rintro ⟨hcalled | hnew, hkept⟩
      · exact Or.inr ⟨hcalled, hkept⟩
      · exact Or.inl hnew

theorem Replays.free (hreplays : s.Replays calls units live)
    (hfollows : (PoolEvent.free unit (some size)).Follows (Dispatch.dealtTo calls user))
    {source : Source} {pools : VarMemPool} {heap : Heap}
    (hfree : s.pools.free s.heap (s.address user unit) size = some (source, pools, heap)) :
    Replays { s with pools, heap } (calls ++ [(user, .free unit (some size))])
      (units.erase (user, unit, size)) (live.erase (s.lease (user, unit, size))) := by
  obtain ⟨⟨allocatedSize, hsize, halloc⟩, hkept⟩ := hfollows
  cases hsize
  have hentry : (user, unit, size) ∈ units := (hreplays.outstanding _ _ _).mpr
    ⟨mem_dealtTo.mp halloc, fun given hgiven => hkept given (mem_dealtTo.mpr hgiven)⟩
  have hlive : s.lease (user, unit, size) ∈ live :=
    hreplays.leases.mem_iff.mpr (List.mem_map_of_mem hentry)
  refine ⟨hreplays.reach.next (VarState.Step.free hlive hfree), ?_, ?_⟩
  · have hleft := (hreplays.leases.trans ((List.perm_cons_erase hentry).map s.lease)).erase
      (s.lease (user, unit, size))
    rw [List.map_cons, List.erase_cons_head] at hleft
    exact hleft
  · intro user' unit' size'
    rw [hreplays.distinct.of_map.mem_erase_iff, hreplays.outstanding]
    simp only [List.mem_append, List.mem_singleton, Prod.mk.injEq, PoolEvent.free.injEq,
      reduceCtorEq, and_false, or_false, not_or]
    constructor
    · rintro ⟨hne, hcalled, hkept'⟩
      refine ⟨hcalled, fun given => ⟨hkept' given, ?_⟩⟩
      rintro ⟨rfl, rfl, _⟩
      have hother := (hreplays.outstanding _ _ _).mpr ⟨hcalled, hkept'⟩
      exact hne (List.inj_on_of_nodup_map hreplays.distinct hother hentry rfl)
    · rintro ⟨hcalled, hkept'⟩
      refine ⟨?_, hcalled, fun given => (hkept' given).1⟩
      rintro ⟨⟩
      exact (hkept' (some size)).2 ⟨rfl, rfl, rfl⟩

/-- Every step of the users is one of the pools. -/
theorem Replays.step (hreplays : s.Replays calls units live) {event : PoolEvent}
    (hfollows : event.Follows (Dispatch.dealtTo calls user)) (hstep : s.Step (user, event) next) :
    ∃ units' live', next.Replays (calls ++ [(user, event)]) units' live' := by
  cases hstep with
  | alloc halloc hroom => exact ⟨_, _, hreplays.alloc hfollows halloc hroom⟩
  | free hfree => exact ⟨_, _, hreplays.free hfollows hfree⟩

/-- The pools refuse nothing that may follow, if there is memory for it. -/
theorem Replays.exists_step (hreplays : s.Replays calls units live) {event : PoolEvent}
    (hfollows : event.Follows (Dispatch.dealtTo calls user))
    (hroom : ∀ unit size, event = .alloc unit size →
      ∃ fresh, VarState.Room ⟨s.pools, s.heap, []⟩ size fresh (sourceOf size)) :
    ∃ next, s.Step (user, event) next := by
  have hexplained := VarState.explained_of_reachable hreplays.reach
  cases event with
  | alloc unit size =>
      obtain ⟨fresh, hfresh⟩ := hroom unit size rfl
      have hroom' : VarState.Room ⟨s.pools, s.heap, live⟩ size fresh (sourceOf size) := by
        cases hsource : sourceOf size <;> rw [hsource] at hfresh <;> exact hfresh
      obtain ⟨p, pools, heap, halloc, _⟩ := hexplained.exists_alloc hroom'
      exact ⟨_, .alloc halloc hfresh⟩
  | free unit given =>
      obtain ⟨⟨size, hsize, halloc⟩, hkept⟩ := hfollows
      subst hsize
      have hentry : (user, unit, size) ∈ units := (hreplays.outstanding _ _ _).mpr
        ⟨mem_dealtTo.mp halloc, fun given hgiven => hkept given (mem_dealtTo.mpr hgiven)⟩
      obtain ⟨pools, heap, hfree⟩ := hexplained.exists_free
        (hreplays.leases.mem_iff.mpr (List.mem_map_of_mem hentry))
      exact ⟨_, .free hfree⟩

/-- The calls of a user are the events of its log. -/
theorem exists_replays {s₀ : VarState} (hmade : s₀.Constructed) {logs : Nat → PoolLog}
    {owned : Nat → List (Nat × Nat)} (haccounts : ∀ user, (logs user).Accounts (owned user))
    (hruns : Machine.Runs Step (start s₀) calls s)
    (hcalls : ∀ user, Dispatch.dealtTo calls user <+: (logs user).events) :
    ∃ units live, s.Replays calls units live := by
  induction hruns with
  | start =>
      have hreach : varMachine.Reachable ⟨s₀.pools, s₀.heap, []⟩ :=
        .start ⟨rfl, hmade.made⟩
      exact ⟨[], [], hreach, .nil, by simp⟩
  | @next calls middle next call hbefore hmove ih =>
      obtain ⟨user, event⟩ := call
      have hwithin : ∀ user', Dispatch.dealtTo calls user' <+: (logs user').events := by
        intro user'
        refine List.IsPrefix.trans ?_ (hcalls user')
        rw [Dispatch.dealtTo, Dispatch.dealtTo, List.filter_append, List.map_append]
        exact List.prefix_append _ _
      obtain ⟨units, live, hreplays⟩ := ih hwithin
      have hlast := hcalls user
      rw [Dispatch.dealtTo_push_self] at hlast
      exact hreplays.step ((haccounts user).follows hlast) hmove

/-- Users whose logs account never give the pools anything but live memory of its
size. What is live is what they own, each unit in bytes of its own, and the pools
take it back. -/
theorem accounted_calls_safe {s₀ : VarState} (hmade : s₀.Constructed) {logs : Nat → PoolLog}
    {owned : Nat → List (Nat × Nat)} (haccounts : ∀ user, (logs user).Accounts (owned user))
    (hruns : Machine.Runs Step (start s₀) calls s)
    (hcalls : ∀ user, Dispatch.dealtTo calls user = (logs user).events) :
    ∃ live, varMachine.Reachable ⟨s.pools, s.heap, live⟩ ∧
      (∀ lease, lease ∈ live ↔ ∃ user unit size, (unit, size) ∈ owned user ∧
        s.lease (user, unit, size) = lease) ∧
      (∀ user unit size, (unit, size) ∈ owned user →
        ∃ next, s.Step (user, .free unit (some size)) next) ∧
      ∀ one two unit unit' size size', (unit, size) ∈ owned one → (unit', size') ∈ owned two →
        (one, unit) ≠ (two, unit') →
        s.address one unit + size ≤ s.address two unit' ∨
          s.address two unit' + size' ≤ s.address one unit := by
  obtain ⟨units, live, hreplays⟩ := exists_replays hmade haccounts hruns fun user =>
    (hcalls user).symm ▸ List.prefix_rfl
  have hunits : ∀ user unit size, (user, unit, size) ∈ units ↔ (unit, size) ∈ owned user := by
    intro user unit size
    rw [hreplays.outstanding, (haccounts user).mem_owned_iff, ← hcalls user]
    simp only [mem_dealtTo]
  refine ⟨live, hreplays.reach, fun lease => ?_, fun user unit size howned => ?_, ?_⟩
  · rw [hreplays.leases.mem_iff, List.mem_map]
    simp only [Prod.exists, hunits]
  · obtain ⟨halloc, hkept⟩ := (haccounts user).mem_owned_iff.mp howned
    rw [← hcalls user] at halloc hkept
    have hfollows : (PoolEvent.free unit (some size)).Follows (Dispatch.dealtTo calls user) :=
      ⟨⟨size, rfl, halloc⟩, hkept⟩
    exact hreplays.exists_step hfollows fun _ _ hsame => by cases hsame
  · intro one two unit unit' size size' hone htwo hne
    have hmem := (hunits one unit size).mpr hone
    have hmem' := (hunits two unit' size').mpr htwo
    have hp : (s.lease (one, unit, size)).p ≠ (s.lease (two, unit', size')).p := by
      intro hsame
      have hentry := List.inj_on_of_nodup_map hreplays.distinct hmem hmem' hsame
      simp only [Prod.mk.injEq] at hentry
      exact hne (Prod.ext hentry.1 hentry.2.1)
    obtain ⟨_, hinv⟩ := VarState.explained_of_reachable hreplays.reach
    exact hinv.leases_apart (hreplays.leases.mem_iff.mpr (List.mem_map_of_mem hmem))
      (hreplays.leases.mem_iff.mpr (List.mem_map_of_mem hmem')) hp

end SharedPools

/-! ## Send queues in shared pools -/

/-- Clients of one server, each at any point of a call: what is live in the pools
are the messages in their queues, each in bytes of its own, and the `Free` behind
its last byte finds it there. -/
theorem ClientSocket.queues_share_pools {ω : Type} {handle : MsgHandle ω}
    {clients : Nat → ClientSocket ω} (hpoint : ∀ user, Point handle (clients user))
    {s₀ : VarState} (hmade : s₀.Constructed) {calls : List (Nat × PoolEvent)} {s : SharedPools}
    (hruns : Machine.Runs SharedPools.Step (.start s₀) calls s)
    (hcalls : ∀ user, Dispatch.dealtTo calls user = (clients user).memoryPool.events) :
    ∃ live, varMachine.Reachable ⟨s.pools, s.heap, live⟩ ∧
      (∀ lease, lease ∈ live ↔ ∃ user, ∃ entry ∈ (clients user).sendQueue.nodes,
        s.lease (user, entry.data.unit, entry.size) = lease) ∧
      (∀ user, ∀ entry ∈ (clients user).sendQueue.nodes,
        ∃ next, s.Step (user, .free entry.data.unit (some entry.size)) next) ∧
      ∀ one two, ∀ entry ∈ (clients one).sendQueue.nodes,
        ∀ other ∈ (clients two).sendQueue.nodes,
        (one, entry.data.unit) ≠ (two, other.data.unit) →
        s.address one entry.data.unit + entry.size ≤ s.address two other.data.unit ∨
          s.address two other.data.unit + other.size ≤ s.address one entry.data.unit := by
  have haccounts : ∀ user, (clients user).memoryPool.Accounts (clients user).queued :=
    fun user => Endpoint.owns_nothing_iff.mp (sendOwned_of_point (hpoint user)).owns
  obtain ⟨live, hreach, hlive, hfrees, hapart⟩ :=
    SharedPools.accounted_calls_safe hmade haccounts hruns hcalls
  refine ⟨live, hreach, fun lease => ?_, fun user entry hentry => ?_, ?_⟩
  · rw [hlive]
    simp only [Endpoint.queued, List.mem_map, Prod.mk.injEq]
    constructor
    · rintro ⟨user, _, _, ⟨entry, hentry, rfl, rfl⟩, hlease⟩
      exact ⟨user, entry, hentry, hlease⟩
    · rintro ⟨user, entry, hentry, hlease⟩
      exact ⟨user, _, _, ⟨entry, hentry, rfl, rfl⟩, hlease⟩
  · exact hfrees user _ _ (List.mem_map_of_mem hentry)
  · intro one two entry hentry other hother hne
    exact hapart one two _ _ _ _ (List.mem_map_of_mem hentry) (List.mem_map_of_mem hother) hne

end SelectNet
