import Mathlib.Data.List.Perm.Basic
import SelectNet.CommonLib.SendLoop

/-!
# The ledger of a pool

How an object has used the pool, as a balance: what it has allocated is what it
has freed, each once and with its size, and what it still owns. The operations
of an endpoint that push, pop and drop entries of `_sendQueue` keep the balance
with the data of these entries.
-/

namespace SelectNet

namespace PoolEvent

/-- The allocation an event makes: its unit and size. -/
def allocated : PoolEvent → Option (Nat × Nat)
  | .alloc unit size => some (unit, size)
  | .free _ _ => none

/-- What an event gives back, with the size it says. -/
def freed : PoolEvent → Option (Nat × Option Nat)
  | .alloc _ _ => none
  | .free unit size => some (unit, size)

end PoolEvent

namespace PoolLog

def allocated (log : PoolLog) : List (Nat × Nat) := log.events.filterMap PoolEvent.allocated

def freed (log : PoolLog) : List (Nat × Option Nat) := log.events.filterMap PoolEvent.freed

@[simp] theorem allocated_alloc (log : PoolLog) (size : Nat) :
    (log.alloc size).2.allocated = log.allocated ++ [(log.units, size)] :=
  List.filterMap_append

@[simp] theorem freed_alloc (log : PoolLog) (size : Nat) :
    (log.alloc size).2.freed = log.freed :=
  List.filterMap_append.trans (List.append_nil _)

@[simp] theorem allocated_free (log : PoolLog) (unit : Nat) (size : Option Nat) :
    (log.free unit size).allocated = log.allocated :=
  List.filterMap_append.trans (List.append_nil _)

@[simp] theorem freed_free (log : PoolLog) (unit : Nat) (size : Option Nat) :
    (log.free unit size).freed = log.freed ++ [(unit, size)] :=
  List.filterMap_append

/-- The balance: units have numbers of their own, and what was allocated is what
was freed, with the size it was allocated with, and what is owned. -/
structure Accounts (log : PoolLog) (owned : List (Nat × Nat)) : Prop where
  distinct : (log.allocated.map Prod.fst).Nodup
  numbered : ∀ entry ∈ log.allocated, entry.1 < log.units
  balance : (log.allocated.map fun entry => (entry.1, some entry.2)).Perm
    (log.freed ++ owned.map fun entry => (entry.1, some entry.2))
  /-- Nothing is freed before it is allocated. -/
  ordered : ∀ before unit size, before ++ [.free unit size] <+: log.events →
    ∃ allocatedSize, .alloc unit allocatedSize ∈ before

/-- A unit that was allocated and has not been freed. -/
def Outstanding (log : PoolLog) (unit : Nat) : Prop :=
  (∃ size, .alloc unit size ∈ log.events) ∧ ∀ size, .free unit size ∉ log.events

/-- No unit is freed twice, nor with another size than it was allocated with. -/
structure FreedOnce (log : PoolLog) : Prop where
  once : (log.freed.map Prod.fst).Nodup
  sized : ∀ unit size, .free unit size ∈ log.events →
    ∃ allocatedSize, size = some allocatedSize ∧ .alloc unit allocatedSize ∈ log.events

variable {log : PoolLog} {owned rest : List (Nat × Nat)} {unit size : Nat}

theorem mem_allocated_iff : (unit, size) ∈ log.allocated ↔ .alloc unit size ∈ log.events := by
  simp only [allocated, List.mem_filterMap]
  constructor
  · rintro ⟨event, hevent, hallocated⟩
    cases event with
    | alloc => cases hallocated; exact hevent
    | free => cases hallocated
  · intro hevent
    exact ⟨_, hevent, rfl⟩

theorem mem_freed_iff {size : Option Nat} :
    (unit, size) ∈ log.freed ↔ .free unit size ∈ log.events := by
  simp only [freed, List.mem_filterMap]
  constructor
  · rintro ⟨event, hevent, hfreed⟩
    cases event with
    | alloc => cases hfreed
    | free => cases hfreed; exact hevent
  · intro hevent
    exact ⟨_, hevent, rfl⟩

theorem accounts_new : new.Accounts [] where
  distinct := List.nodup_nil
  numbered := by
    intro entry hentry
    cases hentry
  balance := List.Perm.refl _
  ordered := by
    intro before unit size hprefix
    exact absurd (List.prefix_nil.mp hprefix) (List.append_ne_nil_of_right_ne_nil _ (by simp))

theorem Accounts.perm (haccounts : log.Accounts owned) (hperm : owned.Perm rest) :
    log.Accounts rest :=
  ⟨haccounts.distinct, haccounts.numbered,
    haccounts.balance.trans ((hperm.map _).append_left _), haccounts.ordered⟩

theorem Accounts.alloc (haccounts : log.Accounts owned) (size : Nat) :
    (log.alloc size).2.Accounts (owned ++ [((log.alloc size).1, size)]) where
  distinct := by
    rw [allocated_alloc, List.map_append, List.map_singleton]
    refine List.nodup_append.mpr ⟨haccounts.distinct, List.pairwise_singleton _ _, ?_⟩
    rintro _ hunit _ hnew rfl
    obtain ⟨entry, hentry, hsame⟩ := List.mem_map.mp hunit
    have hlt := haccounts.numbered entry hentry
    exact hlt.ne (hsame.trans (List.mem_singleton.mp hnew))
  numbered := by
    intro entry hentry
    rw [allocated_alloc, List.mem_append, List.mem_singleton] at hentry
    rcases hentry with hold | rfl
    · exact Nat.lt_succ_of_lt (haccounts.numbered entry hold)
    · exact Nat.lt_succ_self _
  balance := by
    rw [allocated_alloc, freed_alloc, List.map_append, List.map_append, ← List.append_assoc]
    exact haccounts.balance.append_right _
  ordered := by
    intro before unit freedSize hprefix
    rcases List.prefix_concat_iff.mp hprefix with hlast | hearlier
    · cases (List.append_inj' hlast rfl).2
    · exact haccounts.ordered before unit freedSize hearlier

theorem Accounts.units_perm (haccounts : log.Accounts owned) :
    (log.allocated.map Prod.fst).Perm (log.freed.map Prod.fst ++ owned.map Prod.fst) := by
  have hunits := haccounts.balance.map Prod.fst
  rw [List.map_append, List.map_map, List.map_map] at hunits
  exact hunits

theorem Accounts.mem_allocated (haccounts : log.Accounts owned) (howned : (unit, size) ∈ owned) :
    .alloc unit size ∈ log.events := by
  have hmem : (unit, some size) ∈ log.allocated.map fun entry => (entry.1, some entry.2) :=
    haccounts.balance.mem_iff.mpr
      (List.mem_append_right _ (List.mem_map.mpr ⟨(unit, size), howned, rfl⟩))
  obtain ⟨entry, hentry, hsame⟩ := List.mem_map.mp hmem
  cases hsame
  exact mem_allocated_iff.mp hentry

theorem Accounts.freedOnce (haccounts : log.Accounts owned) : log.FreedOnce where
  once := (List.nodup_append.mp (haccounts.units_perm.nodup_iff.mp haccounts.distinct)).1
  sized := by
    intro unit size hfree
    have hmem : (unit, size) ∈ log.allocated.map fun entry => (entry.1, some entry.2) :=
      haccounts.balance.mem_iff.mpr (List.mem_append_left _ (mem_freed_iff.mpr hfree))
    obtain ⟨entry, hentry, hsame⟩ := List.mem_map.mp hmem
    cases hsame
    exact ⟨_, rfl, mem_allocated_iff.mp hentry⟩

/-- What is outstanding is what is owned. -/
theorem Accounts.outstanding_iff (haccounts : log.Accounts owned) :
    log.Outstanding unit ↔ unit ∈ owned.map Prod.fst := by
  have hnodup := haccounts.units_perm.nodup_iff.mp haccounts.distinct
  constructor
  · rintro ⟨⟨size, halloc⟩, hkept⟩
    have hunit : unit ∈ log.allocated.map Prod.fst :=
      List.mem_map.mpr ⟨(unit, size), mem_allocated_iff.mpr halloc, rfl⟩
    rcases List.mem_append.mp (haccounts.units_perm.mem_iff.mp hunit) with hfreed | howned
    · obtain ⟨⟨_, freedSize⟩, hentry, rfl⟩ := List.mem_map.mp hfreed
      exact absurd (mem_freed_iff.mp hentry) (hkept freedSize)
    · exact howned
  · intro howned
    obtain ⟨⟨owner, size⟩, hentry, rfl⟩ := List.mem_map.mp howned
    refine ⟨⟨size, haccounts.mem_allocated hentry⟩, fun freedSize hfree => ?_⟩
    have hfreed : owner ∈ log.freed.map Prod.fst :=
      List.mem_map.mpr ⟨_, mem_freed_iff.mpr hfree, rfl⟩
    exact (List.nodup_append.mp hnodup).2.2 _ hfreed _ howned rfl

theorem Accounts.free (haccounts : log.Accounts ((unit, size) :: owned)) :
    (log.free unit (some size)).Accounts owned where
  distinct := by
    rw [allocated_free]
    exact haccounts.distinct
  numbered := by
    rw [allocated_free]
    exact haccounts.numbered
  balance := by
    rw [allocated_free, freed_free, List.append_assoc, List.singleton_append]
    exact haccounts.balance
  ordered := by
    intro before other freedSize hprefix
    rcases List.prefix_concat_iff.mp hprefix with hlast | hearlier
    · obtain ⟨rfl, hsame⟩ := List.append_inj' hlast rfl
      cases hsame
      exact ⟨size, haccounts.mem_allocated List.mem_cons_self⟩
    · exact haccounts.ordered before other freedSize hearlier

end PoolLog

namespace Endpoint

variable {ρ : Type}

/-- The data of the entries of `_sendQueue`. -/
def queued (s : Endpoint ρ) : List (Nat × Nat) :=
  s.sendQueue.nodes.map fun entry => (entry.data.unit, entry.size)

/-- What an object owns besides the data of its send queue, and what has to hold
of that. -/
structure Holding (ρ : Type) where
  sound : ρ → Prop
  units : ρ → List (Nat × Nat)

/-- An object with nothing but a send queue. -/
def Holding.nothing : Holding ρ := ⟨fun _ => True, fun _ => []⟩

/-- An endpoint owns the data of its queue and what it holds besides. -/
structure Owns (s : Endpoint ρ) (holding : Holding ρ) : Prop where
  sound : holding.sound s.ext
  accounts : s.memoryPool.Accounts (s.queued ++ holding.units s.ext)

variable {s t next : Endpoint ρ} {holding : Holding ρ}

theorem Owns.congr (howns : s.Owns holding) (hpool : next.memoryPool = s.memoryPool)
    (hqueue : next.sendQueue = s.sendQueue) (hext : next.ext = s.ext) : next.Owns holding := by
  obtain ⟨hsound, haccounts⟩ := howns
  refine ⟨hext ▸ hsound, ?_⟩
  rw [queued, hpool, hqueue, hext]
  exact haccounts

theorem owns_nothing_iff : s.Owns .nothing ↔ s.memoryPool.Accounts s.queued := by
  have hqueued : s.queued ++ Holding.nothing.units s.ext = s.queued := List.append_nil _
  constructor
  · intro howns
    rw [← hqueued]
    exact howns.accounts
  · intro haccounts
    refine ⟨trivial, ?_⟩
    rw [hqueued]
    exact haccounts

theorem Owns.dropEntry {entry : QMSend} {rest : List QMSend} (howns : s.Owns holding)
    (hnodes : s.sendQueue.nodes = entry :: rest) : (s.dropEntry entry).Owns holding := by
  refine ⟨howns.sound, ?_⟩
  have haccounts := howns.accounts
  rw [queued, hnodes] at haccounts
  have hpop := MyQueue.pop_of_cons hnodes
  rw [queued, Endpoint.dropEntry, hpop]
  exact haccounts.free

/-- Dropping entries from the front keeps the balance with what is left. -/
theorem Owns.dropEntries {front back : List QMSend} (howns : s.Owns holding)
    (hnodes : s.sendQueue.nodes = front ++ back) :
    (front.foldl Endpoint.dropEntry s).Owns holding ∧
      (front.foldl Endpoint.dropEntry s).sendQueue.nodes = back := by
  induction front generalizing s with
  | nil => exact ⟨howns, hnodes⟩
  | cons entry front ih =>
      have hrest : s.sendQueue.pop.2.nodes = front ++ back := by
        rw [MyQueue.pop_of_cons hnodes]
        rfl
      exact ih (howns.dropEntry hnodes) hrest

theorem Owns.clearSendQueue (howns : s.Owns holding) :
    s.clearSendQueue.Owns holding ∧ s.clearSendQueue.sendQueue.nodes = [] := by
  have hnodes : s.sendQueue.nodes = s.sendQueue.nodes ++ [] := (List.append_nil _).symm
  exact howns.dropEntries hnodes

theorem Owns.sendData (howns : s.Owns holding) (data : Memory Byte) (dataLen : Nat) :
    (s.sendData data dataLen).2.Owns holding := by
  by_cases hsock : s.sock = invalidSocket
  · rw [Endpoint.sendData, if_pos hsock]
    exact howns
  · rw [sendData_of_open hsock]
    refine ⟨howns.sound, ?_⟩
    rw [queued, MyQueue.push_nodes, List.map_append, List.map_singleton]
    refine (howns.accounts.alloc dataLen).perm ?_
    rw [queued, List.append_assoc, List.append_assoc]
    exact List.perm_append_comm.append_left _

theorem Owns.sendMsg (howns : s.Owns holding) (msg : Memory Byte) :
    (s.sendMsg msg).2.Owns holding := by
  unfold Endpoint.sendMsg
  split
  next => exact howns
  next => exact howns.sendData msg _

/-- The front entry leaves the queue, and its data is freed. -/
theorem Owns.finishMsg (howns : s.Owns holding) (hfinish : s.finishMsg = some t) :
    t.Owns holding := by
  unfold Endpoint.finishMsg at hfinish
  split at hfinish
  next =>
    cases hnodes : s.sendQueue.nodes with
    | nil =>
        have hpop : s.sendQueue.pop = (none, s.sendQueue) := by
          rw [MyQueue.pop, hnodes]
        simp only [count, hpop] at hfinish
        cases hfinish
    | cons entry rest =>
        have hpop := MyQueue.pop_of_cons hnodes
        have hkept := howns.dropEntry hnodes
        simp only [count, hpop, Option.some.injEq] at hfinish
        subst hfinish
        exact hkept.congr rfl (by rw [Endpoint.dropEntry, hpop]) rfl
  next =>
    cases hfinish
    exact howns

section Sending

variable {close : Endpoint ρ → Endpoint ρ} {limit calls : Nat} {answers : Nat → SendAnswer}

/-- Whichever way the send loops are left, the balance holds. -/
def ExitOwning (holding : Holding ρ) : Option (SendExit ρ) → Prop
  | none => True
  | some (.ret _ t) => t.Owns holding
  | some (.drained t _) => t.Owns holding

def PassOwning (holding : Holding ρ) : Pass (Endpoint ρ × Nat) (Option (SendExit ρ)) → Prop
  | .again next => next.1.Owns holding
  | .leave exit => ExitOwning holding exit

theorem Owns.loadMsg (howns : s.Owns holding) (calls : Nat) :
    PassOwning holding (s.loadMsg calls) := by
  unfold Endpoint.loadMsg
  split
  next => exact howns
  next =>
    split
    next => exact howns.congr rfl rfl rfl
    next => exact howns.congr rfl rfl rfl

theorem Owns.copyMsg (howns : s.Owns holding) (canWrite : Int) (calls : Nat) :
    PassOwning holding (s.copyMsg canWrite calls) := by
  unfold Endpoint.copyMsg
  simp only
  split
  next =>
    split
    next => trivial
    next hfinish => exact (howns.finishMsg hfinish).loadMsg calls
  next =>
    split
    next => trivial
    next => exact howns.congr rfl rfl rfl

theorem Owns.sendToKernel (hclose : ∀ t : Endpoint ρ, t.Owns holding → (close t).Owns holding)
    (howns : s.Owns holding) {answer : SendAnswer} {value : Int}
    (hsend : s.sendToKernel close answer = some (value, t)) : t.Owns holding := by
  unfold Endpoint.sendToKernel at hsend
  split at hsend
  next =>
    cases hsend
    exact hclose s howns
  next =>
    cases hsend
    exact howns
  next =>
    simp only at hsend
    split at hsend
    next =>
      cases hsend
      exact hclose _ (howns.congr rfl rfl rfl)
    next =>
      split at hsend
      next => cases hsend
      next =>
        cases hsend
        exact howns.congr rfl rfl rfl

theorem Owns.sendPass (hclose : ∀ t : Endpoint ρ, t.Owns holding → (close t).Owns holding)
    (howns : s.Owns holding) : PassOwning holding (sendPass close limit answers (s, calls)) := by
  unfold Endpoint.sendPass
  simp only
  split
  next =>
    split
    next => trivial
    next value t hsend =>
      have ht := howns.sendToKernel hclose hsend
      split
      next => exact ht
      next =>
        split
        next =>
          split
          next => exact hclose t ht
          next => exact ht
        next => exact ht.copyMsg _ _
  next => exact howns.copyMsg _ _

theorem Owns.again (hclose : ∀ t : Endpoint ρ, t.Owns holding → (close t).Owns holding)
    {state next : Endpoint ρ × Nat} (howns : state.1.Owns holding)
    (hbody : Endpoint.sendPass close limit answers state = .again next) : next.1.Owns holding := by
  have hpass : PassOwning holding (Endpoint.sendPass close limit answers state) :=
    Owns.sendPass hclose howns
  rw [hbody] at hpass
  exact hpass

theorem Owns.visits (hclose : ∀ t : Endpoint ρ, t.Owns holding → (close t).Owns holding)
    {state next : Endpoint ρ × Nat} (howns : state.1.Owns holding)
    (hvisits : Loop.Visits (Endpoint.sendPass close limit answers) state next) :
    next.1.Owns holding := by
  induction hvisits with
  | refl => exact howns
  | tail _ hbody ih => exact Owns.again hclose ih hbody

theorem Owns.flush (hclose : ∀ t : Endpoint ρ, t.Owns holding → (close t).Owns holding)
    (howns : s.Owns holding) {answer : SendAnswer} {value : Int}
    (hflush : s.flush close limit answer = some (value, t)) : t.Owns holding := by
  unfold Endpoint.flush at hflush
  split at hflush
  next =>
    split at hflush
    next => cases hflush
    next n u hsend =>
      have hu := howns.sendToKernel hclose hsend
      split at hflush
      next =>
        cases hflush
        exact hu
      next =>
        split at hflush
        next =>
          cases hflush
          exact hclose u hu
        next =>
          cases hflush
          exact hu
  next =>
    cases hflush
    exact howns

/-- However the send loops return, what is owned is still accounted for. -/
theorem Owns.runSend (hclose : ∀ t : Endpoint ρ, t.Owns holding → (close t).Owns holding)
    (howns : s.Owns holding) {value : Int}
    (hrun : s.runSend close limit answers = some (value, t)) : t.Owns holding := by
  unfold Endpoint.runSend at hrun
  split at hrun
  next =>
    cases hrun
    exact howns
  next =>
    have hagain : ∀ state next : Endpoint ρ × Nat, state.1.Owns holding →
        Endpoint.sendPass close limit answers state = .again next → next.1.Owns holding :=
      fun _ _ => Owns.again hclose
    have hleave : ∀ (state : Endpoint ρ × Nat) (exit : Option (SendExit ρ)), state.1.Owns holding →
        Endpoint.sendPass close limit answers state = .leave exit → ExitOwning holding exit := by
      rintro ⟨t, n⟩ exit ht hbody
      have hpass : PassOwning holding (Endpoint.sendPass close limit answers (t, n)) :=
        Owns.sendPass hclose ht
      rw [hbody] at hpass
      exact hpass
    -- the first loop returns, or is drained and the second one flushes what is left
    split at hrun
    next value last hloop =>
      cases hrun
      have hlast : ExitOwning holding (some (.ret value t)) :=
        Loop.Yields.induction hagain hleave howns ⟨_, hloop⟩
      exact hlast
    next last calls hloop =>
      have hlast : ExitOwning holding (some (.drained last calls)) :=
        Loop.Yields.induction hagain hleave howns ⟨_, hloop⟩
      exact Owns.flush hclose hlast hrun
    next => cases hrun

end Sending

end Endpoint

end SelectNet
