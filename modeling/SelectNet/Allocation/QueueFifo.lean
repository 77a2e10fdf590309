import SelectNet.Allocation.QueueInPool
import SelectNet.CommonLib.MyQueue

/-!
# Queues are first in, first out

Runs of a queue from its construction, used by one thread: each operation with
what it answered. The runs of a queue in memory are runs of a list.
-/

namespace SelectNet

open MemoryPool Heap

/-- A call of the interface. `fresh` is where `operator new` would find memory
for another block. -/
inductive QueueOp (T : Type) where
  | push (data : T) (fresh : Nat)
  | pop
  | front
  | clear
  | size
  | hasData

/-- What a call returned. -/
inductive QueueAnswer (T : Type) where
  | void
  | data (data : T)
  | size (count : Int)
  | flag (flag : Bool)

/-! ## The abstract queue -/

namespace Fifo

variable {T : Type}

def after : List T → QueueOp T → List T
  | items, .push data _ => items ++ [data]
  | items, .pop => items.tail
  | _, .clear => []
  | items, _ => items

def answer [Inhabited T] : List T → QueueOp T → QueueAnswer T
  | items, .pop => .data (items.headD default)
  | items, .front => .data (items.headD default)
  | items, .size => .size items.length
  | items, .hasData => .flag (!items.isEmpty)
  | _, _ => .void

/-- A call and its answer, as a list makes them. -/
def Step [Inhabited T] (items : List T) (label : QueueOp T × QueueAnswer T)
    (items' : List T) : Prop :=
  label.2 = answer items label.1 ∧ items' = after items label.1

end Fifo

/-! ## Runs of a queue -/

/-- A queue in a heap. `live` are the units its pool has handed out and not
taken back, and the block each is from. -/
structure QueueState where
  queue : IQueue
  heap : Heap
  live : List (Nat × Nat)

namespace QueueState

variable {T : Type} [Inhabited T]

/-- The pool of the queue. -/
def poolState (s : QueueState) : PoolState := ⟨s.queue.rep.memoryPool, s.heap, s.live⟩

/-- Run a call; `fuel` is for the loop of `FreeAll`. -/
def exec (layout : NodeLayout T) (fuel : Nat) (s : QueueState) :
    QueueOp T → Option (QueueAnswer T × IQueue × Heap)
  | .push data fresh => (s.queue.push layout s.heap fresh data).map fun (queue, heap) =>
      (.void, queue, heap)
  | .pop => (s.queue.pop layout s.heap).map fun (data, queue, heap) => (.data data, queue, heap)
  | .front => some (.data (s.queue.front layout s.heap), s.queue, s.heap)
  | .clear => (s.queue.clear fuel s.heap).map fun (queue, heap) => (.void, queue, heap)
  | .size => some (.size s.queue.size, s.queue, s.heap)
  | .hasData => some (.flag s.queue.hasData, s.queue, s.heap)

/-- What is live afterwards: `push` calls `Alloc`, `pop` calls `Free` on the
head, and `clear` calls `FreeAll`. -/
def liveAfter (s : QueueState) : QueueOp T → List (Nat × Nat)
  | .push _ fresh =>
      match s.queue.rep.memoryPool.alloc s.heap fresh with
      | some (p, pool, _) => (p, pool.pBlock.getD 0) :: s.live
      | none => s.live
  | .pop =>
      match s.queue.rep.head with
      | some p => s.live.eraseP fun entry => entry.1 = p
      | none => s.live
  | .clear => []
  | _ => s.live

/-- `operator new` has memory for another block if the call needs one. -/
def CanGrow (s : QueueState) : QueueOp T → Prop
  | .push _ fresh => s.queue.rep.memoryPool.CanGrow s.heap fresh
  | _ => True

structure Step (layout : NodeLayout T) (s : QueueState) (label : QueueOp T × QueueAnswer T)
    (next : QueueState) : Prop where
  canGrow : s.CanGrow label.1
  exec : ∃ fuel, s.exec layout fuel label.1 = some (label.2, next.queue, next.heap)
  live : next.live = s.liveAfter label.1

/-- A queue that has just been created. -/
structure Constructed (layout : NodeLayout T) (s : QueueState) : Prop where
  none : s.live = []
  made : ∃ safeType heap fresh poolSize,
    IQueue.createQueue layout safeType heap fresh poolSize = some (s.queue, s.heap) ∧
    heap.Apart ∧
    heap.Fresh fresh (sizeofMemoryBlock +
      s.queue.rep.memoryPool.nUnitSize * (poolSize % 65536).toNat)

/-- The chain of nodes, and what else there is to say about a queue with these
data. -/
structure Sound (layout : NodeLayout T) (s : QueueState) (nodes : List Nat) (items : List T) :
    Prop where
  linked : LinkedTo (layout.next s.heap) nodes
  head : s.queue.rep.head = nodes.head?
  /-- The last node of the chain, or null if there is none. -/
  tail : s.queue.rep.tail = nodes.getLast?
  size : s.queue.rep.size = nodes.length
  data : nodes.map (layout.data s.heap) = items
  /-- The live units are the nodes, and the pool is safe. -/
  units : (s.live.map Prod.fst).Perm nodes
  safe : s.poolState.Safe
  /-- No step of the pool changes a node that stays live. -/
  kept : ∀ op next, s.poolState.Step op next → (∀ p offset cells, op ≠ .write p offset cells) →
    ∀ p base, (p, base) ∈ s.live → (p, base) ∈ next.live →
      layout.data next.heap p = layout.data s.heap p ∧
      layout.next next.heap p = layout.next s.heap p

end QueueState

/-! ## The two classes do the same -/

namespace IQueue

variable {T : Type} {layout : NodeLayout T} {queue : IQueue} {rep' : QueueRep}
  {heap heap' : Heap} {fresh fuel : Nat} {data : T}

theorem push_of_rep (hunlocked : queue.Unlocked)
    (hpush : queue.rep.push layout heap fresh data = some (rep', heap')) :
    ∃ queue', queue.push layout heap fresh data = some (queue', heap') ∧ queue'.rep = rep' ∧
      queue'.Unlocked := by
  cases queue with
  | myQueue queue =>
      refine ⟨.myQueue rep', ?_, rfl, trivial⟩
      have hpush' : queue.push layout heap fresh data = some (rep', heap') := hpush
      rw [IQueue.push, hpush', Option.map_some]
  | safeQueue safe =>
      refine ⟨.safeQueue ⟨false, rep'⟩, ?_, rfl, rfl⟩
      have hpush' : safe.queue.push layout heap fresh data = some (rep', heap') := hpush
      have hlock : safe.lock = some ⟨true, safe.queue⟩ := if_neg (Bool.eq_false_iff.mp hunlocked)
      simp only [IQueue.push, SafeQueueRep.push, hlock, hpush', Option.bind_eq_bind,
        Option.bind_some, Option.map_some, SafeQueueRep.unlock]

theorem clear_of_rep (hunlocked : queue.Unlocked)
    (hclear : queue.rep.clear fuel heap = some (rep', heap')) :
    ∃ queue', queue.clear fuel heap = some (queue', heap') ∧ queue'.rep = rep' ∧
      queue'.Unlocked := by
  cases queue with
  | myQueue queue =>
      refine ⟨.myQueue rep', ?_, rfl, trivial⟩
      have hclear' : queue.clear fuel heap = some (rep', heap') := hclear
      rw [IQueue.clear, hclear', Option.map_some]
  | safeQueue safe =>
      refine ⟨.safeQueue ⟨safe.mu, rep'⟩, ?_, rfl, hunlocked⟩
      have hclear' : safe.queue.clear fuel heap = some (rep', heap') := hclear
      simp only [IQueue.clear, SafeQueueRep.clear, hclear', Option.bind_eq_bind,
        Option.bind_some, Option.map_some]

variable [Inhabited T]

theorem pop_of_rep (hunlocked : queue.Unlocked)
    (hpop : queue.rep.pop layout heap = some (data, rep', heap')) :
    ∃ queue', queue.pop layout heap = some (data, queue', heap') ∧ queue'.rep = rep' ∧
      queue'.Unlocked := by
  cases queue with
  | myQueue queue =>
      refine ⟨.myQueue rep', ?_, rfl, trivial⟩
      have hpop' : queue.pop layout heap = some (data, rep', heap') := hpop
      rw [IQueue.pop, hpop', Option.map_some]
  | safeQueue safe =>
      refine ⟨.safeQueue ⟨false, rep'⟩, ?_, rfl, rfl⟩
      have hpop' : safe.queue.pop layout heap = some (data, rep', heap') := hpop
      have hlock : safe.lock = some ⟨true, safe.queue⟩ := if_neg (Bool.eq_false_iff.mp hunlocked)
      simp only [IQueue.pop, SafeQueueRep.pop, hlock, hpop', Option.bind_eq_bind,
        Option.bind_some, Option.map_some, SafeQueueRep.unlock]

theorem front_eq (queue : IQueue) (heap : Heap) :
    queue.front layout heap = queue.rep.front layout heap := by
  cases queue <;> rfl

theorem size_eq (queue : IQueue) : queue.size = queue.rep.size := by
  cases queue <;> rfl

theorem hasData_eq (queue : IQueue) : queue.hasData = decide (0 < queue.rep.size) := by
  cases queue <;> rfl

/-- `FreeAll` leaves one heap, however long its loop may run. -/
theorem clear_unique {queue one two : IQueue} {fuel' : Nat} {heap₁ heap₂ : Heap}
    (hone : queue.clear fuel heap = some (one, heap₁))
    (htwo : queue.clear fuel' heap = some (two, heap₂)) : one = two ∧ heap₁ = heap₂ := by
  cases queue with
  | myQueue queue =>
      simp only [IQueue.clear, QueueRep.clear, Option.bind_eq_bind, Option.map_eq_some_iff,
        Option.bind_eq_some_iff, Option.some.injEq, Prod.exists, Prod.mk.injEq] at hone htwo
      obtain ⟨_, _, ⟨_, hfree, rfl, rfl⟩, rfl, rfl⟩ := hone
      obtain ⟨_, _, ⟨_, hfree', rfl, rfl⟩, rfl, rfl⟩ := htwo
      exact ⟨rfl, PoolState.freeAll_unique hfree' hfree⟩
  | safeQueue safe =>
      simp only [IQueue.clear, SafeQueueRep.clear, QueueRep.clear, Option.bind_eq_bind,
        Option.map_eq_some_iff, Option.bind_eq_some_iff, Option.some.injEq, Prod.exists,
        Prod.mk.injEq] at hone htwo
      obtain ⟨_, _, ⟨_, _, ⟨_, hfree, rfl, rfl⟩, rfl, rfl⟩, rfl, rfl⟩ := hone
      obtain ⟨_, _, ⟨_, _, ⟨_, hfree', rfl, rfl⟩, rfl, rfl⟩, rfl, rfl⟩ := htwo
      exact ⟨rfl, PoolState.freeAll_unique hfree' hfree⟩

end IQueue

/-! ## Every run is one of a list -/

namespace QueueState

variable {T : Type} {layout : NodeLayout T} {s next : QueueState} {items : List T}
  {nodes : List Nat} {op : QueueOp T}

/-- The queue holds these data. -/
def Holds (layout : NodeLayout T) (s : QueueState) (items : List T) : Prop :=
  s.queue.Unlocked ∧ ∃ nodes, Represents layout s.queue.rep s.heap s.live nodes items

/-- Taking a pair out by its pointer. -/
theorem eraseP_eq_erase {live : List (Nat × Nat)} {p block : Nat}
    (honce : (live.map Prod.fst).Nodup) (hlive : (p, block) ∈ live) :
    live.eraseP (fun entry => entry.1 = p) = live.erase (p, block) := by
  induction live with
  | nil => cases hlive
  | cons entry rest ih =>
      rw [List.map_cons, List.nodup_cons] at honce
      rcases List.mem_cons.mp hlive with rfl | hmem
      · rw [List.erase_cons_head, List.eraseP_cons_of_pos (by simp)]
      · have hne : entry.1 ≠ p := by
          intro hsame
          exact honce.1 (hsame ▸ List.mem_map_of_mem hmem)
        have hpair : entry ≠ (p, block) := fun hsame => hne (congrArg Prod.fst hsame)
        rw [List.erase_cons_tail (by simpa using hpair),
          List.eraseP_cons_of_neg (by simpa using hne), ih honce.2 hmem]

theorem Constructed.holds (hmade : s.Constructed layout) : s.Holds layout [] := by
  obtain ⟨hnone, safeType, heap, fresh, poolSize, hcreate, hapart, hfresh⟩ := hmade
  obtain ⟨rep, hnew, hrep, hunlocked⟩ : ∃ rep, QueueRep.new layout heap fresh poolSize =
      some (rep, s.heap) ∧ s.queue.rep = rep ∧ s.queue.Unlocked := by
    cases safeType with
    | unSafe =>
        rw [IQueue.createQueue, Option.map_eq_some_iff] at hcreate
        obtain ⟨⟨rep, _⟩, hnew, hsame⟩ := hcreate
        obtain ⟨hqueue, rfl⟩ := Prod.mk.inj hsame
        exact ⟨rep, hnew, hqueue ▸ rfl, hqueue ▸ trivial⟩
    | safe =>
        rw [IQueue.createQueue, Option.map_eq_some_iff] at hcreate
        obtain ⟨⟨safe, _⟩, hsafe, hsame⟩ := hcreate
        obtain ⟨hqueue, rfl⟩ := Prod.mk.inj hsame
        simp only [SafeQueueRep.new, Option.bind_eq_bind, Option.bind_eq_some_iff,
          Option.some.injEq, Prod.exists, Prod.mk.injEq] at hsafe
        obtain ⟨rep, _, hnew, rfl, rfl⟩ := hsafe
        exact ⟨rep, hnew, hqueue ▸ rfl, hqueue ▸ rfl⟩
  simp only [QueueRep.new, Option.bind_eq_bind, Option.bind_eq_some_iff, Option.some.injEq,
    Prod.exists, Prod.mk.injEq] at hnew
  obtain ⟨pool, heap', hpool, rfl, rfl⟩ := hnew
  have hpoolEq : s.queue.rep.memoryPool = pool := congrArg QueueRep.memoryPool hrep
  have hlt : (poolSize % 65536).toNat < 65536 := by omega
  have hunit := nUnitSize_of_new hpool
  have hproduct := product_of_new hpool
  have hfits := layout.fits
  have hmod : (layout.nodeSize % 65536 + 2) % 65536 = layout.nodeSize + 2 := by omega
  have hmade : PoolState.Constructed ⟨pool, s.heap, []⟩ := by
    refine ⟨rfl, heap, fresh, _, _, _, hpool, hapart, hpoolEq ▸ hfresh, ?_, hlt, hlt, hproduct,
      hproduct⟩
    exact Nat.mod_lt _ (by decide)
  refine ⟨hunlocked, [], ?_⟩
  rw [hrep, hnone]
  exact ⟨hmade.explained, hunit.trans hmod, List.Perm.refl _, trivial, rfl, rfl, rfl, rfl⟩

theorem Holds.sound (hholds : s.Holds layout items) : ∃ nodes, s.Sound layout nodes items := by
  obtain ⟨_, nodes, hrep⟩ := hholds
  obtain ⟨chunks, hinv⟩ := hrep.explained
  have hpayload : s.poolState.payloadSize = layout.nodeSize := by
    rw [PoolState.payloadSize, QueueState.poolState, hrep.unitSize, Nat.add_sub_cancel]
  refine ⟨nodes, hrep.linked, hrep.head, hrep.tail, hrep.size, hrep.data, hrep.units, hinv.safe, ?_⟩
  intro op next hstep hop p base hlive hkept
  have hsame : layout.SameAt s.heap next.heap p := fun address hlower hupper =>
    PoolState.Inv.step_bytes hinv hstep hop hlive hkept hlower (hpayload ▸ hupper)
  exact ⟨hsame.data, hsame.next⟩

variable [Inhabited T]

theorem front_of_represents {queue : QueueRep} {heap : Heap} {live : List (Nat × Nat)}
    (hrep : Represents layout queue heap live nodes items) :
    queue.front layout heap = items.headD default := by
  rw [QueueRep.front, hrep.head, ← hrep.data]
  cases nodes with
  | nil => rfl
  | cons node rest => rfl

/-- Every call returns what it does for a list, and leaves a queue that holds
what the list would. -/
theorem Holds.exec (hholds : s.Holds layout items) (hgrow : s.CanGrow op) :
    ∃ fuel queue heap, s.exec layout fuel op = some (Fifo.answer items op, queue, heap) ∧
      Holds layout ⟨queue, heap, s.liveAfter op⟩ (Fifo.after items op) := by
  obtain ⟨hunlocked, nodes, hrep⟩ := id hholds
  cases op with
  | push data fresh =>
      obtain ⟨p, block, pool, heap₁, rep', heap', halloc, hblock, hpush, hrep'⟩ :=
        hrep.push hgrow data
      obtain ⟨queue', hpush', rfl, hunlocked'⟩ := IQueue.push_of_rep hunlocked hpush
      refine ⟨0, queue', heap', ?_, hunlocked', nodes ++ [p], ?_⟩
      · rw [QueueState.exec, hpush', Option.map_some]
        rfl
      · have hlive : s.liveAfter (.push data fresh : QueueOp T) = (p, block) :: s.live := by
          simp only [liveAfter, halloc, hblock, Option.getD_some]
        rw [hlive]
        exact hrep'
  | pop =>
      cases nodes with
      | nil =>
          have hhead : s.queue.rep.head = none := hrep.head
          have hitems : items = [] := hrep.data.symm
          have hpop : s.queue.rep.pop layout s.heap = some (default, s.queue.rep, s.heap) := by
            rw [QueueRep.pop, hhead]
          obtain ⟨queue', hpop', hsame, hunlocked'⟩ := IQueue.pop_of_rep hunlocked hpop
          have hlive : s.liveAfter (.pop : QueueOp T) = s.live := by
            simp only [liveAfter, hhead]
          refine ⟨0, queue', s.heap, ?_, hunlocked', [], ?_⟩
          · rw [QueueState.exec, hpop', Option.map_some, hitems]
            rfl
          · rw [hsame, hlive]
            subst hitems
            exact hrep
      | cons p rest =>
          obtain ⟨block, pool, heap', item, more, hmem, hitems, _, hpop, hrep'⟩ := hrep.pop
          obtain ⟨queue', hpop', hsame, hunlocked'⟩ := IQueue.pop_of_rep hunlocked hpop
          have hhead : s.queue.rep.head = some p := hrep.head
          obtain ⟨chunks, hinv⟩ := hrep.explained
          have hlive : s.liveAfter (.pop : QueueOp T) = s.live.erase (p, block) := by
            simp only [liveAfter, hhead]
            exact eraseP_eq_erase hinv.once hmem
          refine ⟨0, queue', heap', ?_, hunlocked', rest, ?_⟩
          · rw [QueueState.exec, hpop', Option.map_some, hitems]
            rfl
          · rw [hsame, hlive, hitems]
            exact hrep'
  | front =>
      refine ⟨0, _, _, ?_, hholds⟩
      rw [QueueState.exec, IQueue.front_eq, front_of_represents hrep]
      rfl
  | clear =>
      obtain ⟨fuel, heap', hclear, hrep'⟩ := hrep.clear
      obtain ⟨queue', hclear', hsame, hunlocked'⟩ := IQueue.clear_of_rep hunlocked hclear
      refine ⟨fuel, queue', heap', ?_, hunlocked', [], ?_⟩
      · rw [QueueState.exec, hclear', Option.map_some]
        rfl
      · rw [hsame]
        exact hrep'
  | size => 
      refine ⟨0, _, _, ?_, hholds⟩
      rw [QueueState.exec, IQueue.size_eq, hrep.size, ← hrep.data, Fifo.answer, List.length_map]
  | hasData =>
      refine ⟨0, _, _, ?_, hholds⟩
      rw [QueueState.exec, IQueue.hasData_eq, hrep.size, ← hrep.data]
      cases nodes with
      | nil => rfl
      | cons node rest => simp [Fifo.answer]

/-- A call has one outcome. -/
theorem exec_unique {fuel fuel' : Nat} {one two : QueueAnswer T × IQueue × Heap}
    (hone : s.exec layout fuel op = some one) (htwo : s.exec layout fuel' op = some two) :
    one = two := by
  cases op with
  | clear =>
      simp only [exec, Option.map_eq_some_iff, Prod.exists] at hone htwo
      obtain ⟨_, _, hclear, rfl⟩ := hone
      obtain ⟨_, _, hclear', rfl⟩ := htwo
      obtain ⟨rfl, rfl⟩ := IQueue.clear_unique hclear hclear'
      rfl
  | _ => exact Option.some.inj (hone.symm.trans htwo)

/-- A step of the queue is one of the list. -/
theorem Holds.step {label : QueueOp T × QueueAnswer T} (hholds : s.Holds layout items)
    (hstep : s.Step layout label next) :
    ∃ items', Fifo.Step items label items' ∧ next.Holds layout items' := by
  obtain ⟨hgrow, ⟨fuel, hexec⟩, hlive⟩ := hstep
  obtain ⟨fuel', queue, heap, hexec', hholds'⟩ := hholds.exec hgrow
  obtain ⟨hanswer, hqueue, hheap⟩ : label.2 = _ ∧ next.queue = queue ∧ next.heap = heap := by
    have hsame := exec_unique hexec hexec'
    rw [Prod.mk.injEq, Prod.mk.injEq] at hsame
    exact hsame
  refine ⟨Fifo.after items label.1, ⟨hanswer, rfl⟩, ?_⟩
  rw [← hlive, ← hqueue, ← hheap] at hholds'
  exact hholds'

/-- A run from the construction on is a run of a list from nothing on. -/
theorem exists_fifo_run {start : QueueState} {labels : List (QueueOp T × QueueAnswer T)}
    (hmade : start.Constructed layout) (hruns : Machine.Runs (Step layout) start labels s) :
    ∃ items, Machine.Runs Fifo.Step [] labels items ∧ s.Holds layout items := by
  have hsimulate : ∀ (state : QueueState) (items : List T) (label : QueueOp T × QueueAnswer T)
      (next : QueueState), state.Holds layout items → state.Step layout label next →
      ∃ items', Fifo.Step items label items' ∧ next.Holds layout items' :=
    fun _ _ _ _ hholds hstep => hholds.step hstep
  exact Machine.Runs.simulate hsimulate hmade.holds hruns

end QueueState

/-- Whatever was called, and answered, is what a list answers to the same
calls; the nodes of the queue form a chain with the data of that list, are the
live units of the pool, and are not touched by it; and every call returns. -/
theorem queue_refines_fifo {T : Type} [Inhabited T] (layout : NodeLayout T)
    {start s : QueueState} {labels : List (QueueOp T × QueueAnswer T)}
    (hmade : start.Constructed layout)
    (hruns : Machine.Runs (QueueState.Step layout) start labels s) :
    ∃ items, Machine.Runs Fifo.Step [] labels items ∧ (∃ nodes, s.Sound layout nodes items) ∧
      ∀ op, s.CanGrow op → ∃ fuel result, s.exec layout fuel op = some result := by
  obtain ⟨items, hfifo, hholds⟩ := QueueState.exists_fifo_run hmade hruns
  refine ⟨items, hfifo, hholds.sound, ?_⟩
  intro op hgrow
  obtain ⟨fuel, queue, heap, hexec, _⟩ := hholds.exec hgrow
  exact ⟨fuel, _, hexec⟩

/-- A node of one byte. -/
def byteNode : NodeLayout Byte where
  dataSize := 1
  nextOffset := 8
  nodeSize := 16
  encode data := [data]
  decode cells := cells.headD 0
  encode_length _ := rfl
  decode_encode _ := rfl
  data_before := by decide
  next_inside := by decide
  fits := by decide

/-- A new queue of bytes, in a heap with nothing else; its pool has two units. -/
def byteQueue : Option QueueState :=
  (IQueue.createQueue byteNode .unSafe vacant 4096 2).map fun (queue, heap) => ⟨queue, heap, []⟩

/-- The free units of the block at the head of the pool. -/
def headFree (s : QueueState) : Option Nat :=
  s.queue.rep.memoryPool.pBlock.bind fun head => (s.heap.block head).map MemoryBlock.nFree

theorem canGrow_of_headFree {s : QueueState} {free : Nat} (hfree : headFree s = some (free + 1))
    (op : QueueOp Byte) : s.CanGrow op := by
  cases op with
  | push data fresh =>
      rintro ⟨head, header, hhead, hfound, hnone⟩
      rw [headFree, hhead, Option.bind_some, hfound, Option.map_some, hnone] at hfree
      cases hfree
  | _ => trivial

theorem constructed_of_byteQueue {s : QueueState} (hs : byteQueue = some s)
    (hsize : s.queue.rep.memoryPool.nUnitSize = 18) : s.Constructed byteNode := by
  obtain ⟨⟨queue, heap⟩, hcreate, rfl⟩ := Option.map_eq_some_iff.mp hs
  refine ⟨rfl, .unSafe, vacant, 4096, 2, hcreate, vacant_apart, ?_⟩
  rw [hsize]
  exact vacant_fresh (by decide) (by decide)

/-- A call of the queue and the state after it. -/
def moved (s : QueueState) (op : QueueOp Byte) : Option (QueueAnswer Byte × QueueState) :=
  (s.exec byteNode 0 op).map fun (answer, queue, heap) => (answer, ⟨queue, heap, s.liveAfter op⟩)

theorem step_of_moved {s next : QueueState} {op : QueueOp Byte} {answer : QueueAnswer Byte}
    (hgrow : s.CanGrow op) (hmoved : moved s op = some (answer, next)) :
    s.Step byteNode (op, answer) next := by
  obtain ⟨⟨answer', queue, heap⟩, hexec, hsame⟩ := Option.map_eq_some_iff.mp hmoved
  obtain ⟨rfl, rfl⟩ := Prod.mk.inj hsame
  exact ⟨hgrow, ⟨0, hexec⟩, rfl⟩

/-- Both units of the pool are pushed, and one of the bytes is popped. -/
theorem queue_refines_fifo_two : ∃ start s : QueueState, start.Constructed byteNode ∧
    Machine.Runs (QueueState.Step byteNode) start
      [(.push 7 8192, .void), (.push 9 8192, .void), (.pop, .data 7)] s ∧
    ∃ nodes, s.Sound byteNode nodes [9] := by
  have hcomputed : (byteQueue.bind fun start => (moved start (.push 7 8192)).bind fun first =>
      (moved first.2 (.push 9 8192)).bind fun second => (moved second.2 .pop).map fun _ =>
      (start.queue.rep.memoryPool.nUnitSize, headFree start, headFree first.2)) =
      some (18, some 2, some 1) := by
    decide +kernel
  simp only [Option.bind_eq_some_iff, Option.map_eq_some_iff, Prod.exists, Prod.mk.injEq]
    at hcomputed
  obtain ⟨start, hstart, answer, first, hfirst, answer', second, hsecond, answer'', last, hlast,
    hsize, htwo, hone⟩ := hcomputed
  have hmade := constructed_of_byteQueue hstart hsize
  have hpush := step_of_moved (canGrow_of_headFree htwo _) hfirst
  have hpush' := step_of_moved (canGrow_of_headFree hone _) hsecond
  have hnone : second.CanGrow (.pop : QueueOp Byte) := trivial
  have hpop := step_of_moved hnone hlast
  have hruns := ((Machine.Runs.single hpush).next hpush').next hpop
  obtain ⟨items, hfifo, hsound, _⟩ := queue_refines_fifo byteNode hmade hruns
  -- the list's answers are those of the labels
  obtain ⟨_, hbefore, hthird, rfl⟩ := Machine.Runs.snoc_iff.mp hfifo
  obtain ⟨_, hbefore', htwice, rfl⟩ := Machine.Runs.snoc_iff.mp hbefore
  obtain ⟨honce, rfl⟩ := Machine.Runs.single_iff.mp hbefore'
  change answer = .void at honce
  change answer' = .void at htwice
  change answer'' = .data 7 at hthird
  subst honce htwice hthird
  exact ⟨start, last, hmade, hruns, hsound⟩

/-! ## The queue as its nodes -/

namespace MyQueue

variable {T : Type} [Inhabited T] {queue : MyQueue T}

/-- A call of the queue that is kept as a list and a size. -/
def exec (queue : MyQueue T) : QueueOp T → QueueAnswer T × MyQueue T
  | .push data _ => (.void, queue.push data)
  | .pop => (.data (queue.pop.1.getD default), queue.pop.2)
  | .front => (.data (queue.front.getD default), queue)
  | .clear => (.void, queue.clear)
  | .size => (.size queue.size, queue)
  | .hasData => (.flag queue.hasData, queue)

def Step (queue : MyQueue T) (label : QueueOp T × QueueAnswer T) (queue' : MyQueue T) : Prop :=
  queue.exec label.1 = (label.2, queue')

theorem answer_eq (hcounted : queue.Counted) (op : QueueOp T) :
    (queue.exec op).1 = Fifo.answer queue.nodes op := by
  have hsize : queue.size = queue.nodes.length := hcounted
  cases op with
  | push data fresh => rfl
  | clear => rfl
  | pop =>
      rw [exec, MyQueue.pop, Fifo.answer]
      cases queue.nodes <;> rfl
  | front =>
      rw [exec, MyQueue.front, Fifo.answer]
      cases queue.nodes <;> rfl
  | size => rw [exec, hsize, Fifo.answer]
  | hasData =>
      rw [exec, MyQueue.hasData, hsize, Fifo.answer]
      cases queue.nodes with
      | nil => rfl
      | cons data rest => simp

theorem nodes_eq (queue : MyQueue T) (op : QueueOp T) :
    (queue.exec op).2.nodes = Fifo.after queue.nodes op := by
  cases op with
  | pop =>
      cases hnodes : queue.nodes with
      | nil => rw [exec, MyQueue.pop, hnodes]; exact hnodes
      | cons data rest => rw [exec, pop_of_cons hnodes]; rfl
  | _ => rfl

theorem Counted.exec (hcounted : queue.Counted) (op : QueueOp T) :
    (queue.exec op).2.Counted := by
  cases op with
  | push data fresh => exact hcounted.push data
  | clear => exact clear_counted queue
  | pop =>
      cases hnodes : queue.nodes with
      | nil =>
          have hpop : queue.pop = (none, queue) := by rw [MyQueue.pop, hnodes]
          rw [MyQueue.exec, hpop]
          exact hcounted
      | cons data rest =>
          rw [MyQueue.exec, pop_of_cons hnodes]
          exact hcounted.pop hnodes
  | _ => exact hcounted

end MyQueue

/-- So every run of a queue in memory is one of the queue that the rest of the
development uses. -/
theorem queue_refines_myQueue {T : Type} [Inhabited T] (layout : NodeLayout T)
    {start s : QueueState} {labels : List (QueueOp T × QueueAnswer T)}
    (hmade : start.Constructed layout)
    (hruns : Machine.Runs (QueueState.Step layout) start labels s) :
    ∃ queue : MyQueue T, Machine.Runs MyQueue.Step .new labels queue ∧
      ∃ nodes, s.Sound layout nodes queue.nodes := by
  have hsimulate : ∀ (items : List T) (queue : MyQueue T) (label : QueueOp T × QueueAnswer T)
      (items' : List T), queue.Counted ∧ queue.nodes = items → Fifo.Step items label items' →
      ∃ queue' : MyQueue T, queue.Step label queue' ∧ queue'.Counted ∧ queue'.nodes = items' := by
    rintro _ queue label _ ⟨hcounted, rfl⟩ ⟨hanswer, rfl⟩
    refine ⟨(queue.exec label.1).2, ?_, hcounted.exec label.1, queue.nodes_eq label.1⟩
    rw [MyQueue.Step, hanswer, ← MyQueue.answer_eq hcounted]
  obtain ⟨items, hfifo, hholds⟩ := QueueState.exists_fifo_run hmade hruns
  have hstart : (MyQueue.new : MyQueue T).Counted ∧ (MyQueue.new : MyQueue T).nodes = [] :=
    ⟨MyQueue.new_counted, rfl⟩
  obtain ⟨queue, hqueue, _, rfl⟩ := Machine.Runs.simulate hsimulate hstart hfifo
  exact ⟨queue, hqueue, hholds.sound⟩

end SelectNet
