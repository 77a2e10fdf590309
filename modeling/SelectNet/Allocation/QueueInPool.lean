import SelectNet.Allocation.PoolSteps
import SelectNet.CommonLib.QueueRep

/-!
# Queues keep their nodes in their pool

A queue is a chain of nodes, each a live unit of the queue's pool, and every
live unit is one of them. Each operation keeps that, and does to the data of
the nodes what it would do to a list.
-/

namespace SelectNet

open MemoryPool Heap

variable {T : Type} {layout : NodeLayout T} {heap heap' : Heap} {live : List (Nat × Nat)}
  {pool : MemoryPool} {chunks : List Chunk} {p q block block' : Nat}

/-- The nodes of a queue, and what they hold. -/
structure Represents (layout : NodeLayout T) (queue : QueueRep) (heap : Heap)
    (live : List (Nat × Nat)) (nodes : List Nat) (items : List T) : Prop where
  explained : PoolState.Explained ⟨queue.memoryPool, heap, live⟩
  unitSize : queue.memoryPool.nUnitSize = layout.nodeSize + 2
  /-- The live units of the pool are the nodes. -/
  units : (live.map Prod.fst).Perm nodes
  linked : LinkedTo (layout.next heap) nodes
  head : queue.head = nodes.head?
  tail : queue.tail = nodes.getLast?
  size : queue.size = nodes.length
  data : nodes.map (layout.data heap) = items

/-! ## Nodes as units -/

section Units

/-- Two nodes do not overlap. -/
theorem nodes_apart (hinv : PoolState.Inv ⟨pool, heap, live⟩ chunks)
    (hsize : pool.nUnitSize = layout.nodeSize + 2) (hp : (p, block) ∈ live)
    (hq : (q, block') ∈ live) (hne : p ≠ q) :
    p + layout.nodeSize ≤ q ∨ q + layout.nodeSize ≤ p := by
  have hapart := hinv.stores.payloads_apart ((hinv.live _ _).mp hp) ((hinv.live _ _).mp hq) hne
  rw [hsize, Nat.add_sub_cancel] at hapart
  exact hapart

theorem inv_storeData (hinv : PoolState.Inv ⟨pool, heap, live⟩ chunks)
    (hsize : pool.nUnitSize = layout.nodeSize + 2) (hp : (p, block) ∈ live) (data : T) :
    PoolState.Inv ⟨pool, layout.storeData heap p data, live⟩ chunks := by
  have hdata := layout.data_before
  have hnext := layout.next_inside
  have hinside : 0 + (layout.encode data).length ≤ pool.nUnitSize - 2 := by
    rw [hsize, layout.encode_length]
    omega
  exact hinv.write hp hinside

theorem inv_storeNext (hinv : PoolState.Inv ⟨pool, heap, live⟩ chunks)
    (hsize : pool.nUnitSize = layout.nodeSize + 2) (hp : (p, block) ∈ live)
    (next : Option Nat) :
    PoolState.Inv ⟨pool, layout.storeNext heap p next, live⟩ chunks := by
  have hnext := layout.next_inside
  refine hinv.write hp ?_
  rw [PoolState.payloadSize, hsize, numberBytes_length]
  omega

end Units

namespace Represents

variable {queue queue' : QueueRep} {nodes rest : List Nat} {items : List T} {node : Nat}

theorem mem_live_iff (hrep : Represents layout queue heap live nodes items) :
    node ∈ nodes ↔ ∃ block, (node, block) ∈ live := by
  rw [← hrep.units.mem_iff, List.mem_map]
  constructor
  · rintro ⟨⟨_, block⟩, hmem, rfl⟩
    exact ⟨block, hmem⟩
  · rintro ⟨block, hmem⟩
    exact ⟨_, hmem, rfl⟩

theorem nodup (hrep : Represents layout queue heap live nodes items) : nodes.Nodup := by
  obtain ⟨chunks, hinv⟩ := hrep.explained
  exact hrep.units.nodup_iff.mp hinv.once

/-- A node that the pool has just handed out is none of the queue. -/
theorem ne_of_mem (hrep : Represents layout queue heap live nodes items)
    (hnew : ∀ other, (p, other) ∉ live) (hmem : node ∈ nodes) : p ≠ node := by
  obtain ⟨block, hlive⟩ := hrep.mem_live_iff.mp hmem
  rintro rfl
  exact hnew block hlive

/-! ## `push` -/

/-- What `Alloc` does for a queue: there is one more unit, and the nodes are as
they were. -/
theorem alloc (hrep : Represents layout queue heap live nodes items) {fresh : Nat}
    (hgrow : queue.memoryPool.CanGrow heap fresh) :
    ∃ p block pool heap₁ chunks, queue.memoryPool.alloc heap fresh = some (p, pool, heap₁) ∧
      pool.pBlock = some block ∧ p ∉ nodes ∧
      PoolState.Inv ⟨pool, heap₁, (p, block) :: live⟩ chunks ∧
      pool.nUnitSize = layout.nodeSize + 2 ∧
      ∀ node ∈ nodes, layout.SameAt heap heap₁ node := by
  obtain ⟨chunks, hinv⟩ := hrep.explained
  obtain ⟨p, block, pool, heap₁, _, halloc, hblock, hnew, hnext⟩ := hinv.alloc hgrow
  have hstep := PoolState.Step.alloc hgrow halloc hblock
  obtain ⟨chunks', _, hinv', _, hsize⟩ := hinv.step_chunks hstep
  refine ⟨p, block, pool, heap₁, chunks', halloc, hblock, ?_, hinv', hsize.trans hrep.unitSize, ?_⟩
  · intro hmem
    exact hrep.ne_of_mem hnew hmem rfl
  · intro node hmem address hlower hupper
    obtain ⟨block', hlive⟩ := hrep.mem_live_iff.mp hmem
    have hpayload : PoolState.payloadSize ⟨queue.memoryPool, heap, live⟩ = layout.nodeSize := by
      rw [PoolState.payloadSize, hrep.unitSize, Nat.add_sub_cancel]
    apply hinv.step_bytes hstep (fun _ _ _ hop => by cases hop) hlive
      (List.mem_cons_of_mem _ hlive) hlower
    rw [hpayload]
    exact hupper

/-- A unit that is about to become a node: it has its data, and the nodes of the
queue are as they were. -/
structure NewNode (layout : NodeLayout T) (heap : Heap) (live : List (Nat × Nat))
    (nodes : List Nat) (newData : T) (p block : Nat) (pool : MemoryPool) (heap₂ : Heap) :
    Prop where
  explained : PoolState.Explained ⟨pool, heap₂, (p, block) :: live⟩
  unitSize : pool.nUnitSize = layout.nodeSize + 2
  notNode : p ∉ nodes
  bounds : 0 < p ∧ p < 2 ^ 64
  apart : ∀ node ∈ nodes, p + layout.nodeSize ≤ node ∨ node + layout.nodeSize ≤ p
  old : ∀ node ∈ nodes, layout.SameAt heap heap₂ node
  data : layout.data heap₂ p = newData

theorem newNode (hrep : Represents layout queue heap live nodes items) {fresh : Nat}
    (hgrow : queue.memoryPool.CanGrow heap fresh) (newData : T) :
    ∃ p block pool heap₁, queue.memoryPool.alloc heap fresh = some (p, pool, heap₁) ∧
      pool.pBlock = some block ∧
      NewNode layout heap live nodes newData p block pool (layout.storeData heap₁ p newData) := by
  obtain ⟨p, block, pool, heap₁, chunks, halloc, hblock, hfresh, hinv, hsize, hold⟩ :=
    hrep.alloc hgrow
  have hlive : (p, block) ∈ (p, block) :: live := List.mem_cons_self
  have hapart : ∀ node ∈ nodes, p + layout.nodeSize ≤ node ∨ node + layout.nodeSize ≤ p := by
    intro node hmem
    obtain ⟨block', hlive'⟩ := hrep.mem_live_iff.mp hmem
    apply nodes_apart hinv hsize hlive (List.mem_cons_of_mem _ hlive')
    rintro rfl
    exact hfresh hmem
  refine ⟨p, block, pool, heap₁, halloc, hblock, ⟨chunks, inv_storeData hinv hsize hlive newData⟩,
    hsize, hfresh, hinv.stores.payload_bounds ((hinv.live _ _).mp hlive), hapart, ?_,
    NodeLayout.data_storeData heap₁ p newData⟩
  intro node hmem
  exact (hold node hmem).trans (NodeLayout.storeData_same (hapart node hmem) newData)

variable {newData : T} {heap₂ : Heap}

/-- A pointer to the new node is read back as it was stored. -/
theorem NewNode.next_storeNext (hnew : NewNode layout heap live nodes newData p block pool heap₂)
    (node : Nat) : layout.next (layout.storeNext heap₂ node (some p)) node = some p := by
  apply NodeLayout.next_storeNext
  rintro address ⟨⟩
  exact hnew.bounds

/-- The new node ends the chain. -/
theorem next_end (layout : NodeLayout T) (heap : Heap) (node : Nat) :
    layout.next (layout.storeNext heap node none) node = none := by
  apply NodeLayout.next_storeNext
  rintro address ⟨⟩

/-- The first node. -/
theorem push_first (hrep : Represents layout queue heap live [] items)
    (hnew : NewNode layout heap live [] newData p block pool heap₂) :
    Represents layout ⟨queue.size + 1, some p, some p, pool⟩ (layout.storeNext heap₂ p none)
      ((p, block) :: live) [p] (items ++ [newData]) := by
  obtain ⟨chunks, hinv⟩ := hnew.explained
  have hitems : items = [] := hrep.data.symm
  refine ⟨⟨chunks, inv_storeNext hinv hnew.unitSize List.mem_cons_self none⟩, hnew.unitSize,
    hrep.units.cons p, ⟨next_end layout heap₂ p, trivial⟩, rfl, rfl, ?_, ?_⟩
  · rw [hrep.size]
    rfl
  · rw [hitems, List.nil_append, List.map_singleton, NodeLayout.data_storeNext, hnew.data]

/-- A node behind others: the last of them is made to point at it. -/
theorem push_behind {front : List Nat} {last head : Nat}
    (hrep : Represents layout queue heap live (front ++ [last]) items)
    (hhead : queue.head = some head)
    (hnew : NewNode layout heap live (front ++ [last]) newData p block pool heap₂) :
    Represents layout ⟨queue.size + 1, some head, some p, pool⟩
      (layout.storeNext (layout.storeNext heap₂ last (some p)) p none)
      ((p, block) :: live) (front ++ [last] ++ [p]) (items ++ [newData]) := by
  obtain ⟨chunks, hinv⟩ := hnew.explained
  obtain ⟨heap₃, hheap₃⟩ : ∃ heap₃, layout.storeNext heap₂ last (some p) = heap₃ := ⟨_, rfl⟩
  have hlast : last ∈ front ++ [last] := List.mem_append_right _ List.mem_cons_self
  obtain ⟨block', hlive'⟩ := hrep.mem_live_iff.mp hlast
  have hfront : last ∉ front := by
    intro hmem
    exact (List.nodup_append.mp hrep.nodup).2.2 last hmem last List.mem_cons_self rfl
  have hinv₃ : PoolState.Inv ⟨pool, heap₃, (p, block) :: live⟩ chunks :=
    hheap₃ ▸ inv_storeNext hinv hnew.unitSize (List.mem_cons_of_mem _ hlive') (some p)
  -- the second store is behind the first one's node, the first behind all other nodes
  have hlastApart : last + layout.nodeSize ≤ p ∨ p + layout.nodeSize ≤ last :=
    (hnew.apart last hlast).symm
  have hlater : ∀ node ∈ front ++ [last],
      layout.SameAt heap₃ (layout.storeNext heap₃ p none) node :=
    fun node hmem => NodeLayout.storeNext_same (hnew.apart node hmem) none
  have hothers : ∀ node ∈ front, layout.SameAt heap (layout.storeNext heap₃ p none) node := by
    intro node hmem
    have hmem' : node ∈ front ++ [last] := List.mem_append_left _ hmem
    obtain ⟨block'', hlive''⟩ := hrep.mem_live_iff.mp hmem'
    have hapart := nodes_apart hinv hnew.unitSize (List.mem_cons_of_mem _ hlive')
      (List.mem_cons_of_mem _ hlive'') (fun hsame => hfront (hsame ▸ hmem))
    have hmiddle : layout.SameAt heap₂ heap₃ node :=
      hheap₃ ▸ NodeLayout.storeNext_same hapart (some p)
    exact ((hnew.old node hmem').trans hmiddle).trans (hlater node hmem')
  have hnextLast : layout.next (layout.storeNext heap₃ p none) last = some p := by
    rw [(hlater last hlast).next, ← hheap₃, hnew.next_storeNext]
  have hdataLast : layout.data (layout.storeNext heap₃ p none) last = layout.data heap last := by
    rw [(hlater last hlast).data, ← hheap₃, NodeLayout.data_storeNext, (hnew.old last hlast).data]
  have hdataNew : layout.data (layout.storeNext heap₃ p none) p = newData := by
    have hkept : layout.SameAt heap₂ heap₃ p :=
      hheap₃ ▸ NodeLayout.storeNext_same hlastApart (some p)
    rw [NodeLayout.data_storeNext, hkept.data, hnew.data]
  have hfrontData : front.map (layout.data (layout.storeNext heap₃ p none)) =
      front.map (layout.data heap) :=
    List.map_congr_left fun node hmem => (hothers node hmem).data
  rw [hheap₃]
  refine ⟨⟨chunks, inv_storeNext hinv₃ hnew.unitSize List.mem_cons_self none⟩, hnew.unitSize,
    (hrep.units.cons p).trans (List.perm_append_singleton p _).symm, ?_, ?_, ?_, ?_, ?_⟩
  · rw [List.append_assoc]
    exact hrep.linked.snoc hfront (fun node hmem => (hothers node hmem).next) hnextLast
      (next_end layout heap₃ p)
  · have hsame := hhead.symm.trans hrep.head
    rw [hsame, List.head?_append_of_ne_nil _ (List.ne_nil_of_mem hlast)]
  · rw [List.getLast?_concat]
  · rw [hrep.size, List.length_append, List.length_append, List.length_append]
    rfl
  · have hitems := hrep.data
    rw [List.map_append, List.map_singleton] at hitems
    rw [List.map_append, List.map_append, List.map_singleton, List.map_singleton, hfrontData,
      hdataLast, hdataNew, hitems]

/-- `push` puts a node with the data at the end of the chain. -/
theorem push (hrep : Represents layout queue heap live nodes items) {fresh : Nat}
    (hgrow : queue.memoryPool.CanGrow heap fresh) (newData : T) :
    ∃ p block pool heap₁ queue' heap',
      queue.memoryPool.alloc heap fresh = some (p, pool, heap₁) ∧ pool.pBlock = some block ∧
      queue.push layout heap fresh newData = some (queue', heap') ∧
      Represents layout queue' heap' ((p, block) :: live) (nodes ++ [p]) (items ++ [newData]) := by
  obtain ⟨p, block, pool, heap₁, halloc, hblock, hnew⟩ := hrep.newNode hgrow newData
  cases nodes using List.reverseRecOn with
  | nil =>
      refine ⟨p, block, pool, heap₁, _, _, halloc, hblock, ?_, hrep.push_first hnew⟩
      have hhead : queue.head = none := hrep.head
      simp only [QueueRep.push, halloc, Option.bind_eq_bind, Option.bind_some, hhead]
  | append_singleton front last =>
      have htail : queue.tail = some last := by
        rw [hrep.tail, List.getLast?_concat]
      obtain ⟨head, hhead⟩ : ∃ head, queue.head = some head := by
        rw [hrep.head]
        cases front with
        | nil => exact ⟨last, rfl⟩
        | cons head rest => exact ⟨head, rfl⟩
      refine ⟨p, block, pool, heap₁, _, _, halloc, hblock, ?_, hrep.push_behind hhead hnew⟩
      simp only [QueueRep.push, halloc, Option.bind_eq_bind, Option.bind_some, hhead, htail]

/-! ## `pop` and `clear` -/

/-- `pop` takes the first node out of the chain and gives its unit back. -/
theorem pop [Inhabited T] (hrep : Represents layout queue heap live (p :: rest) items) :
    ∃ block pool heap' item more, (p, block) ∈ live ∧ items = item :: more ∧
      queue.memoryPool.free heap p = some (pool, heap') ∧
      queue.pop layout heap =
        some (item, ⟨queue.size - 1, rest.head?, rest.getLast?, pool⟩, heap') ∧
      Represents layout ⟨queue.size - 1, rest.head?, rest.getLast?, pool⟩ heap'
        (live.erase (p, block)) rest more := by
  obtain ⟨chunks, hinv⟩ := hrep.explained
  obtain ⟨block, hlive⟩ := hrep.mem_live_iff.mp List.mem_cons_self
  obtain ⟨pool, heap', _, hfree, hnext⟩ := hinv.free hlive
  have hstep := PoolState.Step.free hlive hfree
  obtain ⟨chunks', _, hinv', _, hsize⟩ := hinv.step_chunks hstep
  have hunits : (live.map Prod.fst).Perm (p :: rest) := hrep.units
  have hunits' : ((live.erase (p, block)).map Prod.fst).Perm rest :=
    (((List.perm_cons_erase hlive).map Prod.fst).symm.trans hunits).cons_inv
  -- giving the node back to the pool leaves the other nodes alone
  have hsame : ∀ node ∈ rest, layout.SameAt heap heap' node := by
    intro node hmem address hlower hupper
    obtain ⟨block', hkept⟩ : ∃ block', (node, block') ∈ live.erase (p, block) := by
      obtain ⟨⟨_, block'⟩, hkept, rfl⟩ := List.mem_map.mp (hunits'.mem_iff.mpr hmem)
      exact ⟨block', hkept⟩
    have hpayload : PoolState.payloadSize ⟨queue.memoryPool, heap, live⟩ = layout.nodeSize := by
      rw [PoolState.payloadSize, hrep.unitSize, Nat.add_sub_cancel]
    apply hinv.step_bytes hstep (fun _ _ _ hop => by cases hop) (List.mem_of_mem_erase hkept) hkept
      hlower
    rw [hpayload]
    exact hupper
  have hhead : queue.head = some p := hrep.head
  have hnextHead : layout.next heap p = rest.head? := hrep.linked.1
  have htail : (if rest.head? = none then none else queue.tail) = rest.getLast? := by
    rw [hrep.tail]
    cases rest with
    | nil => rfl
    | cons second more => rfl
  have hdata := hrep.data
  rw [List.map_cons] at hdata
  refine ⟨block, pool, heap', _, _, hlive, hdata.symm, hfree, ?_,
    ⟨chunks', hinv'⟩, hsize.trans hrep.unitSize, hunits', ?_, rfl, rfl, ?_, ?_⟩
  · simp only [QueueRep.pop, hhead, hfree, Option.bind_eq_bind, Option.bind_some, hnextHead, htail]
  · exact hrep.linked.2.congr fun node hmem => (hsame node hmem).next
  · have hcount : queue.size - 1 = rest.length := by
      rw [hrep.size, List.length_cons]
      omega
    exact hcount
  · exact List.map_congr_left fun node hmem => (hsame node hmem).data

/-- `clear` gives all units back at once. -/
theorem clear (hrep : Represents layout queue heap live nodes items) :
    ∃ fuel heap', queue.clear fuel heap = some (⟨0, none, none, queue.memoryPool⟩, heap') ∧
      Represents layout ⟨0, none, none, queue.memoryPool⟩ heap' [] [] [] := by
  obtain ⟨chunks, hinv⟩ := hrep.explained
  obtain ⟨fuel, heap', hfree, hnext⟩ := hinv.freeAll
  refine ⟨fuel, heap', ?_, ⟨_, hnext⟩, hrep.unitSize, List.Perm.refl _, trivial, rfl, rfl, rfl, rfl⟩
  have hfree' : queue.memoryPool.freeAll fuel heap = some heap' := hfree
  simp only [QueueRep.clear, hfree', Option.bind_eq_bind, Option.bind_some]

end Represents

end SelectNet
