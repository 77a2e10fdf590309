import SelectNet.CommonLib.MemoryPool

/-!
# Queues in memory

`MyQueue` and `SafeQueue` down to their nodes, which live in units of a
`MemoryPool`. How a node is laid out is a parameter. A null pointer that is
followed makes an operation return nothing; so does a lock that is taken twice.
-/

namespace SelectNet

/-- A type the queue can hold, and `QueueNode` of it as the compiler lays it
out. The sizes of a pool are `USHORT`s, so that a node has to be smaller. -/
structure NodeLayout (T : Type) where
  dataSize : Nat
  nextOffset : Nat
  nodeSize : Nat
  encode : T → List Byte
  decode : List Byte → T
  encode_length : ∀ data, (encode data).length = dataSize
  decode_encode : ∀ data, decode (encode data) = data
  data_before : dataSize ≤ nextOffset
  next_inside : nextOffset + 8 ≤ nodeSize
  fits : nodeSize + 2 < 65536

namespace NodeLayout

variable {T : Type} (layout : NodeLayout T)

/-- `node->_data` -/
def data (heap : Heap) (node : Nat) : T := layout.decode (heap.bytes.read node layout.dataSize)

/-- `node->_pNext` -/
def next (heap : Heap) (node : Nat) : Option Nat :=
  let value := number (heap.bytes.read (node + layout.nextOffset) 8)
  if value = 0 then none else some value

/-- `node->_data = data` -/
def storeData (heap : Heap) (node : Nat) (data : T) : Heap := heap.write node (layout.encode data)

/-- `node->_pNext = next` -/
def storeNext (heap : Heap) (node : Nat) (next : Option Nat) : Heap :=
  heap.write (node + layout.nextOffset) (numberBytes 8 (next.getD 0))

/-- The bytes of a node are the same. -/
def SameAt (heap heap' : Heap) (node : Nat) : Prop :=
  ∀ address, node ≤ address → address < node + layout.nodeSize →
    heap'.bytes address = heap.bytes address

variable {layout} {heap heap' heap'' : Heap} {node other : Nat}

theorem SameAt.trans (hfirst : layout.SameAt heap heap' node)
    (hsecond : layout.SameAt heap' heap'' node) : layout.SameAt heap heap'' node :=
  fun address hlower hupper =>
    (hsecond address hlower hupper).trans (hfirst address hlower hupper)

theorem SameAt.data (hsame : layout.SameAt heap heap' node) :
    layout.data heap' node = layout.data heap node := by
  have hdata := layout.data_before
  have hnext := layout.next_inside
  refine congrArg layout.decode (Memory.read_congr _ ?_)
  intro address hlower hupper
  exact hsame address hlower (by omega)

theorem SameAt.next (hsame : layout.SameAt heap heap' node) :
    layout.next heap' node = layout.next heap node := by
  have hinside := layout.next_inside
  have hread : heap'.bytes.read (node + layout.nextOffset) 8 =
      heap.bytes.read (node + layout.nextOffset) 8 := by
    apply Memory.read_congr
    intro address hlower hupper
    exact hsame address (by omega) (by omega)
  rw [NodeLayout.next, NodeLayout.next, hread]

/-- Writing inside one node is not seen in another. -/
theorem sameAt_write (hapart : node + layout.nodeSize ≤ other ∨ other + layout.nodeSize ≤ node)
    {start : Nat} {cells : List Byte} (hlower : node ≤ start)
    (hupper : start + cells.length ≤ node + layout.nodeSize) :
    layout.SameAt heap (heap.write start cells) other := by
  intro address hfrom hto
  rcases hapart with hbefore | hafter
  · exact Memory.write_of_ge _ _ (by omega)
  · exact Memory.write_of_lt _ _ (by omega)

theorem storeData_same (hapart : node + layout.nodeSize ≤ other ∨ other + layout.nodeSize ≤ node)
    (data : T) : layout.SameAt heap (layout.storeData heap node data) other := by
  have hdata := layout.data_before
  have hnext := layout.next_inside
  have hlength := layout.encode_length data
  exact sameAt_write hapart (Nat.le_refl _) (by omega)

theorem storeNext_same (hapart : node + layout.nodeSize ≤ other ∨ other + layout.nodeSize ≤ node)
    (next : Option Nat) : layout.SameAt heap (layout.storeNext heap node next) other := by
  have hnext := layout.next_inside
  have hlength := numberBytes_length 8 (next.getD 0)
  exact sameAt_write hapart (Nat.le_add_right _ _) (by omega)

@[simp] theorem data_storeData (heap : Heap) (node : Nat) (data : T) :
    layout.data (layout.storeData heap node data) node = data := by
  have hread := Memory.read_write heap.bytes node (layout.encode data)
  rw [layout.encode_length] at hread
  exact (congrArg layout.decode hread).trans (layout.decode_encode data)

@[simp] theorem data_storeNext (heap : Heap) (node : Nat) (next : Option Nat) :
    layout.data (layout.storeNext heap node next) node = layout.data heap node :=
  congrArg layout.decode
    (Memory.read_write_before _ _ (Nat.add_le_add_left layout.data_before node))

theorem next_storeNext (heap : Heap) (node : Nat) {next : Option Nat}
    (hnext : ∀ address, next = some address → 0 < address ∧ address < 2 ^ 64) :
    layout.next (layout.storeNext heap node next) node = next := by
  have hread := Memory.read_write heap.bytes (node + layout.nextOffset)
    (numberBytes 8 (next.getD 0))
  rw [numberBytes_length] at hread
  have hvalue : number ((layout.storeNext heap node next).bytes.read
      (node + layout.nextOffset) 8) = next.getD 0 := by
    refine (congrArg number hread).trans (number_numberBytes ?_)
    cases next with
    | none => exact Nat.two_pow_pos 64
    | some address => exact (hnext address rfl).2
  rw [NodeLayout.next, hvalue]
  cases next with
  | none => rfl
  | some address => exact if_neg (hnext address rfl).1.ne'

end NodeLayout

/-- The fields of `MyQueue`. -/
structure QueueRep where
  size : Int
  head : Option Nat
  tail : Option Nat
  memoryPool : MemoryPool

namespace QueueRep

variable {T : Type} [Inhabited T] (layout : NodeLayout T)

def new (heap : Heap) (fresh : Nat) (poolSize : Int) : Option (QueueRep × Heap) := do
  let units := (poolSize % 65536).toNat
  let (memoryPool, heap) ← MemoryPool.new heap fresh (layout.nodeSize % 65536) units units
  some ({ size := 0, head := none, tail := none, memoryPool }, heap)

def clear (fuel : Nat) (queue : QueueRep) (heap : Heap) : Option (QueueRep × Heap) := do
  let heap ← queue.memoryPool.freeAll fuel heap
  some ({ queue with size := 0, head := none, tail := none }, heap)

def push (queue : QueueRep) (heap : Heap) (fresh : Nat) (newData : T) :
    Option (QueueRep × Heap) := do
  let size := queue.size + 1
  let (newNode, memoryPool, heap) ← queue.memoryPool.alloc heap fresh
  let heap := layout.storeData heap newNode newData
  match queue.head with
  | some head =>
      let tail ← queue.tail
      let heap := layout.storeNext heap tail (some newNode)
      let heap := layout.storeNext heap newNode none
      some ({ size, head := some head, tail := some newNode, memoryPool }, heap)
  | none =>
      let heap := layout.storeNext heap newNode none
      some ({ size, head := some newNode, tail := some newNode, memoryPool }, heap)

def front (queue : QueueRep) (heap : Heap) : T :=
  match queue.head with
  | none => default
  | some head => layout.data heap head

def pop (queue : QueueRep) (heap : Heap) : Option (T × QueueRep × Heap) :=
  match queue.head with
  | none => some (default, queue, heap)
  | some oldHead => do
      let size := queue.size - 1
      let head := layout.next heap oldHead
      let tail := if head = none then none else queue.tail
      let data := layout.data heap oldHead
      let (memoryPool, heap) ← queue.memoryPool.free heap oldHead
      some (data, { size, head, tail, memoryPool }, heap)

def hasData (queue : QueueRep) : Bool := decide (0 < queue.size)

end QueueRep

/-- `SafeQueue`: a queue behind a lock. -/
structure SafeQueueRep where
  mu : Bool
  queue : QueueRep

namespace SafeQueueRep

variable {T : Type} [Inhabited T] (layout : NodeLayout T)

def new (heap : Heap) (fresh : Nat) (poolSize : Int) : Option (SafeQueueRep × Heap) := do
  let (queue, heap) ← QueueRep.new layout heap fresh poolSize
  some ({ mu := false, queue }, heap)

def lock (safe : SafeQueueRep) : Option SafeQueueRep :=
  if safe.mu then none else some { safe with mu := true }

def unlock (safe : SafeQueueRep) : SafeQueueRep := { safe with mu := false }

def push (safe : SafeQueueRep) (heap : Heap) (fresh : Nat) (data : T) :
    Option (SafeQueueRep × Heap) := do
  let safe ← safe.lock
  let (queue, heap) ← safe.queue.push layout heap fresh data
  let safe := { safe with queue }
  some (safe.unlock, heap)

def pop (safe : SafeQueueRep) (heap : Heap) : Option (T × SafeQueueRep × Heap) := do
  let safe ← safe.lock
  let (data, queue, heap) ← safe.queue.pop layout heap
  let safe := { safe with queue }
  some (data, safe.unlock, heap)

def front (safe : SafeQueueRep) (heap : Heap) : T := safe.queue.front layout heap

def hasData (safe : SafeQueueRep) : Bool := decide (0 < safe.queue.size)

def clear (fuel : Nat) (safe : SafeQueueRep) (heap : Heap) : Option (SafeQueueRep × Heap) := do
  let (queue, heap) ← safe.queue.clear fuel heap
  some ({ safe with queue }, heap)

def size (safe : SafeQueueRep) : Int := safe.queue.size

end SafeQueueRep

/-- An `IQueue`, by its class. -/
inductive IQueue where
  | myQueue (queue : QueueRep)
  | safeQueue (queue : SafeQueueRep)

namespace IQueue

variable {T : Type} [Inhabited T] (layout : NodeLayout T)

/-- `Factory::createQueue` -/
def createQueue (safeType : ThreadSafeType) (heap : Heap) (fresh : Nat) (poolSize : Int) :
    Option (IQueue × Heap) :=
  match safeType with
  | .safe => (SafeQueueRep.new layout heap fresh poolSize).map fun (queue, heap) =>
      (.safeQueue queue, heap)
  | .unSafe => (QueueRep.new layout heap fresh poolSize).map fun (queue, heap) =>
      (.myQueue queue, heap)

/-- The `MyQueue` behind the interface. -/
def rep : IQueue → QueueRep
  | .myQueue queue => queue
  | .safeQueue safe => safe.queue

def push (queue : IQueue) (heap : Heap) (fresh : Nat) (data : T) : Option (IQueue × Heap) :=
  match queue with
  | .myQueue queue => (queue.push layout heap fresh data).map fun (queue, heap) =>
      (.myQueue queue, heap)
  | .safeQueue safe => (safe.push layout heap fresh data).map fun (safe, heap) =>
      (.safeQueue safe, heap)

def pop (queue : IQueue) (heap : Heap) : Option (T × IQueue × Heap) :=
  match queue with
  | .myQueue queue => (queue.pop layout heap).map fun (data, queue, heap) =>
      (data, .myQueue queue, heap)
  | .safeQueue safe => (safe.pop layout heap).map fun (data, safe, heap) =>
      (data, .safeQueue safe, heap)

def front (queue : IQueue) (heap : Heap) : T :=
  match queue with
  | .myQueue queue => queue.front layout heap
  | .safeQueue safe => safe.front layout heap

def clear (fuel : Nat) (queue : IQueue) (heap : Heap) : Option (IQueue × Heap) :=
  match queue with
  | .myQueue queue => (queue.clear fuel heap).map fun (queue, heap) => (.myQueue queue, heap)
  | .safeQueue safe => (safe.clear fuel heap).map fun (safe, heap) => (.safeQueue safe, heap)

def size : IQueue → Int
  | .myQueue queue => queue.size
  | .safeQueue safe => safe.size

def hasData : IQueue → Bool
  | .myQueue queue => queue.hasData
  | .safeQueue safe => safe.hasData

/-- Nobody is inside an operation. -/
def Unlocked : IQueue → Prop
  | .myQueue _ => True
  | .safeQueue safe => safe.mu = false

end IQueue

end SelectNet
