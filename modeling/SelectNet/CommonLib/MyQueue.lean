import Mathlib.Data.List.Basic

/-!
# Queues

`MyQueue` as the chain of its nodes together with the separately kept `_size`,
and the cursor that `SafeQueue` adds for walking the chain. `T()` of the empty
queue is `none`. `_size` is a `size_t` that no queue can make overflow.
-/

namespace SelectNet

structure MyQueue (T : Type) where
  size : Int
  nodes : List T

namespace MyQueue

variable {T : Type}

def new : MyQueue T := ⟨0, []⟩

def manualSize (queue : MyQueue T) (size : Int) : MyQueue T :=
  { queue with size := queue.size + size }

def clear (_ : MyQueue T) : MyQueue T := ⟨0, []⟩

def push (queue : MyQueue T) (newData : T) : MyQueue T :=
  ⟨queue.size + 1, queue.nodes ++ [newData]⟩

def front (queue : MyQueue T) : Option T := queue.nodes.head?

def pop (queue : MyQueue T) : Option T × MyQueue T :=
  match queue.nodes with
  | [] => (none, queue)
  | data :: rest => (some data, ⟨queue.size - 1, rest⟩)

def hasData (queue : MyQueue T) : Bool := decide (0 < queue.size)

/-- The kept size is the length of the chain. -/
def Counted (queue : MyQueue T) : Prop := queue.size = queue.nodes.length

@[simp] theorem new_nodes : (new : MyQueue T).nodes = [] := rfl

@[simp] theorem push_nodes (queue : MyQueue T) (data : T) :
    (queue.push data).nodes = queue.nodes ++ [data] := rfl

variable {queue : MyQueue T}

theorem new_counted : (new : MyQueue T).Counted := rfl

theorem clear_counted (queue : MyQueue T) : queue.clear.Counted := rfl

theorem Counted.push (hcounted : queue.Counted) (data : T) : (queue.push data).Counted := by
  simp only [Counted, MyQueue.push, List.length_append, List.length_singleton] at hcounted ⊢
  omega

theorem pop_of_cons {data : T} {rest : List T} (hnodes : queue.nodes = data :: rest) :
    queue.pop = (some data, ⟨queue.size - 1, rest⟩) := by
  rw [pop, hnodes]

theorem Counted.pop {data : T} {rest : List T} (hcounted : queue.Counted)
    (hnodes : queue.nodes = data :: rest) :
    (⟨queue.size - 1, rest⟩ : MyQueue T).Counted := by
  simp only [Counted, hnodes, List.length_cons] at hcounted ⊢
  omega

theorem Counted.hasData_eq_false_iff (hcounted : queue.Counted) :
    queue.hasData = false ↔ queue.nodes = [] := by
  have hsize : queue.size = queue.nodes.length := hcounted
  rw [hasData, decide_eq_false_iff_not, hsize, ← List.length_eq_zero_iff]
  omega

end MyQueue

/-- `SafeQueue`: a queue and the cursor `_it`, as the nodes from it on. The lock
is what makes each use of the queue by a thread one step. -/
structure SafeQueue (T : Type) where
  queue : MyQueue T
  it : List T

namespace SafeQueue

variable {T : Type}

def new : SafeQueue T := ⟨.new, []⟩

def push (queue : SafeQueue T) (data : T) : SafeQueue T :=
  { queue with queue := queue.queue.push data }

def hasData (queue : SafeQueue T) : Bool := decide (0 < queue.queue.size)

def begin (queue : SafeQueue T) : SafeQueue T := { queue with it := queue.queue.nodes }

def atEnd (queue : SafeQueue T) : Bool := queue.it.isEmpty

def next (queue : SafeQueue T) : SafeQueue T := { queue with it := queue.it.tail }

def getVal (queue : SafeQueue T) : Option T := queue.it.head?

def clear (queue : SafeQueue T) : SafeQueue T := { queue with queue := queue.queue.clear }

def manualSize (queue : SafeQueue T) (size : Int) : SafeQueue T :=
  { queue with queue := queue.queue.manualSize size }

def size (queue : SafeQueue T) : Int := queue.queue.size

end SafeQueue

end SelectNet
