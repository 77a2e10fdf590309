import SelectNet.Allocation.QueueFifo
import SelectNet.Foundation.Mutex

/-!
# SafeQueue between threads

`SafeQueue` in memory, used by any number of threads. `push` and `pop` hold the
lock, but a thread may read `_size` and the front at any moment, without the lock.
So a call is its statements one by one, and the readers are looked at in between.
-/

namespace SelectNet

open MemoryPool Heap

/-- What the threads share. `live` are the units that the pool has handed out. -/
structure SharedQueue where
  queue : QueueRep
  heap : Heap
  live : List (Nat × Nat)

/-- A call that takes the lock. `fresh` is where `operator new` would find memory. -/
inductive QueueCall (T : Type) where
  | push (data : T) (fresh : Nat)
  | pop

/-- Where a call stands: in front of the statement that the name says, with its
locals. -/
inductive QueuePoint (T : Type) where
  | count (data : T) (fresh : Nat)
  | alloc (data : T) (fresh : Nat)
  | store (data : T) (newNode : Nat)
  | test (newNode : Nat)
  | linkTail (newNode : Nat)
  | endNew (newNode : Nat)
  | setTail (newNode : Nat)
  | setHead (newNode : Nat)
  | endHead
  | setTailHead
  | popTest
  | popCount
  | popHead (oldHead : Nat)
  | popTail (oldHead : Nat)
  | popData (oldHead : Nat)
  | popFree (oldHead : Nat) (data : T)

def QueueCall.op {T : Type} : QueueCall T → QueueOp T
  | .push data fresh => .push data fresh
  | .pop => .pop

def QueueCall.enter {T : Type} : QueueCall T → QueuePoint T
  | .push data fresh => .count data fresh
  | .pop => .popTest

namespace SharedQueue

variable {T : Type} [Inhabited T] (layout : NodeLayout T)

/-- A statement of `MyQueue::push` or `MyQueue::pop`. It is nothing where a null
pointer is followed. -/
def body : QueuePoint T × SharedQueue →
    Pass (QueuePoint T × SharedQueue) (Option (QueueAnswer T × SharedQueue))
  | (.count data fresh, s) =>
      .again (.alloc data fresh, { s with queue := { s.queue with size := s.queue.size + 1 } })
  | (.alloc data fresh, s) =>
      match s.queue.memoryPool.alloc s.heap fresh with
      | none => .leave none
      | some (newNode, memoryPool, heap) =>
          .again (.store data newNode, {
            queue := { s.queue with memoryPool }
            heap
            live := (newNode, memoryPool.pBlock.getD 0) :: s.live })
  | (.store data newNode, s) =>
      .again (.test newNode, { s with heap := layout.storeData s.heap newNode data })
  | (.test newNode, s) =>
      if s.queue.head.isSome then .again (.linkTail newNode, s) else .again (.setHead newNode, s)
  | (.linkTail newNode, s) =>
      match s.queue.tail with
      | none => .leave none
      | some tail =>
          .again (.endNew newNode, { s with heap := layout.storeNext s.heap tail (some newNode) })
  | (.endNew newNode, s) =>
      .again (.setTail newNode, { s with heap := layout.storeNext s.heap newNode none })
  | (.setTail newNode, s) =>
      .leave (some (.void, { s with queue := { s.queue with tail := some newNode } }))
  | (.setHead newNode, s) =>
      .again (.endHead, { s with queue := { s.queue with head := some newNode } })
  | (.endHead, s) =>
      match s.queue.head with
      | none => .leave none
      | some head => .again (.setTailHead, { s with heap := layout.storeNext s.heap head none })
  | (.setTailHead, s) =>
      .leave (some (.void, { s with queue := { s.queue with tail := s.queue.head } }))
  | (.popTest, s) =>
      if s.queue.head.isSome then .again (.popCount, s) else .leave (some (.data default, s))
  | (.popCount, s) =>
      match s.queue.head with
      | none => .leave none
      | some oldHead =>
          .again (.popHead oldHead, { s with queue := { s.queue with size := s.queue.size - 1 } })
  | (.popHead oldHead, s) =>
      .again (.popTail oldHead, { s with
        queue := { s.queue with head := layout.next s.heap oldHead } })
  | (.popTail oldHead, s) =>
      if s.queue.head.isSome then .again (.popData oldHead, s)
      else .again (.popData oldHead, { s with queue := { s.queue with tail := none } })
  | (.popData oldHead, s) => .again (.popFree oldHead (layout.data s.heap oldHead), s)
  | (.popFree oldHead data, s) =>
      match s.queue.memoryPool.free s.heap oldHead with
      | none => .leave none
      | some (memoryPool, heap) => .leave (some (.data data, {
          queue := { s.queue with memoryPool }
          heap
          live := s.live.eraseP fun entry => entry.1 = oldHead }))

/-- `front`, `hasData` and `size`, which do not take the lock. -/
def front (s : SharedQueue) : T := s.queue.front layout s.heap

def hasData (s : SharedQueue) : Bool := s.queue.hasData

def size (s : SharedQueue) : Int := s.queue.size

/-- The queue while nobody holds the lock. -/
def state (s : SharedQueue) : QueueState := ⟨.safeQueue ⟨false, s.queue⟩, s.heap, s.live⟩

/-- `operator new` has memory for another block if the call needs one. -/
def CanGrow (s : SharedQueue) (call : QueueCall T) : Prop := s.state.CanGrow call.op

/-- Any number of threads, from the queue's construction on. -/
def machine : Machine (Mutex.State SharedQueue (QueuePoint T) (QueueCall T) (QueueAnswer T))
    (Mutex.Label (QueueCall T)) :=
  Mutex.machine QueueCall.enter (body layout) (fun s => s.state.Constructed layout) CanGrow

/-! ## What the readers see -/

/-- What `front` and `size`, each read at one moment, may return while the last
completed calls have left these data, and this call is inside. A `pop` counts its
element off before it moves the front. -/
def Seen (items : List T) (s : SharedQueue) : Option (QueueCall T) → Prop
  | none => s.front layout = items.headD default ∧ s.size = items.length
  | some (.push data _) =>
      (s.front layout = items.headD default ∨ items = [] ∧ s.front layout = data) ∧
      (s.size = items.length ∨ s.size = items.length + 1)
  | some .pop =>
      s.front layout = items.headD default ∧
          (s.size = items.length ∨ s.size + 1 = items.length) ∨
        s.front layout = items.tail.headD default ∧ s.size + 1 = items.length

section Trace

variable {layout} {s : SharedQueue} {nodes : List Nat} {items : List T}

/-- The queue holds these data. -/
def Holds (layout : NodeLayout T) (s : SharedQueue) (items : List T) : Prop :=
  ∃ nodes, Represents layout s.queue s.heap s.live nodes items

/-- A call that is made there returns this and leaves this, and until then the
readers see what they may. -/
structure Traces (layout : NodeLayout T) (s : SharedQueue) (items : List T) (call : QueueCall T)
    (answer : QueueAnswer T) (items' : List T) : Prop where
  whole : ∃ last, Loop.Yields (body layout) (call.enter, s) (some (answer, last)) ∧
    Holds layout last items'
  seen : ∀ at_ t, Loop.Visits (body layout) (call.enter, s) (at_, t) →
    Seen layout items t (some call)

theorem front_eq (hrep : Represents layout s.queue s.heap s.live nodes items) :
    s.front layout = items.headD default :=
  QueueState.front_of_represents hrep

omit [Inhabited T] in
theorem size_eq (hrep : Represents layout s.queue s.heap s.live nodes items) :
    s.size = items.length := by
  rw [SharedQueue.size, hrep.size, ← hrep.data, List.length_map]

/-- A step of a trace. -/
theorem seen_of_again {at_ next : QueuePoint T} {t t' : SharedQueue} {call : QueueCall T}
    (hagain : body layout (at_, t) = .again (next, t')) (hseen : Seen layout items t (some call))
    (hrest : ∀ later u, Loop.Visits (body layout) (next, t') (later, u) →
      Seen layout items u (some call)) :
    ∀ later u, Loop.Visits (body layout) (at_, t) (later, u) →
      Seen layout items u (some call) := by
  intro later u hvisits
  rcases hvisits.cases_of_again hagain with hsame | hlater
  · cases hsame
    exact hseen
  · exact hrest later u hlater

theorem seen_of_leave {at_ : QueuePoint T} {t : SharedQueue} {call : QueueCall T}
    {outcome : Option (QueueAnswer T × SharedQueue)}
    (hleave : body layout (at_, t) = .leave outcome) (hseen : Seen layout items t (some call)) :
    ∀ later u, Loop.Visits (body layout) (at_, t) (later, u) →
      Seen layout items u (some call) := by
  intro later u hvisits
  cases hvisits.eq_of_leave hleave
  exact hseen

/-- A `pop` of an empty queue. -/
theorem pop_nil (hrep : Represents layout s.queue s.heap s.live [] items) :
    Traces layout s items .pop (.data default) [] := by
  have hitems : items = [] := hrep.data.symm
  have hhead : s.queue.head = none := hrep.head
  have hleave : body layout (.popTest, s) = .leave (some (.data default, s)) := by
    simp [body, hhead]
  refine ⟨⟨s, .of_leave hleave, [], hitems ▸ hrep⟩, ?_⟩
  exact seen_of_leave hleave (Or.inl ⟨front_eq hrep, Or.inl (size_eq hrep)⟩)

/-- A `pop` of the first node. -/
theorem pop_cons {p : Nat} {rest : List Nat}
    (hrep : Represents layout s.queue s.heap s.live (p :: rest) items) :
    Traces layout s items .pop (.data (items.headD default)) items.tail := by
  obtain ⟨block, pool, heap', item, more, hlive, rfl, hfree, _, hrep'⟩ := hrep.pop
  obtain ⟨chunks, hinv⟩ := hrep.explained
  have hhead : s.queue.head = some p := hrep.head
  have hnext : layout.next s.heap p = rest.head? := hrep.linked.1
  have hdata : layout.data s.heap p = item := (List.cons.inj hrep.data).1
  have herase := QueueState.eraseP_eq_erase hinv.once hlive
  have hsize := size_eq hrep
  obtain ⟨counted, hcounted⟩ : ∃ t : SharedQueue,
    t = { s with queue := { s.queue with size := s.queue.size - 1 } } := ⟨_, rfl⟩
  obtain ⟨moved, hmoved⟩ : ∃ t : SharedQueue,
    t = { counted with queue := { counted.queue with head := rest.head? } } := ⟨_, rfl⟩
  obtain ⟨ended, hended⟩ : ∃ t : SharedQueue,
    t = { moved with queue := { moved.queue with tail := rest.getLast? } } := ⟨_, rfl⟩
  obtain ⟨last, hlast⟩ : ∃ t : SharedQueue, t = {
    queue := { ended.queue with memoryPool := pool }
    heap := heap'
    live := s.live.erase (p, block) } := ⟨_, rfl⟩
  have htest : body layout (.popTest, s) = .again (.popCount, s) := by simp [body, hhead]
  have hcount : body layout (.popCount, s) = .again (.popHead p, counted) := by
    simp only [body, hhead, hcounted]
  have hmove : body layout (.popHead p, counted) = .again (.popTail p, moved) := by
    simp only [body, hmoved, hcounted, hnext]
  have hend : body layout (.popTail p, moved) = .again (.popData p, ended) := by
    have htail : s.queue.tail = (p :: rest).getLast? := hrep.tail
    cases rest with
    | nil => simp [body, hended, hmoved]
    | cons second more => simp [body, hended, hmoved, hcounted, htail]
  have hread : body layout (.popData p, ended) = .again (.popFree p item, ended) := by
    simp only [body, hended, hmoved, hcounted, hdata]
  have hleave : body layout (.popFree p item, ended) = .leave (some (.data item, last)) := by
    simp only [body, hlast, hended, hmoved, hcounted, hfree, herase]
  have hless : s.queue.size - 1 + 1 = (item :: more).length := by
    have hlen : s.queue.size = (item :: more).length := hsize
    omega
  -- the front stays the first element until the head moves, and is then the next one
  have hfirst : s.front layout = (item :: more).headD default := front_eq hrep
  have hsecond : moved.front layout = more.headD default := by
    have hmore : rest.map (layout.data s.heap) = more := (List.cons.inj hrep.data).2
    rw [hmoved, hcounted, front, QueueRep.front, ← hmore]
    cases rest with
    | nil => rfl
    | cons second rest => rfl
  have hseen : Seen layout (item :: more) counted (some .pop) := by
    rw [hcounted]
    exact Or.inl ⟨hfirst, Or.inr hless⟩
  have hseen' : ∀ t : SharedQueue, t.front layout = moved.front layout →
      t.queue.size = s.queue.size - 1 → Seen layout (item :: more) t (some .pop) := by
    intro t hfront ht
    exact Or.inr ⟨hfront.trans hsecond, by rw [SharedQueue.size, ht, hless]⟩
  refine ⟨⟨last, ?_, rest, ?_⟩, ?_⟩
  · exact .of_again htest (.of_again hcount (.of_again hmove (.of_again hend (.of_again hread
      (.of_leave hleave)))))
  · rw [hlast, hended, hmoved, hcounted]
    exact hrep'
  · refine seen_of_again htest (Or.inl ⟨hfirst, Or.inl hsize⟩) ?_
    refine seen_of_again hcount (Or.inl ⟨hfirst, Or.inl hsize⟩) ?_
    refine seen_of_again hmove hseen ?_
    refine seen_of_again hend (hseen' _ rfl (by rw [hmoved, hcounted])) ?_
    refine seen_of_again hread
      (hseen' _ (by rw [hended]; rfl) (by rw [hended, hmoved, hcounted])) ?_
    exact seen_of_leave hleave
      (hseen' _ (by rw [hended]; rfl) (by rw [hended, hmoved, hcounted]))

/-- What a reader sees of a queue with a first node whose data have not changed. -/
theorem seen_of_head {t : SharedQueue} {head fresh : Nat} {data : T}
    (hrep : Represents layout s.queue s.heap s.live nodes items)
    (hhead : nodes.head? = some head) (hsame : t.queue.head = some head)
    (hdata : layout.data t.heap head = layout.data s.heap head)
    (hsize : t.queue.size = s.queue.size ∨ t.queue.size = s.queue.size + 1) :
    Seen layout items t (some (.push data fresh)) := by
  refine ⟨Or.inl ?_, ?_⟩
  · have hfront : s.queue.head = some head := hrep.head.trans hhead
    rw [← front_eq hrep, front, front, QueueRep.front, QueueRep.front, hsame, hfront]
    exact hdata
  · have hlen : s.queue.size = items.length := size_eq hrep
    rwa [hlen] at hsize

/-- The calls of a `push` up to its node, which no reader sees. -/
theorem push_start {fresh : Nat} (hrep : Represents layout s.queue s.heap s.live nodes items)
    (hgrow : s.queue.memoryPool.CanGrow s.heap fresh) (data : T) :
    ∃ p block pool heap₁, Represents.NewNode layout s.heap s.live nodes data p block pool
        (layout.storeData heap₁ p data) ∧
      (∀ node ∈ nodes, layout.SameAt s.heap heap₁ node) ∧
      body layout (.count data fresh, s) = .again (.alloc data fresh,
        { s with queue := { s.queue with size := s.queue.size + 1 } }) ∧
      body layout (.alloc data fresh,
        { s with queue := { s.queue with size := s.queue.size + 1 } }) =
        .again (.store data p, ⟨⟨s.queue.size + 1, s.queue.head, s.queue.tail, pool⟩, heap₁,
          (p, block) :: s.live⟩) ∧
      body layout (.store data p, ⟨⟨s.queue.size + 1, s.queue.head, s.queue.tail, pool⟩, heap₁,
          (p, block) :: s.live⟩) =
        .again (.test p, ⟨⟨s.queue.size + 1, s.queue.head, s.queue.tail, pool⟩,
          layout.storeData heap₁ p data, (p, block) :: s.live⟩) := by
  obtain ⟨p, block, pool, heap₁, halloc, hblock, hnew⟩ := hrep.newNode hgrow data
  obtain ⟨_, _, _, _, _, halloc', _, _, _, _, hsame⟩ := hrep.alloc hgrow
  cases halloc.symm.trans halloc'
  refine ⟨p, block, pool, heap₁, hnew, hsame, rfl, ?_, rfl⟩
  simp only [body, halloc, hblock, Option.getD_some]

/-- A `push` into an empty queue. Its reader sees nothing, and then the new node. -/
theorem push_nil {fresh : Nat} (hrep : Represents layout s.queue s.heap s.live [] items)
    (hgrow : s.queue.memoryPool.CanGrow s.heap fresh) (data : T) :
    Traces layout s items (.push data fresh) .void (items ++ [data]) := by
  obtain ⟨p, block, pool, heap₁, hnew, _, hcount, halloc, hstore⟩ := push_start hrep hgrow data
  obtain ⟨heap₂, hheap₂⟩ : ∃ heap₂, layout.storeData heap₁ p data = heap₂ := ⟨_, rfl⟩
  rw [hheap₂] at hnew hstore
  have hitems : items = [] := hrep.data.symm
  have hhead : s.queue.head = none := hrep.head
  have hsize : s.queue.size = items.length := size_eq hrep
  have htest : body layout (.test p, ⟨⟨s.queue.size + 1, s.queue.head, s.queue.tail, pool⟩, heap₂,
      (p, block) :: s.live⟩) = .again (.setHead p, ⟨⟨s.queue.size + 1, s.queue.head, s.queue.tail,
        pool⟩, heap₂, (p, block) :: s.live⟩) := by
    simp [body, hhead]
  have hset : body layout (.setHead p, ⟨⟨s.queue.size + 1, s.queue.head, s.queue.tail, pool⟩,
      heap₂, (p, block) :: s.live⟩) = .again (.endHead, ⟨⟨s.queue.size + 1, some p, s.queue.tail,
        pool⟩, heap₂, (p, block) :: s.live⟩) := rfl
  have hend : body layout (.endHead, ⟨⟨s.queue.size + 1, some p, s.queue.tail, pool⟩, heap₂,
      (p, block) :: s.live⟩) = .again (.setTailHead, ⟨⟨s.queue.size + 1, some p, s.queue.tail,
        pool⟩, layout.storeNext heap₂ p none, (p, block) :: s.live⟩) := rfl
  have hleave : body layout (.setTailHead, ⟨⟨s.queue.size + 1, some p, s.queue.tail, pool⟩,
      layout.storeNext heap₂ p none, (p, block) :: s.live⟩) =
      .leave (some (.void, ⟨⟨s.queue.size + 1, some p, some p, pool⟩,
        layout.storeNext heap₂ p none, (p, block) :: s.live⟩)) := rfl
  -- before the new node is the head, a reader finds none
  have hnone : ∀ t : SharedQueue, t.queue.head = none →
      (t.queue.size = s.queue.size ∨ t.queue.size = s.queue.size + 1) →
      Seen layout items t (some (.push data fresh)) := by
    intro t hnone hcounted
    refine ⟨Or.inl ?_, by rwa [hsize] at hcounted⟩
    rw [front, QueueRep.front, hnone, hitems]
    rfl
  have hsome : ∀ t : SharedQueue, t.queue.head = some p → layout.data t.heap p = data →
      t.queue.size = s.queue.size + 1 → Seen layout items t (some (.push data fresh)) := by
    intro t hsome hdata hcounted
    refine ⟨Or.inr ⟨hitems, ?_⟩, Or.inr (hcounted.trans (congrArg (· + 1) hsize))⟩
    rw [front, QueueRep.front, hsome]
    exact hdata
  have hkept : layout.data (layout.storeNext heap₂ p none) p = data := by
    rw [NodeLayout.data_storeNext, hnew.data]
  refine ⟨⟨⟨⟨s.queue.size + 1, some p, some p, pool⟩, layout.storeNext heap₂ p none,
    (p, block) :: s.live⟩, ?_, [p], hrep.push_first hnew⟩, ?_⟩
  · exact .of_again hcount (.of_again halloc (.of_again hstore (.of_again htest (.of_again hset
      (.of_again hend (.of_leave hleave))))))
  · refine seen_of_again hcount (hnone _ hhead (Or.inl rfl)) ?_
    refine seen_of_again halloc (hnone _ hhead (Or.inr rfl)) ?_
    refine seen_of_again hstore (hnone _ hhead (Or.inr rfl)) ?_
    refine seen_of_again htest (hnone _ hhead (Or.inr rfl)) ?_
    refine seen_of_again hset (hnone _ hhead (Or.inr rfl)) ?_
    refine seen_of_again hend (hsome _ rfl hnew.data rfl) ?_
    exact seen_of_leave hleave (hsome _ rfl hkept rfl)

/-- A `push` behind other nodes. Its reader sees the first of these all the time. -/
theorem push_cons {fresh last : Nat} {before : List Nat}
    (hrep : Represents layout s.queue s.heap s.live (before ++ [last]) items)
    (hgrow : s.queue.memoryPool.CanGrow s.heap fresh) (data : T) :
    Traces layout s items (.push data fresh) .void (items ++ [data]) := by
  obtain ⟨p, block, pool, heap₁, hnew, halloced, hcount, halloc, hstore⟩ :=
    push_start hrep hgrow data
  obtain ⟨heap₂, hheap₂⟩ : ∃ heap₂, layout.storeData heap₁ p data = heap₂ := ⟨_, rfl⟩
  rw [hheap₂] at hnew hstore
  obtain ⟨first, hfirst⟩ : ∃ first, (before ++ [last]).head? = some first := by
    cases before with
    | nil => exact ⟨last, rfl⟩
    | cons first _ => exact ⟨first, rfl⟩
  have hhead : s.queue.head = some first := hrep.head.trans hfirst
  have htail : s.queue.tail = some last := by rw [hrep.tail, List.getLast?_concat]
  have hmem : first ∈ before ++ [last] := List.mem_of_head? hfirst
  obtain ⟨heap₃, hheap₃⟩ : ∃ heap₃, layout.storeNext heap₂ last (some p) = heap₃ := ⟨_, rfl⟩
  have htest : body layout (.test p, ⟨⟨s.queue.size + 1, s.queue.head, s.queue.tail, pool⟩, heap₂,
      (p, block) :: s.live⟩) = .again (.linkTail p, ⟨⟨s.queue.size + 1, s.queue.head,
        s.queue.tail, pool⟩, heap₂, (p, block) :: s.live⟩) := by
    simp [body, hhead]
  have hlink : body layout (.linkTail p, ⟨⟨s.queue.size + 1, s.queue.head, s.queue.tail, pool⟩,
      heap₂, (p, block) :: s.live⟩) = .again (.endNew p, ⟨⟨s.queue.size + 1, s.queue.head,
        s.queue.tail, pool⟩, heap₃, (p, block) :: s.live⟩) := by
    simp only [body, htail, hheap₃]
  have hend : body layout (.endNew p, ⟨⟨s.queue.size + 1, s.queue.head, s.queue.tail, pool⟩,
      heap₃, (p, block) :: s.live⟩) = .again (.setTail p, ⟨⟨s.queue.size + 1, s.queue.head,
        s.queue.tail, pool⟩, layout.storeNext heap₃ p none, (p, block) :: s.live⟩) := rfl
  have hleave : body layout (.setTail p, ⟨⟨s.queue.size + 1, s.queue.head, s.queue.tail, pool⟩,
      layout.storeNext heap₃ p none, (p, block) :: s.live⟩) =
      .leave (some (.void, ⟨⟨s.queue.size + 1, s.queue.head, some p, pool⟩,
        layout.storeNext heap₃ p none, (p, block) :: s.live⟩)) := rfl
  -- the data of the first node, through the stores
  have hdata₂ : layout.data heap₂ first = layout.data s.heap first := (hnew.old first hmem).data
  have hdata₃ : layout.data heap₃ first = layout.data s.heap first := by
    rw [← hheap₃]
    by_cases hsame : last = first
    · rw [hsame, NodeLayout.data_storeNext, hdata₂]
    · obtain ⟨chunks, hinv⟩ := hrep.explained
      obtain ⟨block', hlive'⟩ := hrep.mem_live_iff.mp hmem
      obtain ⟨block'', hlive''⟩ :=
        hrep.mem_live_iff.mp (List.mem_append_right before List.mem_cons_self)
      have hapart := nodes_apart hinv hrep.unitSize hlive'' hlive' hsame
      rw [(NodeLayout.storeNext_same hapart (some p)).data, hdata₂]
  have hdata₄ : layout.data (layout.storeNext heap₃ p none) first = layout.data s.heap first := by
    rw [(NodeLayout.storeNext_same (hnew.apart first hmem) none).data, hdata₃]
  have hseen : ∀ t : SharedQueue, t.queue.head = s.queue.head →
      layout.data t.heap first = layout.data s.heap first →
      (t.queue.size = s.queue.size ∨ t.queue.size = s.queue.size + 1) →
      Seen layout items t (some (.push data fresh)) :=
    fun t hsame hdata hsize => seen_of_head hrep hfirst (hsame.trans hhead) hdata hsize
  refine ⟨⟨⟨⟨s.queue.size + 1, s.queue.head, some p, pool⟩, layout.storeNext heap₃ p none,
    (p, block) :: s.live⟩, ?_, before ++ [last] ++ [p], ?_⟩, ?_⟩
  · exact .of_again hcount (.of_again halloc (.of_again hstore (.of_again htest (.of_again hlink
      (.of_again hend (.of_leave hleave))))))
  · have hrep' := hrep.push_behind hhead hnew
    rw [hheap₃, ← hhead] at hrep'
    exact hrep'
  · refine seen_of_again hcount (hseen _ rfl rfl (Or.inl rfl)) ?_
    refine seen_of_again halloc (hseen _ rfl rfl (Or.inr rfl)) ?_
    refine seen_of_again hstore (hseen _ rfl (halloced first hmem).data (Or.inr rfl)) ?_
    refine seen_of_again htest (hseen _ rfl hdata₂ (Or.inr rfl)) ?_
    refine seen_of_again hlink (hseen _ rfl hdata₂ (Or.inr rfl)) ?_
    refine seen_of_again hend (hseen _ rfl hdata₃ (Or.inr rfl)) ?_
    exact seen_of_leave hleave (hseen _ rfl hdata₄ (Or.inr rfl))

/-- Every call that takes the lock, where the queue holds these data. -/
theorem Holds.traces (hholds : Holds layout s items) {call : QueueCall T}
    (hgrow : s.CanGrow call) :
    Traces layout s items call (Fifo.answer items call.op) (Fifo.after items call.op) := by
  obtain ⟨nodes, hrep⟩ := hholds
  cases call with
  | push data fresh =>
      cases nodes using List.reverseRecOn with
      | nil => exact push_nil hrep hgrow data
      | append_singleton before last => exact push_cons hrep hgrow data
  | pop =>
      cases nodes with
      | nil =>
          have hitems : items = [] := hrep.data.symm
          subst hitems
          exact pop_nil hrep
      | cons p rest => exact pop_cons hrep

/-- The calls are those of a list. -/
theorem Holds.runs {start last : SharedQueue} {labels : List (QueueCall T × QueueAnswer T)}
    (hholds : Holds layout start [])
    (hruns : Machine.Runs (Mutex.Whole QueueCall.enter (body layout) CanGrow) start labels last) :
    ∃ items, Machine.Runs Fifo.Step [] (labels.map fun label => (label.1.op, label.2)) items ∧
      Holds layout last items := by
  induction hruns with
  | start => exact ⟨[], .start, hholds⟩
  | @next labels middle next label _ hstep ih =>
      obtain ⟨items, hfifo, hmiddle⟩ := ih
      obtain ⟨hgrow, hyields⟩ := hstep
      obtain ⟨⟨last, hwhole, hlast⟩, _⟩ := hmiddle.traces hgrow
      obtain ⟨hanswer, rfl⟩ := Prod.mk.inj (Option.some.inj (hyields.unique hwhole))
      refine ⟨Fifo.after items label.1.op, ?_, hlast⟩
      rw [List.map_append]
      exact hfifo.next ⟨hanswer, rfl⟩

/-- A run is one of a list, and the call inside has begun where that list is held. -/
theorem exists_fifo_run {s : Mutex.State SharedQueue (QueuePoint T) (QueueCall T) (QueueAnswer T)}
    (hreach : (machine layout).Reachable s) :
    ∃ items last, Machine.Runs Fifo.Step []
        (s.returned.map fun entry => (entry.2.1.op, entry.2.2)) items ∧
      Holds layout last items ∧
      Mutex.Begun QueueCall.enter (body layout) CanGrow last s := by
  obtain ⟨start, last, hmade, hruns, hbegun⟩ := Mutex.exists_runs_of_reachable hreach
  obtain ⟨_, hstart⟩ := QueueState.Constructed.holds hmade
  obtain ⟨items, hfifo, hholds⟩ := Holds.runs hstart hruns
  rw [List.map_map] at hfifo
  exact ⟨items, last, hfifo, hholds, hbegun⟩

theorem Holds.seen {s : Mutex.State SharedQueue (QueuePoint T) (QueueCall T) (QueueAnswer T)}
    {last : SharedQueue} (hholds : Holds layout last items)
    (hbegun : Mutex.Begun QueueCall.enter (body layout) CanGrow last s) :
    Seen layout items s.shared (s.inside.map fun inside => inside.2.1) := by
  cases hinside : s.inside with
  | none =>
      simp only [Mutex.Begun, hinside] at hbegun
      obtain ⟨nodes, hrep⟩ := hholds
      rw [hbegun]
      exact ⟨front_eq hrep, size_eq hrep⟩
  | some inside =>
      simp only [Mutex.Begun, hinside] at hbegun
      obtain ⟨hgrow, hvisits⟩ := hbegun
      exact (hholds.traces hgrow).seen _ _ hvisits

end Trace

end SharedQueue

/-- Any number of threads use a `SafeQueue`, in any order of their statements. The calls
that have returned answered what a list answers to them in the order of the lock; what a
thread reads without the lock is what that list shows, but that a `push` inside may
have counted its element, and may show it if there is no other, and that a `pop` inside
may have counted its element off, and then may show the next; and the call inside can
always go on. -/
theorem safeQueue_serial {T : Type} [Inhabited T] (layout : NodeLayout T)
    {s : Mutex.State SharedQueue (QueuePoint T) (QueueCall T) (QueueAnswer T)}
    (hreach : (SharedQueue.machine layout).Reachable s) :
    ∃ items, Machine.Runs Fifo.Step [] (s.returned.map fun entry => (entry.2.1.op, entry.2.2))
        items ∧
      SharedQueue.Seen layout items s.shared (s.inside.map fun inside => inside.2.1) ∧
      ∀ thread call at_, s.inside = some (thread, call, at_) →
        ∃ next, Mutex.move (SharedQueue.body layout) thread s = some next := by
  obtain ⟨items, last, hfifo, hholds, hbegun⟩ := SharedQueue.exists_fifo_run hreach
  refine ⟨items, hfifo, hholds.seen hbegun, ?_⟩
  intro thread call at_ hinside
  simp only [Mutex.Begun, hinside] at hbegun
  obtain ⟨hgrow, hvisits⟩ := hbegun
  obtain ⟨⟨last, hwhole, _⟩, _⟩ := hholds.traces hgrow
  exact Mutex.move_of_ends hinside hvisits hwhole

/-- A new queue of bytes, and room for a node in its pool. -/
theorem SharedQueue.exists_constructed : ∃ s : SharedQueue, s.state.Constructed byteNode ∧
    s.CanGrow (.push (7 : Byte) 8192) ∧ s.queue.size = 0 := by
  have hfresh : vacant.Fresh 4096 (sizeofMemoryBlock + 18 * 2) :=
    vacant_fresh (by decide) (by decide)
  obtain ⟨pool, heap, hnew, _⟩ : ∃ pool heap,
      MemoryPool.new vacant 4096 16 2 2 = some (pool, heap) ∧
      heap.sizes = Function.update vacant.sizes 4096 (some (sizeofMemoryBlock + 18 * 2)) :=
    exists_new (by decide) (by decide) (by decide) (by decide) (by decide) hfresh
  refine ⟨⟨⟨0, none, none, pool⟩, heap, []⟩, ⟨rfl, .safe, vacant, 4096, 2, ?_, vacant_apart, ?_⟩,
    ?_, rfl⟩
  · have hnew' : MemoryPool.new vacant 4096 (byteNode.nodeSize % 65536) ((2 : Int) % 65536).toNat
        ((2 : Int) % 65536).toNat = some (pool, heap) := hnew
    simp only [IQueue.createQueue, SafeQueueRep.new, QueueRep.new, hnew', Option.bind_eq_bind,
      Option.bind_some, Option.map_some, SharedQueue.state]
  · rw [SharedQueue.state, IQueue.rep, nUnitSize_of_new hnew]
    exact hfresh
  · intro hfull
    obtain ⟨hstores, _⟩ := new_spec hnew vacant_apart hfresh (by decide) (by decide) (by decide)
    exact absurd (hstores.free_eq_nil_of_full hfull) (List.cons_ne_nil _ _)

/-- A thread has counted its element and not yet made the node. -/
theorem safeQueue_serial_counted :
    ∃ s : Mutex.State SharedQueue (QueuePoint Byte) (QueueCall Byte) (QueueAnswer Byte),
      s.shared.hasData = true ∧ SharedQueue.Seen byteNode [] s.shared (some (.push 7 8192)) ∧
      ∃ next, Mutex.move (SharedQueue.body byteNode) 0 s = some next := by
  obtain ⟨start, hmade, hgrow, hsize⟩ := SharedQueue.exists_constructed
  have hstart : (SharedQueue.machine byteNode).Reachable ⟨start, none, []⟩ :=
    .start ⟨hmade, rfl, rfl⟩
  have hlock := hstart.step (.lock 0 (.push 7 8192)) ⟨rfl, hgrow, rfl⟩
  have hcount := hlock.step (.move 0) rfl
  obtain ⟨items, hfifo, hseen, hmoves⟩ := safeQueue_serial byteNode hcount
  cases Machine.Runs.nil_iff.mp hfifo
  refine ⟨_, ?_, hseen, hmoves 0 _ _ rfl⟩
  simp [SharedQueue.hasData, QueueRep.hasData, hsize]

/-! ## What a reader saw it pops -/

namespace Fifo

variable {T : Type} [Inhabited T]

/-- A list is what the calls have made of it. -/
theorem eq_of_runs {items items' : List T} {labels : List (QueueOp T × QueueAnswer T)}
    (hruns : Machine.Runs Step items labels items') :
    items' = labels.foldl (fun items label => after items label.1) items := by
  induction hruns with
  | start => rfl
  | next _ hstep ih => rw [List.foldl_append, ← ih, List.foldl_cons, List.foldl_nil, hstep.2]

/-- Without a `pop`, the first element stays the first. -/
theorem headD_foldl {items : List T} {calls : List (QueueCall T × QueueAnswer T)}
    (hsome : items ≠ []) (hpush : ∀ label ∈ calls, label.1 ≠ .pop) :
    ((calls.map fun label => (label.1.op, label.2)).foldl
      (fun items label => after items label.1) items).headD default = items.headD default := by
  induction calls generalizing items with
  | nil => rfl
  | cons first calls ih =>
      rw [List.forall_mem_cons] at hpush
      obtain ⟨⟨call, answer⟩, hcall⟩ : ∃ label, label = first := ⟨_, rfl⟩
      subst hcall
      cases call with
      | pop => exact absurd rfl hpush.1
      | push data fresh =>
          have hmore : items ++ [data] ≠ [] := List.append_ne_nil_of_left_ne_nil hsome _
          refine (ih hmore hpush.2).trans ?_
          cases items with
          | nil => exact absurd rfl hsome
          | cons item items => rfl

end Fifo

/-- A thread that is the only one to call `pop` may look at the front without the lock:
an element it has seen there is the one that its next `pop` returns, whatever the other
threads push meanwhile. -/
theorem front_is_popped {T : Type} [Inhabited T] (layout : NodeLayout T)
    {s later : Mutex.State SharedQueue (QueuePoint T) (QueueCall T) (QueueAnswer T)}
    (hreach : (SharedQueue.machine layout).Reachable s)
    (hinside : ∀ thread at_, s.inside ≠ some (thread, .pop, at_))
    (hfront : s.shared.front layout ≠ default) {labels : List (Mutex.Label (QueueCall T))}
    (hruns : Machine.Runs (SharedQueue.machine layout).step s labels later)
    {more : List (Nat × QueueCall T × QueueAnswer T)} {thread : Nat} {data : T}
    (hreturned : later.returned = s.returned ++ (more ++ [(thread, .pop, .data data)]))
    (hpush : ∀ entry ∈ more, entry.2.1 ≠ .pop) : s.shared.front layout = data := by
  obtain ⟨items, last, hfifo, hholds, hbegun⟩ := SharedQueue.exists_fifo_run hreach
  have hseen := hholds.seen hbegun
  obtain ⟨items', _, hlater, _, _⟩ := SharedQueue.exists_fifo_run (hruns.reachable hreach)
  -- the last call finds what the calls before it have left
  rw [hreturned, ← List.append_assoc, List.map_append, List.map_singleton] at hlater
  obtain ⟨middle, hbefore, hanswer, _⟩ := Machine.Runs.snoc_iff.mp hlater
  have hmiddle := Fifo.eq_of_runs hbefore
  rw [List.map_append, List.foldl_append, ← Fifo.eq_of_runs hfifo] at hmiddle
  have hdata : data = middle.headD default := QueueAnswer.data.inj hanswer
  have hcalls : ∀ label ∈ more.map Prod.snd, label.1 ≠ .pop := by
    intro label hlabel
    obtain ⟨entry, hentry, rfl⟩ := List.mem_map.mp hlabel
    exact hpush entry hentry
  have hmap : (more.map fun entry => (entry.2.1.op, entry.2.2)) =
      (more.map Prod.snd).map fun label => (label.1.op, label.2) := by
    rw [List.map_map]
    rfl
  rw [hmap] at hmiddle
  by_cases hitems : items = []
  · -- the element seen is that of a `push` that is inside, which returns first
    obtain ⟨owner, fresh, at_, hpushing⟩ : ∃ owner fresh at_, s.inside =
        some (owner, .push (s.shared.front layout) fresh, at_) := by
      cases hsome : s.inside with
      | none =>
          rw [hsome, hitems] at hseen
          exact absurd hseen.1 hfront
      | some inside =>
          obtain ⟨owner, call, at_⟩ := inside
          rw [hsome] at hseen
          cases call with
          | pop => exact absurd hsome (hinside owner at_)
          | push pushed fresh =>
              rcases hseen.1 with hnone | ⟨_, hshown⟩
              · rw [hitems] at hnone
                exact absurd hnone hfront
              · exact ⟨owner, fresh, at_, by rw [hshown]⟩
    rcases Mutex.returned_of_runs hpushing hruns with ⟨_, hsame, _⟩ | ⟨answer, rest, hfirst⟩
    · rw [hreturned] at hsame
      simp at hsame
    · have horder := List.append_cancel_left (hreturned.symm.trans hfirst)
      cases more with
      | nil => cases horder
      | cons first more =>
          obtain ⟨hsame, _⟩ := List.cons.inj horder
          subst hsame
          rw [List.map_cons, List.forall_mem_cons] at hcalls
          rw [hdata, hmiddle, hitems]
          exact (Fifo.headD_foldl (List.cons_ne_nil _ _) hcalls.2).symm
  · have hshown : s.shared.front layout = items.headD default := by
      cases hsome : s.inside with
      | none =>
          rw [hsome] at hseen
          exact hseen.1
      | some inside =>
          obtain ⟨owner, call, at_⟩ := inside
          rw [hsome] at hseen
          cases call with
          | pop => exact absurd hsome (hinside owner at_)
          | push pushed fresh => exact hseen.1.resolve_right fun hnone => hitems hnone.1
    rw [hshown, hdata, hmiddle, Fifo.headD_foldl hitems hcalls]

/-- A thread pushes 7, and the reader that has seen it pops it. -/
theorem front_is_popped_seven :
    ∃ s later : Mutex.State SharedQueue (QueuePoint Byte) (QueueCall Byte) (QueueAnswer Byte),
      (SharedQueue.machine byteNode).Reachable s ∧
      later.returned = s.returned ++ [(1, .pop, .data 7)] ∧ s.shared.front byteNode = 7 := by
  obtain ⟨start, hmade, hgrow, _⟩ := SharedQueue.exists_constructed
  have hstart : (SharedQueue.machine byteNode).Reachable ⟨start, none, []⟩ :=
    .start ⟨hmade, rfl, rfl⟩
  have hempty : SharedQueue.Holds byteNode start [] := hmade.holds.2
  obtain ⟨⟨pushed, hpush, hholds⟩, _⟩ := hempty.traces hgrow
  have hpushed : Mutex.Whole QueueCall.enter (SharedQueue.body byteNode) SharedQueue.CanGrow start
      (.push 7 8192, .void) pushed := ⟨hgrow, hpush⟩
  obtain ⟨_, hfirst⟩ : ∃ labels, Machine.Runs (SharedQueue.machine byteNode).step
      ⟨start, none, []⟩ labels ⟨pushed, none, [(0, .push 7 8192, .void)]⟩ :=
    Mutex.exists_runs_of_whole 0 rfl hpushed
  have hreach := hfirst.reachable hstart
  have hroom : pushed.CanGrow (.pop : QueueCall Byte) := trivial
  obtain ⟨⟨popped, hpop, _⟩, _⟩ := hholds.traces hroom
  have hpopped : Mutex.Whole QueueCall.enter (SharedQueue.body byteNode) SharedQueue.CanGrow pushed
      (.pop, .data 7) popped := ⟨trivial, hpop⟩
  obtain ⟨_, hsecond⟩ : ∃ labels, Machine.Runs (SharedQueue.machine byteNode).step
      ⟨pushed, none, [(0, .push 7 8192, .void)]⟩ labels
      ⟨popped, none, [(0, .push 7 8192, .void), (1, .pop, .data 7)]⟩ :=
    Mutex.exists_runs_of_whole 1 rfl hpopped
  obtain ⟨nodes, hrep⟩ := hholds
  have hfront : pushed.front byteNode = 7 := SharedQueue.front_eq hrep
  have hseen : pushed.front byteNode ≠ default := by
    rw [hfront]
    decide
  have hnobody : ∀ (thread : Nat) (at_ : QueuePoint Byte),
      (none : Option (Nat × QueueCall Byte × QueuePoint Byte)) ≠ some (thread, .pop, at_) := by
    simp
  have hnone : ∀ entry ∈ ([] : List (Nat × QueueCall Byte × QueueAnswer Byte)),
      entry.2.1 ≠ .pop := by
    simp
  have hsame := front_is_popped byteNode hreach hnobody hseen hsecond rfl hnone
  exact ⟨_, ⟨popped, none, [(0, .push 7 8192, .void), (1, .pop, .data 7)]⟩, hreach, rfl, hsame⟩

end SelectNet
