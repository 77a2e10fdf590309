import SelectNet.CommonLib.SelectClientThread
import SelectNet.Connection.Receiver

/-!
# A SelectClient_Thread that connects again

`Close` empties the queue of received packages, but it does not reset
`_retainSize` either.
-/

namespace SelectNet

namespace SelectClientThread

/-- The calls that receive and deliver. -/
inductive Input where
  | recvThread (chunk : List Byte)
  | onRun

/-- `OnRecvMsg` is called in `OnRun` only. A moment within is behind some of its
messages. -/
def receiver : Receiver SelectClientThread Input where
  call s input next :=
    match input with
    | .recvThread chunk => ∃ value, Returns (.readable (.data chunk)) s value next
    | .onRun => ∃ value, onRun s = some (value, next)
  within s input t :=
    match input with
    | .recvThread _ => False
    | .onRun => s.sock ≠ invalidSocket ∧
        ∃ msgs, msgs <+: s.ext.recvQueue.nodes ∧ msgs.foldlM onRunMsg s = some t
  delivered s := s.ext.delivered

/-- Two clients that have delivered the same since `s` and `f`, with the same
packages waiting. -/
structure Paired (s f t u : SelectClientThread) : Prop where
  sock : t.sock = invalidSocket ↔ u.sock = invalidSocket
  since : receiver.SameSince s f t u
  queue : t.ext.recvQueue.nodes.map Package.bytes = u.ext.recvQueue.nodes.map Package.bytes

/-- Between calls, they also retain the same. -/
structure Alike (s f t u : SelectClientThread) : Prop where
  paired : Paired s f t u
  inv : Inv t ∧ Inv u
  retained : t.retained = u.retained

/-- While they receive. -/
structure Held (start start' s f t u : SelectClientThread) : Prop where
  paired : Paired s f t u
  receiving : Receiving start t ∧ Receiving start' u

variable {start start' s f t u v next : SelectClientThread} {chunk : List Byte}
  {inputs : List Input} {frames : List (List Byte)}

theorem Paired.close (hpaired : Paired s f t u) (ht : t.SendInv) (hu : u.SendInv) :
    Paired s f (close t) (close u) := by
  obtain ⟨htclosed, htdelivered, _, htidle⟩ := close_spec ht
  obtain ⟨huclosed, hudelivered, _, huidle⟩ := close_spec hu
  obtain ⟨hsock, ⟨frames, htframes, huframes⟩, hqueue⟩ := hpaired
  refine ⟨⟨fun _ => huclosed.sock, fun _ => htclosed.sock⟩,
    ⟨frames, htdelivered.trans htframes, hudelivered.trans huframes⟩, ?_⟩
  by_cases hopen : t.sock = invalidSocket
  · rw [SelectClientThread.close, if_neg (not_not.mpr hopen), SelectClientThread.close,
      if_neg (not_not.mpr (hsock.mp hopen))]
    exact hqueue
  · rw [(htidle hopen).2, (huidle fun hclosed => hopen (hsock.mpr hclosed)).2]

theorem Paired.queuePackage (hpaired : Paired s f t u) (bytes : List Byte) :
    Paired s f (queuePackage t bytes) (queuePackage u bytes) := by
  refine ⟨hpaired.sock, hpaired.since, ?_⟩
  simp only [SelectClientThread.queuePackage, MyQueue.push_nodes, List.map_append,
    List.map_singleton]
  rw [show (t.count _).ext = t.ext from rfl, show (u.count _).ext = u.ext from rfl, hpaired.queue]

/-- Both queues are full at the same package. -/
theorem Held.onPackage (hheld : Held start start' s f t u) (bytes : List Byte) :
    Handed.Alike (Held start start' s f)
      (fun t u => ∃ t' u', Held start start' s f t' u' ∧ t = close t' ∧ u = close u')
      (onPackage t bytes) (onPackage u bytes) := by
  have hnext : Held start start' s f (SelectClientThread.queuePackage t bytes)
      (SelectClientThread.queuePackage u bytes) :=
    ⟨hheld.paired.queuePackage bytes, hheld.receiving.1.queuePackage bytes,
      hheld.receiving.2.queuePackage bytes⟩
  have hlen := congrArg List.length hnext.paired.queue
  rw [List.length_map, List.length_map] at hlen
  have ht : (SelectClientThread.queuePackage t bytes).ext.recvQueue.size = _ :=
    hnext.receiving.1.counted
  have hu : (SelectClientThread.queuePackage u bytes).ext.recvQueue.size = _ :=
    hnext.receiving.2.counted
  have hsize := ht.trans ((congrArg _ hlen).trans hu.symm)
  simp only [SelectClientThread.onPackage, hsize]
  split
  · exact ⟨_, _, hnext, rfl, rfl⟩
  · exact hnext

theorem loop_alike (state other : OBuffer (Memory Byte) × SelectClientThread)
    (hsame : SameBytes (Held start start' s f) state other) :
    Loop.Alike (SameBytes (Held start start' s f)) (SameExit (Held start start' s f)
        fun t u => ∃ t' u', Held start start' s f t' u' ∧ t = close t' ∧ u = close u')
      (recvPass onPackage state) (recvPass onPackage other) :=
  recvPass_alike (fun _ _ bytes hheld => hheld.onPackage bytes) state other hsame

/-- The bytes `recv` stores when a chunk is there. -/
def taken (t : SelectClientThread) (chunk : List Byte) : List Byte :=
  (RecvAnswer.data chunk).received t.sock (clientRecvBufferSize - t.retainSize)

/-- Delivering alike packages leaves alike clients. -/
theorem Paired.onRunMsgs (hpaired : Paired s f t u) {msgs msgs' more more' : List Package}
    (ht : t.ext.recvQueue.nodes = msgs ++ more) (hu : u.ext.recvQueue.nodes = msgs' ++ more')
    (hbytes : msgs.map Package.bytes = msgs'.map Package.bytes)
    (hfold : msgs.foldlM onRunMsg t = some v) :
    ∃ w, msgs'.foldlM onRunMsg u = some w ∧ Paired s f v w := by
  induction msgs generalizing t u msgs' with
  | nil =>
      rw [List.map_nil, eq_comm, List.map_eq_nil_iff] at hbytes
      subst hbytes
      cases hfold
      exact ⟨u, rfl, hpaired⟩
  | cons msg msgs ih =>
      obtain ⟨msg', msgs', rfl⟩ : ∃ m ms, msgs' = m :: ms := by
        cases msgs' with
        | nil => cases hbytes
        | cons m ms => exact ⟨m, ms, rfl⟩
      rw [List.map_cons, List.map_cons, List.cons.injEq] at hbytes
      rw [List.foldlM_cons] at hfold
      obtain ⟨t', hdeliver, hrest⟩ := Option.bind_eq_some_iff.mp hfold
      obtain ⟨frame, hshown, hdelivers⟩ := onRunMsg_cases hdeliver
      -- both messages have the same bytes, so both are shown alike
      have hspec := onRunMsg_spec u msg'
      rw [← shown_congr hbytes.1, hshown] at hspec
      obtain ⟨u', hdeliver', hdelivers'⟩ := hspec
      have ht' := hdelivers.queue
      have hu' := hdelivers'.queue
      rw [MyQueue.pop_of_cons ht] at ht'
      rw [MyQueue.pop_of_cons hu] at hu'
      have hqueue := hpaired.queue
      rw [ht, hu, List.cons_append, List.cons_append, List.map_cons, List.map_cons,
        List.cons.injEq] at hqueue
      obtain ⟨frames, htframes, huframes⟩ := hpaired.since
      have hnext : Paired s f t' u' := by
        refine ⟨?_, ⟨frames ++ [frame], ?_, ?_⟩, ?_⟩
        · rw [hdelivers.sock, hdelivers'.sock]
          exact hpaired.sock
        · rw [← List.append_assoc, ← htframes]
          exact hdelivers.delivered
        · rw [← List.append_assoc, ← huframes]
          exact hdelivers'.delivered
        · rw [ht', hu']
          exact hqueue.2
      obtain ⟨w, hfold', hlast⟩ := ih hnext (by rw [ht']; rfl) (by rw [hu']; rfl) hbytes.2 hrest
      refine ⟨w, ?_, hlast⟩
      rw [List.foldlM_cons, hdeliver']
      exact hfold'

/-- Delivering leaves what is retained alone. -/
theorem retained_of_onRunMsgs {msgs : List Package} (hfold : msgs.foldlM onRunMsg t = some v) :
    v.retained = t.retained := by
  induction msgs generalizing t with
  | nil =>
      cases hfold
      rfl
  | cons msg msgs ih =>
      rw [List.foldlM_cons] at hfold
      obtain ⟨t', hdeliver, hrest⟩ := Option.bind_eq_some_iff.mp hfold
      obtain ⟨_, _, hdelivers⟩ := onRunMsg_cases hdeliver
      rw [ih hrest, Endpoint.retained, Endpoint.retained, hdelivers.retainSize, hdelivers.recvBuf]

namespace Alike

theorem symm (halike : Alike s f t u) : Alike f s u t := by
  obtain ⟨⟨hsock, hsince, hqueue⟩, hinv, hretained⟩ := halike
  exact ⟨⟨hsock.symm, hsince.symm, hqueue.symm⟩, hinv.symm, hretained.symm⟩

theorem close (halike : Alike s f t u) : Alike s f (close t) (close u) := by
  obtain ⟨htclosed, _⟩ := close_spec halike.inv.1.send
  obtain ⟨huclosed, _⟩ := close_spec halike.inv.2.send
  refine ⟨halike.paired.close halike.inv.1.send halike.inv.2.send,
    ⟨halike.inv.1.close, halike.inv.2.close⟩, ?_⟩
  rw [Endpoint.retained, Endpoint.retained, htclosed.retainSize, htclosed.recvBuf,
    huclosed.retainSize, huclosed.recvBuf]
  exact halike.retained

/-- Alike clients are given the same bytes. -/
theorem taken_eq (halike : Alike s f t u) (hopen : t.sock ≠ invalidSocket) (chunk : List Byte) :
    u.sock ≠ invalidSocket ∧ t.taken chunk = u.taken chunk := by
  have hopen' : u.sock ≠ invalidSocket := fun hclosed => hopen (halike.paired.sock.mpr hclosed)
  obtain ⟨rest, ht⟩ := halike.inv.1.recv
  obtain ⟨rest', hu⟩ := halike.inv.2.recv
  have hrest : rest = rest' := ht.read.symm.trans (halike.retained.trans hu.read)
  refine ⟨hopen', ?_⟩
  simp only [taken, RecvAnswer.received, if_neg hopen, if_neg hopen', ht.size_eq, hu.size_eq,
    hrest]

/-- Their loops start over the same bytes. -/
theorem recvStart (halike : Alike s f t u) (bytes : List Byte) :
    SameBytes (Held t u s f) (t.recvStart bytes) (u.recvStart bytes) := by
  obtain ⟨rest, ht⟩ := halike.inv.1.recv
  obtain ⟨rest', hu⟩ := halike.inv.2.recv
  have hrest : rest = rest' := ht.read.symm.trans (halike.retained.trans hu.read)
  obtain ⟨htvalid, htunread⟩ := ht.behind bytes
  obtain ⟨huvalid, huunread⟩ := hu.behind bytes
  exact ⟨⟨htvalid, huvalid⟩, ⟨Option.some_ne_none _, Option.some_ne_none _⟩,
    htunread.trans (hrest ▸ huunread.symm),
    ⟨halike.paired.sock, halike.paired.since, halike.paired.queue⟩,
    halike.inv.1.recvStart bytes, halike.inv.2.recvStart bytes⟩

end Alike

/-- Clients that have closed while receiving retain nothing. -/
theorem Held.close (hheld : Held start start' s f t u) (hopen : start.sock ≠ invalidSocket)
    (hopen' : start'.sock ≠ invalidSocket) : Alike s f (close t) (close u) := by
  obtain ⟨htclosed, _⟩ := close_spec hheld.receiving.1.send
  obtain ⟨huclosed, _⟩ := close_spec hheld.receiving.2.send
  refine ⟨hheld.paired.close hheld.receiving.1.send hheld.receiving.2.send,
    ⟨hheld.receiving.1.close_inv hopen, hheld.receiving.2.close_inv hopen'⟩, ?_⟩
  rw [Endpoint.retained, Endpoint.retained, htclosed.retainSize, huclosed.retainSize,
    hheld.receiving.1.retainSize, hheld.receiving.2.retainSize]
  rfl

namespace Alike

/-- A `RecvThread` that returns on the one returns on the other. -/
theorem recvThread (halike : Alike s f t u) {value : Int}
    (hcall : Returns (.readable (.data chunk)) t value next) :
    ∃ value' next', Returns (.readable (.data chunk)) u value' next' ∧ Alike s f next next' := by
  by_cases hopen : t.sock = invalidSocket
  · obtain ⟨fuel, hcall⟩ := hcall
    rw [SelectClientThread.recvThread, if_pos hopen] at hcall
    cases hcall
    refine ⟨-1, u, ⟨0, ?_⟩, halike⟩
    rw [SelectClientThread.recvThread, if_pos (halike.paired.sock.mp hopen)]
  · obtain ⟨hopen', htaken⟩ := halike.taken_eq hopen chunk
    rcases returns_cases halike.inv.1 hopen hcall with
      ⟨hnone, _, rfl⟩ | ⟨hsome, exit, hyields, hexit⟩
    · exact ⟨-1, SelectClientThread.close u,
        returns_of_nothing hopen' (htaken.symm.trans hnone), halike.close⟩
    have hsome' : u.taken chunk ≠ [] := htaken ▸ hsome
    -- the two loops go through the same bytes side by side
    obtain ⟨exit', hyields', hagree⟩ :=
      Loop.Yields.simulate loop_alike (halike.recvStart (t.taken chunk)) hyields
    rw [htaken] at hyields'
    rcases hexit with ⟨oRecv, v, rfl, _, rfl⟩ | ⟨v, rfl, _, rfl⟩
    · obtain ⟨other, w, rfl, hsame⟩ := hagree.of_stopped
      have hpaired := hsame.same.paired
      have hkept := retained_of_stopped halike.inv.1 _ hyields
      have hkept' := retained_of_stopped halike.inv.2 _ hyields'
      refine ⟨0, w.recvStop other, returns_of_yields hopen' hsome' hyields' rfl,
        ⟨hpaired.sock, hpaired.since, hpaired.queue⟩,
        ⟨halike.inv.1.recvStop hopen _ hyields, halike.inv.2.recvStop hopen' _ hyields'⟩, ?_⟩
      exact hkept.read.trans (hsame.unread.trans hkept'.read.symm)
    · obtain ⟨w, rfl, v', w', hheld, rfl, rfl⟩ := hagree.of_full
      have hclosed := hheld.close hopen hopen'
      exact ⟨-1, SelectClientThread.close (SelectClientThread.close w'),
        returns_of_yields hopen' hsome' hyields' rfl, hclosed.close⟩

/-- An `OnRun` likewise. -/
theorem onRun (halike : Alike s f t u) {value : Int} (hcall : onRun t = some (value, next)) :
    ∃ value' next', SelectClientThread.onRun u = some (value', next') ∧
      Alike s f next next' := by
  have hinv := halike.inv.1.onRun hcall
  unfold SelectClientThread.onRun at hcall
  split at hcall
  next hclosed =>
    cases hcall
    refine ⟨-1, u, ?_, halike⟩
    rw [SelectClientThread.onRun, if_pos (halike.paired.sock.mp hclosed)]
  next hopen =>
    obtain ⟨last, hfold, hlast⟩ := Option.map_eq_some_iff.mp hcall
    cases hlast
    obtain ⟨w, hfold', hpaired⟩ := halike.paired.onRunMsgs (List.append_nil _).symm
      (List.append_nil _).symm halike.paired.queue hfold
    have hopen' : u.sock ≠ invalidSocket := fun hclosed => hopen (halike.paired.sock.mpr hclosed)
    have hcall' : SelectClientThread.onRun u = some (0, w) := by
      rw [SelectClientThread.onRun, if_neg hopen', hfold']
      rfl
    refine ⟨0, w, hcall', hpaired, ⟨hinv, halike.inv.2.onRun hcall'⟩, ?_⟩
    rw [retained_of_onRunMsgs hfold, retained_of_onRunMsgs hfold', halike.retained]

/-- What is delivered within an `OnRun` is too. -/
theorem within (halike : Alike s f t u) {input : Input} (hwithin : receiver.within t input v) :
    ∃ w, receiver.within u input w ∧ Paired s f v w := by
  cases input with
  | recvThread chunk => exact hwithin.elim
  | onRun =>
      obtain ⟨hopen, msgs, ⟨more, hmsgs⟩, hfold⟩ := hwithin
      have hqueue := halike.paired.queue
      have hsplit := (List.take_append_drop msgs.length u.ext.recvQueue.nodes).symm
      have hbytes : msgs.map Package.bytes =
          (u.ext.recvQueue.nodes.take msgs.length).map Package.bytes := by
        rw [List.map_take, ← hqueue, ← hmsgs, ← List.map_take, List.take_left]
      obtain ⟨w, hfold', hpaired⟩ :=
        halike.paired.onRunMsgs hmsgs.symm hsplit hbytes hfold
      exact ⟨w, ⟨fun hclosed => hopen (halike.paired.sock.mpr hclosed), _,
        List.take_prefix _ _, hfold'⟩, hpaired⟩

theorem call (halike : Alike s f t u) {input : Input} (hcall : receiver.call t input next) :
    ∃ next', receiver.call u input next' ∧ Alike s f next next' := by
  cases input with
  | recvThread chunk =>
      obtain ⟨value, hcall⟩ := hcall
      obtain ⟨value', next', hcall', hnext⟩ := halike.recvThread hcall
      exact ⟨next', ⟨value', hcall'⟩, hnext⟩
  | onRun =>
      obtain ⟨value, hcall⟩ := hcall
      obtain ⟨value', next', hcall', hnext⟩ := halike.onRun hcall
      exact ⟨next', ⟨value', hcall'⟩, hnext⟩

end Alike

/-! ## A client that retains something -/

theorem alike_of_retainSize (hs : Inv s) (hf : Inv f) (hopen : s.sock ≠ invalidSocket)
    (hopen' : f.sock ≠ invalidSocket) (hqueue : s.ext.recvQueue.nodes = [])
    (hqueue' : f.ext.recvQueue.nodes = []) (hclean : s.retainSize = 0) (hfresh : f.retainSize = 0) :
    Alike s f s f := by
  refine ⟨⟨iff_of_false hopen hopen', ⟨[], ?_, ?_⟩, ?_⟩, ⟨hs, hf⟩, ?_⟩
  · exact (List.append_nil _).symm
  · exact (List.append_nil _).symm
  · rw [hqueue, hqueue']
  · rw [Endpoint.retained, Endpoint.retained, hclean, hfresh]
    rfl

/-- What delivering some packages adds, and the first of them. -/
theorem delivered_of_onRunMsgs {msgs : List Package} (hfold : msgs.foldlM onRunMsg t = some v) :
    match msgs with
    | [] => v = t
    | msg :: _ => ∃ frame frames, shown msg = some frame ∧
        v.ext.delivered = t.ext.delivered ++ frame :: frames := by
  induction msgs generalizing t with
  | nil =>
      cases hfold
      rfl
  | cons msg msgs ih =>
      rw [List.foldlM_cons] at hfold
      obtain ⟨t', hdeliver, hrest⟩ := Option.bind_eq_some_iff.mp hfold
      obtain ⟨frame, hshown, hdelivers⟩ := onRunMsg_cases hdeliver
      have hlater := ih hrest
      split at hlater
      next =>
        subst hlater
        exact ⟨frame, [], hshown, hdelivers.delivered⟩
      next =>
        obtain ⟨second, frames, _, hframes⟩ := hlater
        refine ⟨frame, second :: frames, hshown, ?_⟩
        rw [hframes, hdelivers.delivered, List.append_assoc]
        rfl

/-- A package cut off by its header is shown padded, if at all. -/
theorem shown_of_take {stream frame : List Byte} {count unit : Nat}
    (hsize : headRule.size stream = some count) (hlen : count ≤ stream.length)
    (hshown : shown ⟨unit, stream.take count⟩ = some frame) :
    frame = padded (stream.take count) := by
  have htake : (stream.take count).length = count := by
    rw [List.length_take, Nat.min_eq_left hlen]
  by_cases hhead : 2 ≤ count
  · have hushort : ushort (stream.take count) = (stream.take count).length := by
      rw [ushort_take hhead, htake, headRule_size_eq hsize]
    have hframe : shown ⟨unit, stream.take count⟩ = _ :=
      shown_of_frame (by rw [htake]; exact hhead) hushort
        (by rw [htake]; exact headRule_size_le hsize)
    exact Option.some.inj (hshown.symm.trans hframe)
  · have hnone : Package.msgSize ⟨unit, stream.take count⟩ = none :=
      if_neg (by rw [htake]; exact hhead)
    rw [shown, hnone] at hshown
    cases hshown

/-- What the client holds behind a `RecvThread` on the probe: nothing, if it has
closed, else packages that begin with the first of the stream. -/
theorem recvThread_probe (hinv : Inv s) (hopen : s.sock ≠ invalidSocket)
    (hqueue : s.ext.recvQueue.nodes = []) {value : Int}
    (hcall : Returns (.readable (.data probe)) s value t) :
    t.ext.delivered = s.ext.delivered ∧
      (t.sock = invalidSocket ∨ t.ext.recvQueue.nodes = [] ∨
        ∃ count unit more, headRule.size (s.retained ++ probe) = some count ∧
          count ≤ (s.retained ++ probe).length ∧
          t.ext.recvQueue.nodes = ⟨unit, (s.retained ++ probe).take count⟩ :: more) := by
  obtain ⟨rest, hretained⟩ := hinv.recv
  have hreceived := received_probe hretained hopen
  rcases returns_cases hinv hopen hcall with ⟨hnone, _⟩ | ⟨_, exit, hyields, hexit⟩
  · cases hreceived.symm.trans hnone
  rw [hreceived] at hyields
  obtain ⟨hvalid, hunread⟩ := hretained.behind probe
  have hexits := recvLoop_exits hinv probe hyields
  rcases hexit with ⟨oRecv, t, rfl, _, rfl⟩ | ⟨t, rfl, _, rfl⟩
  · refine ⟨hexits.1.delivered, Or.inr ?_⟩
    obtain ⟨⟨o, last⟩, hvisits, hleave⟩ := hyields.visits
    obtain rfl : last = t := eq_of_stopped hleave
    rw [Endpoint.retained, hretained.read, ← hunread]
    rcases first_of_visits hvalid hvisits with
      rfl | ⟨count, o', first, hsize, hlen, htake, ho, hlater⟩
    · exact Or.inl hqueue
    · obtain ⟨rfl, _⟩ := onPackage_more htake
      have hfirst := fun bytes => ((hinv.recvStart probe).queuePackage bytes).self
      obtain ⟨more, hmore⟩ := ((hfirst _).visits ho hlater).queue
      rw [queuePackage_nodes] at hmore
      refine Or.inr ⟨count, s.memoryPool.units, more, hsize, hlen, hmore.symm.trans ?_⟩
      rw [show (s.recvStart probe).2.ext.recvQueue.nodes = [] from hqueue]
      rfl
  · obtain ⟨last, hreceiving, rfl⟩ := hexits
    have hinner := close_spec hreceiving.send
    have houter := close_spec hinner.1.inv
    exact ⟨houter.2.1.trans (hinner.2.1.trans hreceiving.delivered), Or.inl houter.1.sock⟩

theorem not_delivers_probe (hinv : Inv s) (hopen : s.sock ≠ invalidSocket)
    (hqueue : s.ext.recvQueue.nodes = []) (hdirty : s.retainSize ≠ 0) :
    ¬ receiver.Delivers s [.recvThread probe, .onRun] [padded probe] := by
  obtain ⟨rest, hretained⟩ := hinv.recv
  have hrest : rest ≠ [] := by
    rintro rfl
    exact hdirty hretained.size_eq
  -- whatever part of the queue is delivered, it does not come to just the probe
  have hpart : ∀ t u msgs, (∃ value, Returns (.readable (.data probe)) s value t) →
      t.sock ≠ invalidSocket → msgs <+: t.ext.recvQueue.nodes → msgs.foldlM onRunMsg t = some u →
      u.ext.delivered ≠ s.ext.delivered ++ [padded probe] := by
    rintro t u msgs ⟨value, hcall⟩ hstill hmsgs hfold hdelivered
    obtain ⟨hsame, hcases⟩ := recvThread_probe hinv hopen hqueue hcall
    have hadded := delivered_of_onRunMsgs hfold
    split at hadded
    next =>
      subst hadded
      cases List.self_eq_append_right.mp (hsame.symm.trans hdelivered)
    next msg msgs =>
      obtain ⟨frame, frames, hshown, hframes⟩ := hadded
      rw [hdelivered, hsame] at hframes
      have hframe := List.append_cancel_left hframes
      rw [List.cons.injEq] at hframe
      rcases hcases with hclosed | hnone | ⟨count, unit, more, hsize, hlen, hnodes⟩
      · exact hstill hclosed
      · rw [hnone, List.prefix_nil] at hmsgs
        cases hmsgs
      · rw [hnodes, List.cons_prefix_cons] at hmsgs
        obtain ⟨rfl, _⟩ := hmsgs
        rw [Endpoint.retained, hretained.read] at hsize hlen hshown
        have hpadded := shown_of_take hsize hlen hshown
        exact padded_take_ne_probe hrest hretained.part hsize hlen
          (hpadded.symm.trans hframe.1.symm)
  intro hdelivers
  obtain ⟨t, hruns, u, ⟨value, hrun⟩ | ⟨hstill, msgs, hmsgs, hfold⟩, hu⟩ :=
    Receiver.Delivers.of_snoc [Input.recvThread probe] hdelivers
  · have hrecv := Machine.Runs.single_iff.mp hruns
    unfold SelectClientThread.onRun at hrun
    split at hrun
    next hclosed =>
      cases hrun
      obtain ⟨value, hcall⟩ := hrecv
      have hsame := (recvThread_probe hinv hopen hqueue hcall).1
      cases List.self_eq_append_right.mp (hsame.symm.trans hu)
    next hstill =>
      obtain ⟨last, hfold, hlast⟩ := Option.map_eq_some_iff.mp hrun
      cases hlast
      exact hpart t u _ hrecv hstill (List.prefix_refl _) hfold hu
  · exact hpart t u msgs (Machine.Runs.single_iff.mp hruns) hstill hmsgs hfold hu

theorem delivers_probe (hinv : Inv s) (hopen : s.sock ≠ invalidSocket)
    (hqueue : s.ext.recvQueue.nodes = []) (hclean : s.retainSize = 0) :
    receiver.Delivers s [.recvThread probe, .onRun] [padded probe] := by
  obtain ⟨rest, hretained⟩ := hinv.recv
  have hreceived := received_probe hretained hopen
  have hrest : rest = [] := by
    rw [← hretained.read, hclean]
    rfl
  subst hrest
  have hloop := recvPass_spec onPackage hretained probe (s.recvStart probe).2
  have hroom : (s.recvStart probe).2.ext.recvQueue.size + [probe].length ≤
      clientRecvQueueMaxAccumulateCount := by
    have hsize : (s.recvStart probe).2.ext.recvQueue.size = _ := hinv.counted
    rw [hsize, hqueue]
    decide
  simp only [List.nil_append, parse_probe, handAll_of_room [probe] hroom] at hloop
  obtain ⟨oRecv, hyields, _⟩ := hloop
  obtain ⟨t, ht⟩ : ∃ t, t = queuePackage (s.recvStart probe).2 probe := ⟨_, rfl⟩
  have hsome : (RecvAnswer.data probe).received s.sock
      (clientRecvBufferSize - s.retainSize) ≠ [] := by
    rw [hreceived]
    decide
  have hyields : Loop.Yields (recvPass onPackage) (s.recvStart ((RecvAnswer.data probe).received
      s.sock (clientRecvBufferSize - s.retainSize))) (some (.stopped oRecv t)) := by
    rw [hreceived, ht]
    exact hyields
  have hrecv : Returns (.readable (.data probe)) s 0 (t.recvStop oRecv) :=
    returns_of_yields hopen hsome hyields rfl
  have hnodes : (t.recvStop oRecv).ext.recvQueue.nodes = [⟨s.memoryPool.units, probe⟩] := by
    rw [ht]
    change s.ext.recvQueue.nodes ++ [_] = _
    rw [hqueue]
    rfl
  have hspec := onRunMsg_spec (t.recvStop oRecv) ⟨s.memoryPool.units, probe⟩
  rw [shown_of_frame (show 2 ≤ probe.length by decide)
    (show ushort probe = probe.length by decide)
    (show probe.length ≤ packageMaxSize by decide)] at hspec
  obtain ⟨next, hdeliver, hdelivers⟩ := hspec
  have hrun : onRun (t.recvStop oRecv) = some (0, next) := by
    have hstill : (t.recvStop oRecv).sock ≠ invalidSocket := by
      rw [ht]
      exact hopen
    rw [onRun, if_neg hstill, hnodes, List.foldlM_cons, hdeliver]
    rfl
  refine Or.inl ⟨next, (Machine.Runs.single ⟨0, hrecv⟩).next ⟨0, hrun⟩,
    hdelivers.delivered.trans ?_⟩
  rw [ht]
  rfl

/-- A new connection of `s` delivers what the first connection of a new client
does, for the same calls on the same chunks. -/
def ReceivesAsNew (s : SelectClientThread) : Prop :=
  ∀ (sock sock' : Socket) (sendBuf recvBuf package : Memory Byte) (test : Option TestCounters),
    sock ≠ invalidSocket → sock' ≠ invalidSocket → ∀ inputs frames,
      (receiver.Delivers (connect (.connected sock) s).2 inputs frames ↔
        receiver.Delivers (connect (.connected sock') (new sendBuf recvBuf package test)).2 inputs
          frames)

theorem delivers_of_alike (halike : Alike s f s f) (hdelivers : receiver.Delivers s inputs frames) :
    receiver.Delivers f inputs frames :=
  hdelivers.simulate (fun _ _ _ _ halike hcall => halike.call hcall)
    (fun _ _ _ _ halike hwithin => halike.within hwithin) (fun _ _ halike => halike.paired)
    (fun _ _ hpaired => hpaired.since) halike

/-- What a connected client starts with. -/
theorem connected_spec (hinv : Inv s) (sock : Socket) :
    Inv (connect (.connected sock) s).2 ∧ (connect (.connected sock) s).2.sock = sock ∧
      (connect (.connected sock) s).2.ext.recvQueue.nodes = [] ∧
      (connect (.connected sock) s).2.retainSize = s.retainSize :=
  ⟨hinv.connect (.connected sock), rfl, (hinv.close.closed hinv.close_sock).2,
    (close_spec hinv.send).1.retainSize⟩

theorem receivesAsNew_iff (hinv : Inv s) : ReceivesAsNew s ↔ s.retainSize = 0 := by
  constructor
  · intro hsame
    by_contra hdirty
    have hopen : (5 : Socket) ≠ invalidSocket := by decide
    obtain ⟨hs, _, hqueue, hretain⟩ := connected_spec hinv 5
    obtain ⟨hf, _, hqueue', hretain'⟩ :=
      connected_spec (new_inv (fun _ => 0) (fun _ => 0) (fun _ => 0) none) 5
    have hfresh := delivers_probe hf hopen hqueue' hretain'
    exact not_delivers_probe hs hopen hqueue (hretain ▸ hdirty)
      ((hsame 5 5 _ _ _ _ hopen hopen _ _).mpr hfresh)
  · intro hclean sock sock' sendBuf recvBuf package test hopen hopen' inputs frames
    obtain ⟨hs, _, hqueue, hretain⟩ := connected_spec hinv sock
    obtain ⟨hf, _, hqueue', hretain'⟩ :=
      connected_spec (new_inv sendBuf recvBuf package test) sock'
    have halike := alike_of_retainSize hs hf hopen hopen' hqueue hqueue' (hretain.trans hclean)
      hretain'
    exact ⟨delivers_of_alike halike, delivers_of_alike halike.symm⟩

end SelectClientThread

end SelectNet
