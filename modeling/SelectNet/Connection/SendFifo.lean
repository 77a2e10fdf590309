import SelectNet.CommonLib.SelectClientThread

/-!
# The send path is a FIFO

Calls of `SendData` and of the send loop, in any order and with any answers of
the kernel. What the kernel has taken and what is on its way out together are
the payloads, in the order of the calls.
-/

namespace SelectNet

/-- The calls of one thread that uses the send side. -/
inductive SendOp where
  | sendData (data : Memory Byte) (dataLen : Nat)
  | processorSend (answers : Nat → SendAnswer)

namespace SendOp

/-- What a call is given to send. -/
def payload : SendOp → List Byte
  | .sendData data dataLen => data.read 0 dataLen
  | .processorSend _ => []

variable {ρ : Type}

/-- One call, given the class's send loop. -/
def call (sendLoop : (Nat → SendAnswer) → Endpoint ρ → Option (Int × Endpoint ρ)) :
    SendOp → Endpoint ρ → Option (Int × Endpoint ρ)
  | .sendData data dataLen, s => some (s.sendData data dataLen)
  | .processorSend answers, s => sendLoop answers s

/-- The calls one after the other, with what they return. -/
def callAll (sendLoop : (Nat → SendAnswer) → Endpoint ρ → Option (Int × Endpoint ρ)) :
    List SendOp → Endpoint ρ → Option (List Int × Endpoint ρ)
  | [], s => some ([], s)
  | op :: ops, s =>
      (op.call sendLoop s).bind fun (value, s) =>
        (callAll sendLoop ops s).map fun (values, s) => (value :: values, s)

end SendOp

namespace Endpoint

variable {ρ : Type} {s : Endpoint ρ} (close : Endpoint ρ → Endpoint ρ) (limit : Nat)

/-- One call: it returns, keeps the invariant, and unless it failed the stream
has grown by its payload. -/
theorem call_spec (hclose : ∀ t : Endpoint ρ, t.SendInv → (close t).SendInv)
    (hinv : s.SendInv) (op : SendOp) :
    ∃ value next, op.call (fun answers s => s.runSend close limit answers) s =
        some (value, next) ∧ next.SendInv ∧
      (value ≠ -1 → next.accepted ++ next.outgoing = s.accepted ++ s.outgoing ++ op.payload) := by
  cases op with
  | sendData data dataLen =>
      obtain ⟨_, hnext, hstream⟩ := sendData_spec hinv data dataLen
      refine ⟨(s.sendData data dataLen).1, (s.sendData data dataLen).2, rfl, hnext,
        fun hvalue => hstream fun hclosed => hvalue ?_⟩
      rw [sendData, if_pos hclosed]
  | processorSend answers =>
      by_cases hclosed : s.sock = invalidSocket
      · exact ⟨-1, s, if_pos hclosed, hinv, fun hvalue => absurd rfl hvalue⟩
      · obtain ⟨value, next, hrun, hreturns⟩ := runSend_spec close limit answers hinv hclosed
        refine ⟨value, next, hrun, ?_⟩
        rcases hreturns with ⟨_, hkept⟩ | ⟨hvalue, last, hkept, rfl⟩
        · exact ⟨hkept.inv, fun _ => by rw [hkept.stream, SendOp.payload, List.append_nil]⟩
        · exact ⟨hclose last hkept.inv, fun hopen => absurd hvalue hopen⟩

theorem callAll_spec (hclose : ∀ t : Endpoint ρ, t.SendInv → (close t).SendInv)
    (hinv : s.SendInv) (ops : List SendOp) :
    ∃ values next, SendOp.callAll (fun answers s => s.runSend close limit answers) ops s =
        some (values, next) ∧ next.SendInv ∧
      (-1 ∉ values → next.accepted ++ next.outgoing =
        s.accepted ++ s.outgoing ++ ops.flatMap SendOp.payload) := by
  induction ops generalizing s with
  | nil => exact ⟨[], s, rfl, hinv, fun _ => by simp⟩
  | cons op ops ih =>
      obtain ⟨value, middle, hcall, hmiddle, hstep⟩ := call_spec close limit hclose hinv op
      obtain ⟨values, next, hcalls, hnext, hrest⟩ := ih hmiddle
      refine ⟨value :: values, next, ?_, hnext, fun hvalues => ?_⟩
      · simp only [SendOp.callAll, hcall, Option.bind_some, hcalls, Option.map_some]
      · rw [List.mem_cons, not_or] at hvalues
        rw [hrest hvalues.2, hstep (Ne.symm hvalues.1), List.flatMap_cons, List.append_assoc]

end Endpoint

/-- What the send side guarantees after calls that returned `values`. -/
structure Fifo {ρ : Type} (ops : List SendOp) (values : List Int) (s : Endpoint ρ) : Prop where
  stream : -1 ∉ values →
    s.accepted ++ s.ioSend.unread ++ s.oMsg.unread ++ s.behind.flatMap Endpoint.payload =
      ops.flatMap SendOp.payload
  offered : ∀ call ∈ s.kernel, call.io.curReadPos = 0 ∧ call.offered = call.io.unread

theorem Endpoint.callAll_fifo {ρ : Type} {s : Endpoint ρ} (close : Endpoint ρ → Endpoint ρ)
    (limit : Nat) (hclose : ∀ t : Endpoint ρ, t.SendInv → (close t).SendInv) (hinv : s.SendInv)
    (hidle : s.Idle) (hkernel : s.kernel = []) (ops : List SendOp) :
    ∃ values next, SendOp.callAll (fun answers s => s.runSend close limit answers) ops s =
        some (values, next) ∧ Fifo ops values next := by
  obtain ⟨values, next, hcalls, hnext, hstream⟩ := callAll_spec close limit hclose hinv ops
  refine ⟨values, next, hcalls, fun hvalues => ?_, fun call hcall =>
    ⟨hnext.calls_front call hcall, hnext.offered_eq hcall⟩⟩
  have hstart : s.accepted = [] := by rw [accepted, hkernel, List.flatMap_nil]
  have hgrown := hstream hvalues
  rw [hidle.outgoing_eq hinv, hstart, List.nil_append, List.nil_append, outgoing] at hgrown
  simpa only [List.append_assoc] using hgrown

/-- The send path of a `ClientSocket`, from its construction on, and of a
`SelectClient_Thread`, from any `Connect` on, loses nothing and keeps the order. -/
theorem send_fifo :
    (∀ (ω : Type) (sock : Socket) (world : ω) (sendBuf recvBuf package : Memory Byte)
        (test : Option TestCounters) (ops : List SendOp),
      ∃ values s, SendOp.callAll ClientSocket.processorSend ops
          (ClientSocket.new sock world sendBuf recvBuf package test) = some (values, s) ∧
        Fifo ops values s) ∧
    ∀ client : SelectClientThread, SelectClientThread.machine.Reachable client →
      ∀ (sock : Socket) (ops : List SendOp),
        ∃ values s, SendOp.callAll SelectClientThread.sendThread ops
            (SelectClientThread.connect (.connected sock) client).2 = some (values, s) ∧
          Fifo ops values s := by
  constructor
  · intro ω sock world sendBuf recvBuf package test ops
    obtain ⟨hinv, hidle⟩ := Endpoint.fresh_spec
      (s := ClientSocket.new sock world sendBuf recvBuf package test)
      rfl rfl (show 0 < serverSendBufferSize by decide) rfl rfl
    exact Endpoint.callAll_fifo _ _ (fun t ht => (ClientSocket.close_spec ht).1.inv) hinv hidle
      rfl ops
  · intro client hreach sock ops
    have hclosed := (SelectClientThread.inv_of_reachable hreach).close
    obtain ⟨hinv, hidle⟩ := hclosed.reopen
      (SelectClientThread.inv_of_reachable hreach).close_sock sock
    exact Endpoint.callAll_fifo _ _ (fun t ht => (SelectClientThread.close_spec ht).1.inv)
      hinv.send hidle rfl ops

theorem send_fifo_new_client :
    ∃ values s, SendOp.callAll SelectClientThread.sendThread
        [.sendData (fun _ => 7) 3, .processorSend fun _ => .writable 2]
        (SelectClientThread.connect (.connected 5)
          (SelectClientThread.new (fun _ => 0) (fun _ => 0) (fun _ => 0) none)).2 =
        some (values, s) ∧
      Fifo [.sendData (fun _ => 7) 3, .processorSend fun _ => .writable 2] values s :=
  send_fifo.2 _ (.start ⟨_, _, _, _, rfl⟩) 5 _

end SelectNet
