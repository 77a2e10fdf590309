import SelectNet.CommonLib.SelectClientThread

/-!
# Sending terminates

`ProcessorSend` and `SendThread` return from every state whose positions are in
range and in which `_oMsg` goes with an entry of the queue, however many entries
there are and however long, and whatever the kernel answers. All states that can
be reached are such states.
-/

namespace SelectNet

/-- The nested loops end, after no more passes than the bytes and entries on
their way out allow, and the call returns. -/
structure Endpoint.SendEnds {ρ : Type} (close : Endpoint ρ → Endpoint ρ) (limit : Nat)
    (answers : Nat → SendAnswer) (s : Endpoint ρ) : Prop where
  ends : ∃ exit, Loop.run (sendPass close limit answers) s.sendFuel (s, 0) = some exit
  returns : ∃ value next, s.runSend close limit answers = some (value, next)

theorem Endpoint.Sound.sendEnds {ρ : Type} {s : Endpoint ρ} (hsound : s.Sound)
    (close : Endpoint ρ → Endpoint ρ) (limit : Nat) (answers : Nat → SendAnswer) :
    s.SendEnds close limit answers :=
  ⟨hsound.exists_run close limit answers, hsound.runSend close limit answers⟩

theorem ClientSocket.sound_of_reachable {ω : Type} {handle : MsgHandle ω} {s : ClientSocket ω}
    (hreach : (ClientSocket.machine handle).Reachable s) : s.Sound :=
  (ClientSocket.inv_of_reachable hreach).send.sound

theorem SelectClientThread.sound_of_reachable {s : SelectClientThread}
    (hreach : SelectClientThread.machine.Reachable s) : Endpoint.Sound s :=
  (SelectClientThread.inv_of_reachable hreach).send.sound

/-- The send loops of both classes terminate. -/
theorem send_terminates (answers : Nat → SendAnswer) :
    (∀ (ω : Type) (s : ClientSocket ω), s.Sound →
      s.SendEnds ClientSocket.close serverSendQueueMaxAccumulateCount answers ∧
      ∃ value next, s.processorSend answers = some (value, next)) ∧
    ∀ s : SelectClientThread, Endpoint.Sound s →
      Endpoint.SendEnds SelectClientThread.close clientSendQueueMaxAccumulateCount answers s ∧
      ∃ value next, SelectClientThread.sendThread answers s = some (value, next) := by
  constructor
  · intro ω s hsound
    have hends := hsound.sendEnds ClientSocket.close serverSendQueueMaxAccumulateCount answers
    exact ⟨hends, hends.returns⟩
  · intro s hsound
    have hends :=
      hsound.sendEnds SelectClientThread.close clientSendQueueMaxAccumulateCount answers
    exact ⟨hends, hends.returns⟩

/-- Two empty messages around one of three bytes, to a kernel that takes a byte
at a time. -/
theorem send_terminates_bytewise :
    let s := ([0, 3, 0] : List Nat).foldl (fun s dataLen => (s.sendData (fun _ => 7) dataLen).2)
      (ClientSocket.new 5 () (fun _ => 0) (fun _ => 0) (fun _ => 0) none)
    ∃ value next, s.processorSend (fun _ => .writable 1) = some (value, next) := by
  intro s
  let quiet : MsgHandle Unit := fun world _ => (world, [])
  have hstep : ∀ (t : ClientSocket Unit) (dataLen : Nat), (ClientSocket.machine quiet).step t
      (.sendData (fun _ => 7) dataLen) (t.sendData (fun _ => 7) dataLen).2 := fun _ _ => rfl
  have hreach : (ClientSocket.machine quiet).Reachable s :=
    .next (.next (.next (.start ⟨5, (), _, _, _, none, rfl⟩) (hstep _ 0)) (hstep _ 3)) (hstep _ 0)
  have hsound : s.Sound := ClientSocket.sound_of_reachable hreach
  exact ((send_terminates fun _ => .writable 1).1 Unit s hsound).2

end SelectNet
