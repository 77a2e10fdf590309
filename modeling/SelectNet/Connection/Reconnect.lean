import SelectNet.Connection.ReconnectEasyTcp
import SelectNet.Connection.ReconnectSelectClient
import SelectNet.Connection.ReconnectThread

/-!
# One object, several connections

A client object that connects again is compared with a new one that receives
the same bytes in the same chunks. None of the three classes resets the count of
the bytes it retains when it closes, so they receive alike exactly if the old
connection has left nothing.
-/

namespace SelectNet

/-- After any history, a new connection of a client object delivers what the
first connection of a new object does, whatever is received, exactly if no bytes
of the old connection are retained. -/
theorem reconnect_as_new_iff {client : SelectClient} {thread : SelectClientThread}
    {easy : EasyTcpClient} (hclient : SelectClient.machine.Reachable client)
    (hthread : SelectClientThread.machine.Reachable thread)
    (heasy : EasyTcpClient.machine.Reachable easy) :
    (client.ReceivesAsNew ↔ client.retainSize = 0) ∧
      (SelectClientThread.ReceivesAsNew thread ↔ thread.retainSize = 0) ∧
      (easy.ReceivesAsNew ↔ easy.lastPos = 0) :=
  ⟨SelectClient.receivesAsNew_iff (SelectClient.inv_of_reachable hclient),
    SelectClientThread.receivesAsNew_iff (SelectClientThread.inv_of_reachable hthread),
    EasyTcpClient.receivesAsNew_iff (EasyTcpClient.inv_of_reachable heasy)⟩

/-- Old connections that end between two messages: each object receives a message
in two chunks, delivers it, and is closed. -/
theorem reconnect_as_new_between_messages :
    (∃ client, Machine.Runs SelectClient.machine.step (.new (fun _ => 0) fun _ => 0)
        [.connect (.connected 5), .onRun (.readable (.data [8, 0, 2])),
          .onRun (.readable (.data [0, 0, 0, 104, 105])), .close] client ∧
      client.delivered.length = 1 ∧ client.ReceivesAsNew) ∧
    (∃ thread, Machine.Runs SelectClientThread.machine.step
        (.new (fun _ => 0) (fun _ => 0) (fun _ => 0) none)
        [.connect (.connected 5), .recvThread (.readable (.data [8, 0, 2])),
          .recvThread (.readable (.data [0, 0, 0, 104, 105])), .onRun, .close] thread ∧
      thread.ext.delivered.length = 1 ∧ SelectClientThread.ReceivesAsNew thread) ∧
    ∃ easy, Machine.Runs EasyTcpClient.machine.step .new
        [.connect 5 true, .onRun (.readable (.data [6, 0, 1])),
          .onRun (.readable (.data [0, 104, 105])), .close] easy ∧
      easy.netMsgs = [[6, 0, 1, 0, 104, 105]] ∧ easy.ReceivesAsNew := by
  obtain ⟨client, hclient, hone, hclean⟩ : ∃ client, Machine.Runs SelectClient.machine.step
      (.new (fun _ => 0) fun _ => 0)
      [.connect (.connected 5), .onRun (.readable (.data [8, 0, 2])),
        .onRun (.readable (.data [0, 0, 0, 104, 105])), .close] client ∧
      client.delivered.length = 1 ∧ client.retainSize = 0 :=
    ⟨_, (((Machine.Runs.single rfl).next ⟨0, 1, rfl⟩).next ⟨0, 2, rfl⟩).next rfl, rfl, rfl⟩
  obtain ⟨thread, hthread, htone, htclean⟩ : ∃ thread, Machine.Runs SelectClientThread.machine.step
      (.new (fun _ => 0) (fun _ => 0) (fun _ => 0) none)
      [.connect (.connected 5), .recvThread (.readable (.data [8, 0, 2])),
        .recvThread (.readable (.data [0, 0, 0, 104, 105])), .onRun, .close] thread ∧
      thread.ext.delivered.length = 1 ∧ thread.retainSize = 0 :=
    ⟨_, ((((Machine.Runs.single rfl).next ⟨0, 1, rfl⟩).next ⟨0, 2, rfl⟩).next ⟨0, rfl⟩).next rfl,
      rfl, rfl⟩
  obtain ⟨easy, heasy, heone, heclean⟩ : ∃ easy, Machine.Runs EasyTcpClient.machine.step .new
      [.connect 5 true, .onRun (.readable (.data [6, 0, 1])),
        .onRun (.readable (.data [0, 104, 105])), .close] easy ∧
      easy.netMsgs = [[6, 0, 1, 0, 104, 105]] ∧ easy.lastPos = 0 :=
    ⟨_, (((Machine.Runs.single rfl).next ⟨1, 1, rfl⟩).next ⟨1, 2, rfl⟩).next rfl, rfl, rfl⟩
  obtain ⟨hasNew, htasNew, heasNew⟩ := reconnect_as_new_iff
    (hclient.reachable (.start ⟨_, _, rfl⟩)) (hthread.reachable (.start ⟨_, _, _, _, rfl⟩))
    (heasy.reachable (.start rfl))
  exact ⟨⟨client, hclient, hone, hasNew.mpr hclean⟩,
    ⟨thread, hthread, htone, htasNew.mpr htclean⟩, easy, heasy, heone, heasNew.mpr heclean⟩

/-- A connection that is closed behind one byte of a message, in a new object of
each class: the next connection does not deliver what a new object would. -/
theorem reconnect_not_as_new :
    (∃ t, SelectClient.Returns (.readable (.data [6]))
        (SelectClient.connect (.connected 5) (.new (fun _ => 0) fun _ => 0)).2 0 t ∧
      ¬ (SelectClient.close t).ReceivesAsNew) ∧
    (∃ t, SelectClientThread.Returns (.readable (.data [6]))
        (SelectClientThread.connect (.connected 5)
          (.new (fun _ => 0) (fun _ => 0) (fun _ => 0) none)).2 0 t ∧
      ¬ SelectClientThread.ReceivesAsNew (SelectClientThread.close t)) ∧
    ∃ t, EasyTcpClient.Returns (.readable (.data [6]))
        (EasyTcpClient.connect 5 true .new).2 1 t ∧
      ¬ (EasyTcpClient.close t).ReceivesAsNew := by
  refine ⟨?_, ?_, ?_⟩
  · obtain ⟨t, hcall, hretain⟩ : ∃ t, SelectClient.Returns (.readable (.data [6]))
        (SelectClient.connect (.connected 5) (.new (fun _ => 0) fun _ => 0)).2 0 t ∧
        (SelectClient.close t).retainSize = 1 := ⟨_, ⟨1, rfl⟩, rfl⟩
    have hnew : SelectClient.Inv (.new (fun _ => 0) fun _ => 0) := ⟨[], Retained.nothing _⟩
    have hinv := (hnew.connect (.connected 5)).onRun hcall
    refine ⟨t, hcall, fun hsame => ?_⟩
    cases hretain.symm.trans ((SelectClient.receivesAsNew_iff hinv.close).mp hsame)
  · obtain ⟨t, hcall, hretain⟩ : ∃ t, SelectClientThread.Returns (.readable (.data [6]))
        (SelectClientThread.connect (.connected 5)
          (.new (fun _ => 0) (fun _ => 0) (fun _ => 0) none)).2 0 t ∧
        (SelectClientThread.close t).retainSize = 1 := ⟨_, ⟨1, rfl⟩, rfl⟩
    have hnew := SelectClientThread.new_inv (fun _ => 0) (fun _ => 0) (fun _ => 0) none
    have hinv := (hnew.connect (.connected 5)).recvThread hcall
    refine ⟨t, hcall, fun hsame => ?_⟩
    cases hretain.symm.trans ((SelectClientThread.receivesAsNew_iff hinv.close).mp hsame)
  · obtain ⟨t, hcall, hretain⟩ : ∃ t, EasyTcpClient.Returns (.readable (.data [6]))
        (EasyTcpClient.connect 5 true .new).2 1 t ∧ (EasyTcpClient.close t).lastPos = 1 :=
      ⟨_, ⟨1, rfl⟩, rfl⟩
    have hinv := (EasyTcpClient.new_inv.connect 5 true).onRun hcall
    refine ⟨t, hcall, fun hsame => ?_⟩
    cases hretain.symm.trans ((EasyTcpClient.receivesAsNew_iff hinv.close).mp hsame)

end SelectNet
