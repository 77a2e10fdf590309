import SelectNet.ClientTest.Commands
import SelectNet.Server.Broadcast
import SelectNet.ServerTest.Server01

/-!
# What Server01 answers

For every command of a client, what its sender and the others are shown.
-/

namespace SelectNet

open Client01

/-- What a client is shown when Server01 handles a command, its own or another's. -/
def Command.shownTo (own : Bool) : Command → List Shown
  | .info => if own then [.info 80 (ascii "lwj")] else []
  | .login userId passwd => if own then [.login userId passwd] else [.newClient userId]
  | .logout _ => if own then [.logout] else []
  | .broadcast content => [.broadcast content]
  | .unknow => if own then [.unknow (ascii "what do you want to do")] else []

/-- A message that is sent as a frame and shown as this. -/
def Shows (msg : Memory Byte) (shown : List Shown) : Prop :=
  headRule.IsFrame (Endpoint.msgBytes msg) ∧ onRecvMsg (asPackage (Endpoint.msgBytes msg)) = shown

variable {stack id psw str package : Memory Byte} {frame : List Byte} {command : Command}

/-! ## The messages of the server -/

theorem write_of_read {memory : Memory Byte} {start : Nat} {cells : List Byte}
    (hread : memory.read start cells.length = cells) : memory.write start cells = memory := by
  funext address
  by_cases hlower : start ≤ address
  · by_cases hupper : address < start + cells.length
    · obtain ⟨index, rfl⟩ := Nat.exists_eq_add_of_le hlower
      have hindex : index < cells.length := by omega
      have hcell := congrArg (fun list : List Byte => list[index]?) hread
      simp only [Memory.getElem?_read _ hindex, List.getElem?_eq_getElem hindex,
        Option.some.injEq] at hcell
      rw [Memory.write_add _ _ hindex, hcell]
    · exact Memory.write_of_ge memory cells (by omega)
  · exact Memory.write_of_lt memory cells (by omega)

/-- The header is stored a second time as it is. -/
theorem loginResp_eq (stack id psw : Memory Byte) :
    (MsgLoginResp.new stack id psw).msg = (MsgLoginReq.new stack id psw).msg := by
  let head : MsgHead := ⟨MsgLoginReq.sizeof, MsgID.login.code, 0⟩
  let copies : List FieldCopy := [⟨MsgLoginReq.userId, 256, id⟩, ⟨MsgLoginReq.passwd, 256, psw⟩]
  have hbehind : ∀ copy ∈ copies, 0 + 4 ≤ copy.field := by
    simp [copies, MsgLoginReq.userId, MsgLoginReq.passwd]
  have hkept : (MsgLoginReq.new stack id psw).msg.read 0 4 = (head.store stack).read 0 4 :=
    (FieldCopy.foldl_before hbehind).2
  have hstored : (head.store stack).read 0 6 =
      ushortBytes head.size ++ ushortBytes head.msgId ++ ushortBytes head.code :=
    Memory.read_write stack 0 _
  have hfront := Memory.take_read (head.store stack) 0 6 4
  rw [hstored] at hfront
  have hread : (MsgLoginReq.new stack id psw).msg.read 0
      (ushortBytes MsgLoginReq.sizeof ++ ushortBytes MsgID.login.code).length =
      ushortBytes MsgLoginReq.sizeof ++ ushortBytes MsgID.login.code :=
    hkept.trans hfront.symm
  exact write_of_read hread

theorem loginResp_shows (hid : id.Terminated 256) (hpsw : psw.Terminated 256) :
    Shows (MsgLoginResp.new stack id psw).msg [.login (id.cstring 0 256) (psw.cstring 0 256)] := by
  obtain ⟨hframe, hload, hstring⟩ := @Built.sent_make stack
    ⟨MsgLoginReq.sizeof, MsgID.login.code, 0⟩
    [⟨MsgLoginReq.userId, 256, id⟩, ⟨MsgLoginReq.passwd, 256, psw⟩]
    (by simp [MsgLoginReq.userId, MsgLoginReq.passwd]) (by decide) (by decide) (by decide)
    (by decide)
  have huser := (hstring MsgLoginReq.userId 256 (by decide)).trans
    (Built.cstring_make [] _ hid (by simp [MsgLoginReq.userId, MsgLoginReq.passwd]))
  have hpasswd := (hstring MsgLoginReq.passwd 256 (by decide)).trans
    (Built.cstring_make [_] [] hpsw (List.forall_mem_nil _))
  rw [Shows, loginResp_eq]
  refine ⟨hframe, ?_⟩
  rw [onRecvMsg, MsgLoginReq.new, hload, huser, hpasswd]
  rfl

theorem newClient_shows (hid : id.Terminated 256) :
    Shows (MsgNewClientLoginResp.new stack id).msg [.newClient (id.cstring 0 256)] := by
  obtain ⟨hframe, hload, hstring⟩ := @Built.sent_make stack ⟨262, MsgID.newClientLogin.code, 0⟩
    [⟨6, 256, id⟩] (by simp) (by decide) (by decide) (by decide) (by decide)
  have huser := (hstring 6 256 (by decide)).trans
    (Built.cstring_make [] [] hid (List.forall_mem_nil _))
  refine ⟨hframe, ?_⟩
  rw [onRecvMsg, MsgNewClientLoginResp.new, hload, huser]
  rfl

theorem unknowResp_shows (hcontent : str.Terminated 128) :
    Shows (MsgUnknowResp.new stack str).msg [.unknow (str.cstring 0 128)] := by
  obtain ⟨hframe, hload, hstring⟩ := @Built.sent_make stack ⟨134, MsgID.unknow.code, 0⟩
    [⟨6, 128, str⟩] (by simp) (by decide) (by decide) (by decide) (by decide)
  have hsent := (hstring 6 128 (by decide)).trans
    (Built.cstring_make [] [] hcontent (List.forall_mem_nil _))
  refine ⟨hframe, ?_⟩
  rw [onRecvMsg, MsgUnknowResp.new, hload, hsent]
  rfl

theorem logoutResp_shows (stack : Memory Byte) :
    Shows (MsgHead.new stack .logout).msg [.logout] := by
  obtain ⟨hframe, hload, _⟩ := @Built.sent_make stack ⟨MsgHead.sizeof, MsgID.logout.code, 0⟩ []
    (List.forall_mem_nil _) (by decide) (by decide) (by decide) (by decide)
  refine ⟨hframe, ?_⟩
  rw [onRecvMsg, MsgHead.new, hload]
  rfl

/-- The age lies between the header and the name. -/
theorem infoResp_shows {age : Int} (hage : int (intBytes age) = age) (hname : str.Terminated 128) :
    Shows (MsgInfoResp.new stack age str).msg [.info age (str.cstring 0 128)] := by
  let head : MsgHead := ⟨140, MsgID.info.code, 0⟩
  let memory := stack.write 8 (intBytes age)
  obtain ⟨hframe, hload, hstring⟩ := @Built.sent_make memory head [⟨12, 128, str⟩]
    (by simp) (by decide) (by decide) (by decide) (by decide)
  have hsent := (hstring 12 128 (by decide)).trans
    (Built.cstring_make [] [] hname (List.forall_mem_nil _))
  obtain ⟨message, hmessage⟩ : ∃ message, (MsgInfoResp.new stack age str).msg = message := ⟨_, rfl⟩
  have hbuilt : (Built.make memory head [⟨12, 128, str⟩]).msg = message := hmessage
  have hread : message.read 8 4 = intBytes age := by
    have hbehind : ∀ copy ∈ [(⟨12, 128, str⟩ : FieldCopy)], 8 + 4 ≤ copy.field := by simp
    rw [← hbuilt, Built.make, (FieldCopy.foldl_before hbehind).2, MsgHead.store,
      Memory.read_write_after _ _ (by decide)]
    exact Memory.read_write stack 8 (intBytes age)
  rw [hbuilt] at hframe hload hsent
  have hsize : (MsgHead.load message).size = 140 := by
    rw [← hbuilt]
    exact congrArg MsgHead.size (Built.load_make (by simp) (by decide) (by decide) (by decide))
  have hkept : (asPackage (Endpoint.msgBytes message)).read 8 4 = message.read 8 4 := by
    apply Memory.read_congr
    intro address _ hupper
    exact asPackage_msgBytes message (by omega)
  rw [Shows, hmessage]
  refine ⟨hframe, ?_⟩
  rw [onRecvMsg, hload, hkept, hread, hage, hsent]
  rfl

/-- The broadcast of a client is sent on as it came. -/
theorem broadcast_shows {msg : Memory Byte} (hid : (MsgHead.load msg).msgId = MsgID.broadcast.code)
    (hback : Endpoint.msgBytes msg = frame) (hframe : headRule.IsFrame frame)
    (hshort : (msg.cstring 6 256) = (asPackage frame).cstring 6 256)
    (hload : MsgHead.load (asPackage frame) = MsgHead.load msg) :
    Shows msg [.broadcast (msg.cstring 6 256)] := by
  rw [Shows, hback]
  refine ⟨hframe, ?_⟩
  rw [onRecvMsg, hload, hid, hshort]
  rfl

/-! ## The handler -/

/-- What a handler finds in its package is the command of the frame. -/
theorem Command.Asks.ofPackage (hasks : command.Asks frame) (package : Memory Byte) :
    Command.ofPackage (fillPackage package frame) = command := by
  rw [← hasks.read]
  simp only [Command.ofPackage, load_fillPackage]
  rw [cstring_fillPackage _ _ (by decide), cstring_fillPackage _ _ (by decide),
    cstring_fillPackage _ _ (by decide)]

theorem Command.Asks.holds (hasks : command.Asks frame) (package : Memory Byte) :
    Holds (fillPackage package frame) command := by
  have hholds := holds_ofPackage (fillPackage package frame)
  rwa [hasks.ofPackage] at hholds

/-- The strings of a login are ended where the handler copies them from. -/
theorem Command.Holds.ends {userId passwd : List Byte} {msg : Memory Byte}
    (hholds : Holds msg (.login userId passwd)) (hfits : (Command.login userId passwd).Fits) :
    (msg.behind MsgLoginReq.userId).Terminated 256 ∧
      (msg.behind MsgLoginReq.passwd).Terminated 256 := by
  cases hholds
  exact ⟨Memory.terminated_behind_iff.mpr hfits.1, Memory.terminated_behind_iff.mpr hfits.2⟩

/-- What an act sends a client, as the client is shown it. -/
def shownOf (sent : List Sent) : List Shown :=
  sent.flatMap fun one => onRecvMsg (asPackage one.bytes)

/-- A client is sent frames that show it this. -/
def SendsShown (sent : List Sent) (shown : List Shown) : Prop :=
  (∀ one ∈ sent, headRule.IsFrame one.bytes) ∧ shownOf sent = shown

theorem SendsShown.nil : SendsShown [] [] := ⟨List.forall_mem_nil _, rfl⟩

theorem SendsShown.append {sent more : List Sent} {shown shown' : List Shown}
    (hfirst : SendsShown sent shown) (hsecond : SendsShown more shown') :
    SendsShown (sent ++ more) (shown ++ shown') := by
  refine ⟨List.forall_mem_append.mpr ⟨hfirst.1, hsecond.1⟩, ?_⟩
  rw [shownOf, List.flatMap_append, ← hfirst.2, ← hsecond.2]
  rfl

variable {msg : Memory Byte} {shown : List Shown}

theorem Shows.sends (hshows : Shows msg shown) (origin : Option Nat) :
    SendsShown [⟨origin, Endpoint.msgBytes msg⟩] shown := by
  refine ⟨?_, ?_⟩
  · rw [List.forall_mem_singleton]
    exact hshows.1
  · rw [shownOf, List.flatMap_singleton]
    exact hshows.2

/-- A reply goes to the sender only. -/
theorem Shows.reply (hshows : Shows msg shown) (pClient sender : ClientId) (number : Nat) :
    SendsShown (HandleAct.sent pClient sender number [.reply msg])
      (if pClient = sender then shown else []) := by
  rw [HandleAct.sent, HandleAct.sent, List.append_nil]
  split
  next => exact hshows.sends _
  next => exact .nil

theorem Shows.broadcast (hshows : Shows msg shown) (exclude : ClientId → Bool)
    (pClient sender : ClientId) (number : Nat) :
    SendsShown (HandleAct.sent pClient sender number [.broadcast msg exclude])
      (if exclude pClient then [] else shown) := by
  rw [HandleAct.sent, HandleAct.sent, List.append_nil, Member.copies]
  split
  next => exact .nil
  next => exact hshows.sends _

theorem literal_cstring {text : String} {limit : Nat} (hlen : (ascii text).length < limit)
    (hfree : 0 ∉ ascii text) :
    (literal text).Terminated limit ∧ (literal text).cstring 0 limit = ascii text :=
  ⟨Memory.terminated_ofList hlen, Memory.cstring_ofList hlen hfree⟩

/-- The messages that the handler sends a client are frames, and show it what the
command calls for. -/
theorem server01_sends (hasks : command.Asks frame) (own : Locals) (sender pClient : ClientId)
    (package : Memory Byte) (number : Nat) :
    SendsShown (HandleAct.sent pClient sender number
        (Server01.onMsgHandle own sender (fillPackage package frame)).2)
      (command.shownTo (decide (pClient = sender))) := by
  have hholds := hasks.holds package
  have hfits := hasks.fits
  obtain ⟨msg, hmsg⟩ : ∃ msg, fillPackage package frame = msg := ⟨_, rfl⟩
  have hback : Endpoint.msgBytes msg = frame := hmsg ▸ msgBytes_fillPackage package hasks.isFrame
  rw [hmsg] at hholds ⊢
  cases hholds with
  | info hid =>
      have hacts : (Server01.onMsgHandle own sender msg).2 =
          [.reply (MsgInfoResp.new (own.stack 0) 80 (literal "lwj")).msg] := by
        simp only [Server01.onMsgHandle, if_pos hid]
        rfl
      obtain ⟨hname, hshown⟩ : (literal "lwj").Terminated 128 ∧
        (literal "lwj").cstring 0 128 = ascii "lwj" := literal_cstring (by decide) (by decide)
      have hshows := @infoResp_shows (own.stack 0) _ 80 (by decide) hname
      rw [hshown] at hshows
      rw [hacts]
      simpa only [Command.shownTo, decide_eq_true_eq] using hshows.reply pClient sender number
  | login hid =>
      have hne : MsgID.login.code ≠ MsgID.info.code := by decide
      obtain ⟨hid', hpsw⟩ := Command.Holds.ends (.login hid) hfits
      have hreply := (@loginResp_shows (own.stack 0) _ _ hid' hpsw).reply pClient sender number
      have hannounce := (@newClient_shows (own.stack 1) _ hid').broadcast
        (fun client => client = sender) pClient sender number
      have hacts : (Server01.onMsgHandle own sender msg).2 =
          [.reply (MsgLoginResp.new (own.stack 0) (msg.behind MsgLoginReq.userId)
              (msg.behind MsgLoginReq.passwd)).msg,
            .broadcast
              (MsgNewClientLoginResp.new (own.stack 1) (msg.behind MsgLoginReq.userId)).msg
              fun client => client = sender] := by
        simp only [Server01.onMsgHandle, hid, if_neg hne, if_true]
        rfl
      rw [hacts, HandleAct.sent]
      rw [HandleAct.sent, HandleAct.sent, List.append_nil] at hreply
      have hboth := hreply.append hannounce
      simp only [Memory.cstring_behind, decide_eq_true_eq] at hboth
      by_cases hown : pClient = sender
      · simpa only [Command.shownTo, hown, if_true, decide_true, List.append_nil] using hboth
      · simpa only [Command.shownTo, hown, if_false, decide_false, List.nil_append,
          Bool.false_eq_true] using hboth
  | logout hid =>
      have hinfo : MsgID.logout.code ≠ MsgID.info.code := by decide
      have hlogin : MsgID.logout.code ≠ MsgID.login.code := by decide
      have hacts : (Server01.onMsgHandle own sender msg).2 =
          [.reply (MsgHead.new (own.stack 0) .logout).msg] := by
        simp only [Server01.onMsgHandle, hid, if_neg hinfo, if_neg hlogin, if_true]
        rfl
      rw [hacts]
      have hreply := (logoutResp_shows (own.stack 0)).reply pClient sender number
      simpa only [Command.shownTo, decide_eq_true_eq] using hreply
  | broadcast hid =>
      have hshows := broadcast_shows hid hback hasks.isFrame
        (hmsg ▸ cstring_fillPackage package frame (by decide))
        (hmsg ▸ (load_fillPackage package frame).symm)
      have hinfo : MsgID.broadcast.code ≠ MsgID.info.code := by decide
      have hlogin : MsgID.broadcast.code ≠ MsgID.login.code := by decide
      have hlogout : MsgID.broadcast.code ≠ MsgID.logout.code := by decide
      have hacts : (Server01.onMsgHandle own sender msg).2 =
          [.broadcast msg fun _ => false] := by
        simp only [Server01.onMsgHandle, hid, if_neg hinfo, if_neg hlogin, if_neg hlogout, if_true]
      rw [hacts]
      exact hshows.broadcast (fun _ => false) pClient sender number
  | unknow hinfo hlogin hlogout hbroadcast =>
      have hacts : (Server01.onMsgHandle own sender msg).2 =
          [.reply (MsgUnknowResp.new (own.stack 0) (literal "what do you want to do")).msg] := by
        simp only [Server01.onMsgHandle, if_neg hinfo, if_neg hlogin, if_neg hlogout,
          if_neg hbroadcast]
        rfl
      obtain ⟨hcontent, hshown⟩ : (literal "what do you want to do").Terminated 128 ∧
        (literal "what do you want to do").cstring 0 128 = ascii "what do you want to do" :=
        literal_cstring (by decide) (by decide)
      have hshows := @unknowResp_shows (own.stack 0) _ hcontent
      rw [hshown] at hshows
      rw [hacts]
      simpa only [Command.shownTo, decide_eq_true_eq] using hshows.reply pClient sender number

end SelectNet
