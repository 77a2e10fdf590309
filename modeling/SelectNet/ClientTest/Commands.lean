import SelectNet.ClientTest.Client01
import SelectNet.Configuration.Strsplit

/-!
# What a user of Client01 can ask for

A line stands for commands, and a frame for one command. What `processorSend` sends
for a line are frames that stand for its commands, in order.
-/

namespace SelectNet

open Splitting StdString

/-- What a client asks its server for. -/
inductive Command where
  | login (userId passwd : List Byte)
  | logout (userId : List Byte)
  | info
  | broadcast (content : List Byte)
  | unknow
  deriving DecidableEq

namespace Command

/-- The command in a package. -/
def ofPackage (msg : Memory Byte) : Command :=
  let msgId := (MsgHead.load msg).msgId
  if msgId = MsgID.info.code then .info
  else if msgId = MsgID.login.code then
    .login (msg.cstring MsgLoginReq.userId 256) (msg.cstring MsgLoginReq.passwd 256)
  else if msgId = MsgID.logout.code then .logout (msg.cstring 6 256)
  else if msgId = MsgID.broadcast.code then .broadcast (msg.cstring 6 256)
  else .unknow

/-- Its strings fit into their fields. -/
def Fits : Command → Prop
  | .login userId passwd => userId.length < 256 ∧ passwd.length < 256
  | .logout userId => userId.length < 256
  | .broadcast content => content.length < 256
  | .info | .unknow => True

/-- A frame that stands for a command, whose strings are ended in their fields. -/
structure Asks (command : Command) (frame : List Byte) : Prop where
  isFrame : headRule.IsFrame frame
  read : ofPackage (asPackage frame) = command
  fits : command.Fits

/-- What the fields of a `login` line ask for. -/
def ofLogin : List (List Byte) → List Command
  | _ :: userId :: passwd :: _ => [.login userId passwd]
  | _ => []

/-- What the fields of a `logout` line ask for. -/
def ofLogout : List (List Byte) → List Command
  | _ :: userId :: _ => [.logout userId]
  | _ => []

/-- The commands of a line. The first word that it begins with decides. -/
def ofLine (line : List Byte) : List Command :=
  if ascii "exit" <+: line then []
  else if ascii "loginall" <+: line then
    (List.range 10000).map fun i =>
      .login (ascii "lwj" ++ Decimal.natText i) (ascii "psw" ++ Decimal.natText i)
  else if ascii "login" <+: line then ofLogin (nonempty (Splitting.fields [124] line))
  else if ascii "logout" <+: line then ofLogout (nonempty (Splitting.fields [124] line))
  else if ascii "getInfo" <+: line then [.info]
  else if ascii "broadcast" <+: line then [.broadcast (ascii "TestBroadcast")]
  else [.unknow]

end Command

/-- Which command a package holds. -/
inductive Command.Holds (msg : Memory Byte) : Command → Prop where
  | info (hid : (MsgHead.load msg).msgId = MsgID.info.code) : Holds msg .info
  | login (hid : (MsgHead.load msg).msgId = MsgID.login.code) :
      Holds msg (.login (msg.cstring MsgLoginReq.userId 256) (msg.cstring MsgLoginReq.passwd 256))
  | logout (hid : (MsgHead.load msg).msgId = MsgID.logout.code) :
      Holds msg (.logout (msg.cstring 6 256))
  | broadcast (hid : (MsgHead.load msg).msgId = MsgID.broadcast.code) :
      Holds msg (.broadcast (msg.cstring 6 256))
  | unknow (hinfo : (MsgHead.load msg).msgId ≠ MsgID.info.code)
      (hlogin : (MsgHead.load msg).msgId ≠ MsgID.login.code)
      (hlogout : (MsgHead.load msg).msgId ≠ MsgID.logout.code)
      (hbroadcast : (MsgHead.load msg).msgId ≠ MsgID.broadcast.code) : Holds msg .unknow

theorem Command.holds_ofPackage (msg : Memory Byte) : Holds msg (ofPackage msg) := by
  unfold ofPackage
  by_cases hinfo : (MsgHead.load msg).msgId = MsgID.info.code
  · simp only [if_pos hinfo]
    exact .info hinfo
  by_cases hlogin : (MsgHead.load msg).msgId = MsgID.login.code
  · simp only [if_neg hinfo, if_pos hlogin]
    exact .login hlogin
  by_cases hlogout : (MsgHead.load msg).msgId = MsgID.logout.code
  · simp only [if_neg hinfo, if_neg hlogin, if_pos hlogout]
    exact .logout hlogout
  by_cases hbroadcast : (MsgHead.load msg).msgId = MsgID.broadcast.code
  · simp only [if_neg hinfo, if_neg hlogin, if_neg hlogout, if_pos hbroadcast]
    exact .broadcast hbroadcast
  · simp only [if_neg hinfo, if_neg hlogin, if_neg hlogout, if_neg hbroadcast]
    exact .unknow hinfo hlogin hlogout hbroadcast

/-! ## The words of a line -/

theorem strcmpExLoop_eq_iff (str0 str1 : List Byte) :
    strcmpExLoop str1.length str0 str1 = str1.length ↔ str1 <+: str0 := by
  induction str1 generalizing str0 with
  | nil => simp [strcmpExLoop]
  | cons char1 str1 ih =>
      cases str0 with
      | nil => simp [strcmpExLoop]
      | cons char0 str0 =>
          rw [List.length_cons, strcmpExLoop, List.cons_prefix_cons]
          split
          next heq => rw [Nat.succ_inj, ih, heq, and_iff_right rfl]
          next hne => exact iff_of_false (Nat.succ_ne_zero _).symm fun hcons => hne hcons.1.symm

/-- Without a length `strcmp_ex` looks whether a string begins with another. -/
theorem strcmpEx_eq_zero_iff {str0 str1 : List Byte} (hlen : str1.length < 2 ^ 31) :
    strcmpEx str0 str1 (-1) = 0 ↔ str1 <+: str0 := by
  have hint : toInt str1.length = str1.length := by
    unfold toInt
    rw [Int.bmod_def]
    split <;> omega
  have hsize : toSize (str1.length : Int) = str1.length := toSize_ofNat (by omega)
  simp only [strcmpEx, if_true, hint, hsize, Int.toNat_natCast, strcmpExLoop_eq_iff]
  split
  next hshort =>
    refine iff_of_false (by decide) fun hprefix => ?_
    have hle := List.IsPrefix.length_le hprefix
    omega
  next =>
    split
    next hprefix => exact iff_of_true rfl hprefix
    next hprefix => exact iff_of_false (by decide) hprefix

/-! ## The fields of a line -/

/-- What is split at one byte needs at most a pass for each position. -/
theorem strsplit_single {src mark : StdString} {cell : Byte} (hmark : mark.bytes = [cell])
    (hlen : src.length < 2 ^ 31) :
    ∃ tokens, strsplit (src.length + 1) src mark = some (some tokens) ∧
      tokens.map StdString.bytes = nonempty (fields [cell] src.bytes) := by
  have hsome : mark.bytes ≠ [] := by
    rw [hmark]
    exact List.cons_ne_nil _ _
  have hone : mark.length = 1 := by
    rw [StdString.length, hmark]
    rfl
  have hskip : toSize (toInt mark.length) = mark.length := toSize_toInt_of_lt (by omega)
  obtain ⟨tokens, hreturns, htokens⟩ := @strsplit_returns src _ hsome hskip
  have hextent : 0 + extent mark.length (fields mark.bytes src.bytes) = sourceEnd src := by
    rw [Nat.zero_add, sourceEnd, toSize_toInt_of_lt hlen]
    exact extent_fields hsome src.bytes
  rw [cutFields_of_exact (by omega) hextent, hmark] at htokens
  exact ⟨tokens, hreturns, htokens⟩

/-- The bytes of a field are bytes of the line. -/
theorem mem_of_mem_fields {cell byte : Byte} {line field : List Byte}
    (hfield : field ∈ fields [cell] line) (hbyte : byte ∈ field) : byte ∈ line := by
  have hall := fields_induction
    (fun cells fields => ∀ field ∈ fields, ∀ byte ∈ field, byte ∈ cells)
    (List.cons_ne_nil cell []) ?_ ?_ line
  · exact hall field hfield byte hbyte
  · intro cells _ field hfield byte hbyte
    rwa [List.mem_singleton.mp hfield] at hbyte
  · intro cells n _ ih
    rw [List.forall_mem_cons]
    exact ⟨fun byte hbyte => List.mem_of_mem_take hbyte,
      fun field hfield byte hbyte => List.mem_of_mem_drop (ih field hfield byte hbyte)⟩

/-! ## What is sent -/

namespace Command

variable {memory stack : Memory Byte} {userId passwd : List Byte}

/-- The two strings of a login, copied behind its header. -/
theorem asks_login (hload : MsgHead.load memory = ⟨MsgLoginReq.sizeof, MsgID.login.code, 0⟩)
    (hfits : (login userId passwd).Fits) (hid : 0 ∉ userId) (hpsw : 0 ∉ passwd) :
    Asks (.login userId passwd) (Endpoint.msgBytes
      ((memory.strcpy MsgLoginReq.userId (.ofList userId 0)).strcpy MsgLoginReq.passwd
        (.ofList passwd 0))) := by
  obtain ⟨message, hmessage⟩ : ∃ message, (memory.strcpy MsgLoginReq.userId
    (.ofList userId 0)).strcpy MsgLoginReq.passwd (.ofList passwd 0) = message := ⟨_, rfl⟩
  have hsent : MsgHead.load message = ⟨MsgLoginReq.sizeof, MsgID.login.code, 0⟩ := by
    rw [← hmessage, load_strcpy _ _ (by decide), load_strcpy _ _ (by decide), hload]
  have huser : message.cstring MsgLoginReq.userId 256 = userId := by
    rw [← hmessage, Memory.cstring_strcpy_before _ _ (by decide),
      Memory.cstring_strcpy _ (Memory.terminated_ofList hfits.1), Memory.cstring_ofList hfits.1 hid]
  have hpasswd : message.cstring MsgLoginReq.passwd 256 = passwd := by
    rw [← hmessage, Memory.cstring_strcpy _ (Memory.terminated_ofList hfits.2),
      Memory.cstring_ofList hfits.2 hpsw]
  rw [hmessage]
  refine ⟨isFrame_msgBytes (by rw [hsent]; decide) (by rw [hsent]; decide), ?_, hfits⟩
  rw [ofPackage, load_asPackage_msgBytes (by rw [hsent]; decide),
    cstring_asPackage_msgBytes _ (by rw [hsent]; decide),
    cstring_asPackage_msgBytes _ (by rw [hsent]; decide), hsent, huser, hpasswd]
  rfl

theorem asks_logout (hfits : (logout userId).Fits) (hid : 0 ∉ userId) :
    Asks (.logout userId) (Endpoint.msgBytes (MsgLogoutReq.new stack (.ofList userId 0)).msg) := by
  obtain ⟨hframe, hload, hstring⟩ := @Built.sent_make stack ⟨262, MsgID.logout.code, 0⟩
    [⟨6, 256, .ofList userId 0⟩] (by simp) (by decide) (by decide) (by decide) (by decide)
  have huser := (hstring 6 256 (Nat.le_refl 262)).trans
    (Built.cstring_make [] [] (Memory.terminated_ofList hfits) (List.forall_mem_nil _))
  rw [Memory.cstring_ofList hfits hid] at huser
  refine ⟨hframe, ?_, hfits⟩
  rw [ofPackage, MsgLogoutReq.new, hload, huser]
  rfl

/-- The content of a broadcast ends where its message does. -/
theorem asks_broadcast {content : List Byte} (hfits : (broadcast content).Fits)
    (hcontent : 0 ∉ content) :
    Asks (.broadcast content) (Endpoint.msgBytes (MsgBroadcast.new stack content).msg) := by
  have hlen : content.length < 256 := hfits
  have hmod : (MsgHead.sizeof + (content.length + 1)) % 65536 = 6 + (content.length + 1) := by
    rw [MsgHead.sizeof]
    omega
  have hmin : MsgHead.sizeof ≤ 6 + (content.length + 1) := Nat.le_add_right _ _
  have hmax : 6 + (content.length + 1) ≤ packageMaxSize := by
    rw [packageMaxSize]
    omega
  obtain ⟨message, hmessage⟩ : ∃ message, (MsgBroadcast.new stack content).msg = message :=
    ⟨_, rfl⟩
  rw [MsgBroadcast.new, hmod] at hmessage
  obtain ⟨hframe, hload, hstring⟩ := @Built.sent_make stack
    ⟨6 + (content.length + 1), MsgID.broadcast.code, 0⟩ [⟨6, 256, .ofList content 0⟩]
    (by simp) hmin hmax (show MsgID.broadcast.code < 65536 by decide) (Nat.succ_pos _)
  have hsent := hstring 6 (content.length + 1) (Nat.le_refl _)
  have hcopied : message.cstring 6 (content.length + 1) = content := by
    rw [← hmessage, Built.make, List.foldl_cons, List.foldl_nil, FieldCopy.run,
      Memory.cstring_strcpy _ (Memory.terminated_ofList (Nat.lt_succ_self _)),
      Memory.cstring_ofList (Nat.lt_succ_self _) hcontent]
  rw [hmessage] at hframe hload hsent
  rw [MsgBroadcast.new, hmod, hmessage]
  rw [hcopied] at hsent
  have hends : ((asPackage (Endpoint.msgBytes message)).behind 6).Terminated
      (content.length + 1) := by
    rw [Memory.terminated_behind_iff, hsent]
    exact Nat.lt_succ_self _
  have hwhole : (asPackage (Endpoint.msgBytes message)).cstring 6 256 = content := by
    rw [← Memory.cstring_behind, hends.cstring_of_le hlen, Memory.cstring_behind, hsent]
  refine ⟨hframe, ?_, hfits⟩
  rw [ofPackage, hload, hwhole]
  rfl

/-- A header alone. -/
theorem asks_head (stack : Memory Byte) :
    Asks .info (Endpoint.msgBytes (MsgHead.new stack .info).msg) ∧
      Asks .unknow (Endpoint.msgBytes (MsgHead.new stack .unknow).msg) := by
  have hhead : ∀ id : MsgID, id.code < 65536 →
      headRule.IsFrame (Endpoint.msgBytes (MsgHead.new stack id).msg) ∧
        (MsgHead.load (asPackage (Endpoint.msgBytes (MsgHead.new stack id).msg))).msgId =
          id.code := by
    intro id hid
    obtain ⟨hframe, hload, _⟩ := @Built.sent_make stack ⟨MsgHead.sizeof, id.code, 0⟩ []
      (List.forall_mem_nil _) (Nat.le_refl _) (show 6 ≤ packageMaxSize by decide) hid
      (Nat.succ_pos _)
    exact ⟨hframe, congrArg MsgHead.msgId hload⟩
  obtain ⟨hinfo, hinfoid⟩ := hhead .info (by decide)
  obtain ⟨hunknow, hunknowid⟩ := hhead .unknow (by decide)
  refine ⟨⟨hinfo, ?_, trivial⟩, ⟨hunknow, ?_, trivial⟩⟩
  · rw [ofPackage, hinfoid]
    rfl
  · rw [ofPackage, hunknowid]
    rfl

end Command

namespace Client01

open Command

variable {client : SelectClientThread} {stack : Memory Byte}

/-- `SendMsg` for one message after the other. -/
def sendMsgs (client : SelectClientThread) (msgs : List (Memory Byte)) : SelectClientThread :=
  msgs.foldl (fun client msg => (SelectClientThread.sendMsg client msg).2) client

/-- The messages that `loginall` sends. -/
theorem loginAll_sends {login : Memory Byte}
    (hload : MsgHead.load login = ⟨MsgLoginReq.sizeof, MsgID.login.code, 0⟩) {count : Nat}
    (hcount : count ≤ 10 ^ 10) :
    ∃ msgs, (loginAll login client count).2 = sendMsgs client msgs ∧
      List.Forall₂ (fun command msg => Asks command (Endpoint.msgBytes msg))
        ((List.range count).map fun i =>
          .login (ascii "lwj" ++ Decimal.natText i) (ascii "psw" ++ Decimal.natText i)) msgs ∧
      MsgHead.load (loginAll login client count).1 =
        ⟨MsgLoginReq.sizeof, MsgID.login.code, 0⟩ := by
  have hclean : ∀ i : Nat, 0 ∉ Decimal.natText i := by
    intro i hmem
    exact absurd (Decimal.isDigit_of_mem hmem) (by decide)
  induction count with
  | zero => exact ⟨[], rfl, .nil, hload⟩
  | succ count ih =>
      obtain ⟨msgs, hsends, hasks, hlast⟩ := ih (by omega)
      have hlen : (Decimal.natText count).length ≤ 10 := Decimal.length_natText (by omega)
      have hword : ∀ word : String, (ascii word).length = 3 → 0 ∉ ascii word →
          (ascii word ++ Decimal.natText count).length < 256 ∧
            0 ∉ ascii word ++ Decimal.natText count := by
        intro word hthree hfree
        rw [List.length_append, List.mem_append]
        exact ⟨by omega, not_or.mpr ⟨hfree, hclean count⟩⟩
      obtain ⟨hid, hid'⟩ := hword "lwj" (by decide) (by decide)
      obtain ⟨hpsw, hpsw'⟩ := hword "psw" (by decide) (by decide)
      obtain ⟨middle, hmiddle⟩ : ∃ middle, (loginAll login client count).1 = middle := ⟨_, rfl⟩
      have hpass : loginAll login client (count + 1) =
          (loginPass middle count, (SelectClientThread.sendMsg (loginAll login client count).2
            (loginPass middle count)).2) := by
        rw [loginAll, List.range_succ, List.foldl_append, ← hmiddle]
        rfl
      rw [hmiddle] at hlast
      refine ⟨msgs ++ [loginPass middle count], ?_, ?_, ?_⟩
      · rw [hpass, hsends, sendMsgs, sendMsgs, List.foldl_append]
        rfl
      · rw [List.range_succ, List.map_append]
        refine List.rel_append hasks (.cons ?_ .nil)
        exact asks_login hlast ⟨hid, hpsw⟩ hid' hpsw'
      · rw [hpass, loginPass, load_strcpy _ _ (by decide), load_strcpy _ _ (by decide), hlast]

/-- A line as `scanf` leaves it in `inputBuf`, whose strings fit into their fields. -/
structure Typed (line : StdString) : Prop where
  length : line.length < 512
  clean : 0 ∉ line.bytes
  fits : ∀ command ∈ Command.ofLine line.bytes, command.Fits

/-- The messages of commands, in their order. -/
def Sends (commands : List Command) (client : SelectClientThread)
    (result : Option (Int × SelectClientThread)) : Prop :=
  ∃ msgs, result = some (0, sendMsgs client msgs) ∧
    List.Forall₂ (fun command msg => Asks command (Endpoint.msgBytes msg)) commands msgs

theorem Sends.nothing (client : SelectClientThread) : Sends [] client (some (0, client)) :=
  ⟨[], rfl, .nil⟩

theorem Sends.one {command : Command} {msg : Memory Byte}
    (hasks : Asks command (Endpoint.msgBytes msg)) (client : SelectClientThread) :
    Sends [command] client (some (0, (client.sendMsg msg).2)) :=
  ⟨[msg], rfl, .cons hasks .nil⟩

/-- The header of a login, before its strings. -/
theorem load_login (stack : Memory Byte) :
    MsgHead.load ((⟨MsgLoginReq.sizeof, MsgID.login.code, 0⟩ : MsgHead).store stack) =
      ⟨MsgLoginReq.sizeof, MsgID.login.code, 0⟩ :=
  @Built.load_make stack _ [] (List.forall_mem_nil _) (by decide) (by decide) (by decide)

theorem sendLogin_sends {tokens : List StdString} (hclean : ∀ token ∈ tokens, 0 ∉ token.bytes)
    (hfits : ∀ command ∈ ofLogin (tokens.map StdString.bytes), command.Fits)
    (stack : Memory Byte) (client : SelectClientThread) :
    Sends (ofLogin (tokens.map StdString.bytes)) client (some (sendLogin stack client tokens)) := by
  rcases tokens with _ | ⟨_, _ | ⟨id, _ | ⟨psw, rest⟩⟩⟩
  · exact .nothing client
  · exact .nothing client
  · exact .nothing client
  · exact .one (asks_login (load_login stack) (hfits _ List.mem_cons_self) (hclean id (by simp))
      (hclean psw (by simp))) client

theorem sendLogout_sends {tokens : List StdString} (hclean : ∀ token ∈ tokens, 0 ∉ token.bytes)
    (hfits : ∀ command ∈ ofLogout (tokens.map StdString.bytes), command.Fits)
    (stack : Memory Byte) (client : SelectClientThread) :
    Sends (ofLogout (tokens.map StdString.bytes)) client
      (some (sendLogout stack client tokens)) := by
  rcases tokens with _ | ⟨_, _ | ⟨id, rest⟩⟩
  · exact .nothing client
  · exact .nothing client
  · exact .one (asks_logout (hfits _ List.mem_cons_self) (hclean id (by simp))) client

/-- A line that fits into `inputBuf` is split into its fields. -/
theorem Typed.split {line : StdString} (htyped : Typed line) :
    ∃ tokens, Client01.split line = some tokens ∧
      tokens.map StdString.bytes = nonempty (fields [124] line.bytes) ∧
      ∀ token ∈ tokens, 0 ∉ token.bytes := by
  obtain ⟨tokens, hsplit, hfields⟩ :=
    @strsplit_single line bar 124 rfl (Nat.lt_trans htyped.length (by decide))
  refine ⟨tokens, by rw [Client01.split, hsplit, Option.join_some], hfields, ?_⟩
  intro token htoken hzero
  have hmem : token.bytes ∈ nonempty (fields [124] line.bytes) := by
    rw [← hfields]
    exact List.mem_map_of_mem htoken
  exact htyped.clean (mem_of_mem_fields (mem_nonempty.mp hmem).1 hzero)

/-- For every line but `exit` the client sends the messages of its commands. -/
theorem processorSend_sends {line : StdString} (htyped : Typed line) (stack : Memory Byte)
    (client : SelectClientThread) :
    processorSend line stack client = some (-1, client.close) ∧ ofLine line.bytes = [] ∨
      Sends (ofLine line.bytes) client (processorSend line stack client) := by
  have hbegins : ∀ word : String, (ascii word).length < 2 ^ 31 →
      (strcmpEx line.bytes (ascii word) (-1) = 0 ↔ ascii word <+: line.bytes) :=
    fun word hword => strcmpEx_eq_zero_iff hword
  have hfits := htyped.fits
  obtain ⟨tokens, hsplit, hfields, hclean⟩ := htyped.split
  simp only [processorSend, hbegins _ (show (ascii "exit").length < 2 ^ 31 by decide),
    hbegins _ (show (ascii "loginall").length < 2 ^ 31 by decide),
    hbegins _ (show (ascii "login").length < 2 ^ 31 by decide),
    hbegins _ (show (ascii "logout").length < 2 ^ 31 by decide),
    hbegins _ (show (ascii "getInfo").length < 2 ^ 31 by decide),
    hbegins _ (show (ascii "broadcast").length < 2 ^ 31 by decide), hsplit, Option.map_some,
    ofLine, ← hfields] at hfits ⊢
  by_cases hexit : ascii "exit" <+: line.bytes
  · simp only [if_pos hexit]
    exact Or.inl ⟨trivial, trivial⟩
  right
  simp only [if_neg hexit] at hfits ⊢
  by_cases hall : ascii "loginall" <+: line.bytes
  · simp only [if_pos hall]
    obtain ⟨msgs, hsends, hasks, _⟩ :=
      @loginAll_sends client _ (load_login stack) 10000 (by decide)
    exact ⟨msgs, congrArg (fun client => some (0, client)) hsends, hasks⟩
  simp only [if_neg hall] at hfits ⊢
  by_cases hlogin : ascii "login" <+: line.bytes
  · simp only [if_pos hlogin] at hfits ⊢
    exact sendLogin_sends hclean hfits stack client
  simp only [if_neg hlogin] at hfits ⊢
  by_cases hlogout : ascii "logout" <+: line.bytes
  · simp only [if_pos hlogout] at hfits ⊢
    exact sendLogout_sends hclean hfits stack client
  simp only [if_neg hlogout]
  by_cases hinfo : ascii "getInfo" <+: line.bytes
  · simp only [if_pos hinfo]
    exact .one (asks_head stack).1 client
  simp only [if_neg hinfo]
  by_cases hbroadcast : ascii "broadcast" <+: line.bytes
  · have hfit : (Command.broadcast (ascii "TestBroadcast")).Fits :=
      show (ascii "TestBroadcast").length < 256 by decide
    simp only [if_pos hbroadcast]
    exact .one (asks_broadcast hfit (by decide)) client
  · simp only [if_neg hbroadcast]
    exact .one (asks_head stack).2 client

end Client01

end SelectNet
