import Mathlib.Data.List.TakeWhile
import SelectNet.ClientTest.Batch
import SelectNet.Configuration.ReadBack

/-!
# The configuration of the load generator

The constructor of `Client04` reads its settings from a file one by one and stops
at the first illegal one. From any rendering of its settings it gets them all.
-/

namespace SelectNet

namespace ClientConfig

def clientNumKey : StdString := ⟨ascii "ClientNum", by decide⟩
def threadNumKey : StdString := ⟨ascii "ThreadNum", by decide⟩
def serverIPKey : StdString := ⟨ascii "ServerIP", by decide⟩
def portKey : StdString := ⟨ascii "Port", by decide⟩
def msgLenKey : StdString := ⟨ascii "MsgLen", by decide⟩
def msgNumKey : StdString := ⟨ascii "MsgNum", by decide⟩
def msgContentKey : StdString := ⟨ascii "MsgContent", by decide⟩

/-- The first part of the constructor of `Client04`: the settings, or what it logs
when it returns early. It is `none` if an `assert` of `getString` fails or a number
is no `int`. -/
def ofRecord (record : Record) : Option (Except String ClientConfig) := do
  let clientNum ← ConfigHelp.getInt record clientNumKey
  if clientNum < 1 then
    return .error "ClientConfig ClientNum Format illegal\n"
  let threadNum ← ConfigHelp.getInt record threadNumKey
  if threadNum < 1 then
    return .error "ClientConfig ThreadNum Format illegal \n"
  let serverIP ← ConfigHelp.getString record serverIPKey
  if serverIP.bytes = [] then
    return .error "ClientConfig ServerIP Format illegal \n"
  let port ← ConfigHelp.getInt record portKey
  if port < 0 then
    return .error "ClientConfig Port Format illegal \n"
  let msgLen ← ConfigHelp.getInt record msgLenKey
  if msgLen ≤ 0 then
    return .error "ClientConfig MsgLen Format illegal \n"
  let msgNum ← ConfigHelp.getInt record msgNumKey
  if msgNum ≤ 0 then
    return .error "ClientConfig MsgNum Format illegal \n"
  let msgContent ← ConfigHelp.getString record msgContentKey
  if msgContent.bytes = [] then
    return .error "ClientConfig MsgContent Format illegal \n"
  return .ok ⟨clientNum, threadNum, serverIP, port, msgLen, msgNum, msgContent⟩

end ClientConfig

/-- The constructor of `Client04` up to the threads. What `init` returns is not
looked at. -/
def Client04.start (file : Option (List StdString)) (fresh : Nat → Memory Byte) :
    Option (Except String (List ClientMgr)) := do
  let (_, record) ← ConfigHelp.init file fun _ => none
  match ← ClientConfig.ofRecord record with
  | .error text => return .error text
  | .ok config => Client04.new config fresh

/-! ## Settings in a file -/

/-- The pair that counts for a key has the decimal text of a number. -/
def SaysInt (pairs : List (StdString × StdString)) (key : StdString) (number : Int) : Prop :=
  -2 ^ 31 ≤ number ∧ number < 2 ^ 31 ∧
    ∃ value, lastValue pairs key = some value ∧ value.bytes = Decimal.text number

/-- The pair that counts for a key has this text, and `strsplit` does not cut it. -/
def SaysString (pairs : List (StdString × StdString)) (key text : StdString) : Prop :=
  lastValue pairs key = some text ∧ PairFits key text

/-- Pairs that say what the settings are. -/
structure ClientConfig.WrittenIn (config : ClientConfig) (pairs : List (StdString × StdString)) :
    Prop where
  clientNum : SaysInt pairs clientNumKey config.clientNum
  threadNum : SaysInt pairs threadNumKey config.threadNum
  serverIP : SaysString pairs serverIPKey config.serverIP
  port : SaysInt pairs portKey config.port
  msgLen : SaysInt pairs msgLenKey config.msgLen
  msgNum : SaysInt pairs msgNumKey config.msgNum
  msgContent : SaysString pairs msgContentKey config.msgContent

variable {pairs : List (StdString × StdString)} {key text : StdString} {number : Int}
  {record : Record} {config : ClientConfig}

/-- A record with what the pairs say, as far as nothing is cut. -/
def Holds (record : Record) (pairs : List (StdString × StdString)) : Prop :=
  ∀ key value, lastValue pairs key = some value → PairFits key value → record key = some value

theorem SaysString.getString (hsaid : SaysString pairs key text) (hholds : Holds record pairs) :
    ConfigHelp.getString record key = some text :=
  hholds key text hsaid.1 hsaid.2

/-- No byte of a decimal text ends a C string. -/
theorem takeWhile_text (number : Int) :
    (Decimal.text number).takeWhile (· ≠ 0) = Decimal.text number := by
  rw [List.takeWhile_eq_self_iff]
  intro cell hcell
  rw [decide_eq_true_eq]
  rintro rfl
  rcases Decimal.mem_text hcell with hminus | hdigit
  · exact absurd hminus (by decide)
  · exact absurd hdigit (by decide)

theorem SaysInt.getInt (hsaid : SaysInt pairs key number) (hkey : key.length < 2 ^ 30)
    (hholds : Holds record pairs) : ConfigHelp.getInt record key = some number := by
  obtain ⟨hmin, hmax, value, hlast, hvalue⟩ := hsaid
  have hlength : value.length ≤ 11 := by
    rw [StdString.length, hvalue]
    exact Decimal.length_text hmin hmax
  have hstored := hholds key value hlast (Or.inl (by omega))
  rw [ConfigHelp.getInt, ConfigHelp.getString, hstored, Option.bind_some, hvalue, takeWhile_text,
    Decimal.atoi_text hmin hmax]

/-- The settings are read and checked in the order in which they are checked when
they are all there. -/
theorem ClientConfig.WrittenIn.ofRecord (hwritten : config.WrittenIn pairs)
    (hholds : Holds record pairs) :
    ofRecord record = some (match config.illegal with
      | some text => .error text
      | none => .ok config) := by
  have hclientNum := hwritten.clientNum.getInt (by decide) hholds
  have hthreadNum := hwritten.threadNum.getInt (by decide) hholds
  have hserverIP := hwritten.serverIP.getString hholds
  have hport := hwritten.port.getInt (by decide) hholds
  have hmsgLen := hwritten.msgLen.getInt (by decide) hholds
  have hmsgNum := hwritten.msgNum.getInt (by decide) hholds
  have hmsgContent := hwritten.msgContent.getString hholds
  simp only [ClientConfig.ofRecord, hclientNum, hthreadNum, hserverIP, hport, hmsgLen, hmsgNum,
    hmsgContent, ClientConfig.illegal, Option.bind_eq_bind, Option.bind_some]
  split_ifs <;> rfl

/-- `init` finds what a rendering says. -/
theorem Renders.init_holds {lines : List StdString} (hrenders : Renders pairs lines) :
    ∃ record, ConfigHelp.init (some lines) (fun _ => none) = some (0, record) ∧
      Holds record pairs := by
  obtain ⟨last, hfold, hlast, -⟩ := foldlM_initLine hrenders fun _ => none
  refine ⟨last, ?_, fun key value hvalue hfits => ?_⟩
  · rw [ConfigHelp.init, hfold, Option.map_some]
  · have hsame := hlast key fun other hother => by
      rw [hvalue, Option.some.injEq] at hother
      exact hother ▸ hfits
    rw [hsame, hvalue, Option.some_or]

/-- From a rendering of its settings the load generator does what it does with the
settings: it logs the first illegal one, or every thread gets the batch. -/
theorem client04_reads_config (config : ClientConfig) (pairs : List (StdString × StdString))
    (lines : List StdString) (fresh : Nat → Memory Byte) (hrenders : Renders pairs lines)
    (hwritten : config.WrittenIn pairs) :
    Client04.start (some lines) fresh = Client04.new config fresh ∧
      (∀ text, config.illegal = some text →
        Client04.start (some lines) fresh = some (.error text)) ∧
      (config.illegal = none → config.Bounds → config.msgLen * config.msgNum < 65536 →
        ∃ mgrs, Client04.start (some lines) fresh = some (.ok mgrs) ∧
          (mgrs.length : Int) = config.threadNum ∧
          ∀ mgr ∈ mgrs, ∀ client : SelectClientThread, client.sock ≠ invalidSocket →
            config.SendsBatch mgr client) := by
  obtain ⟨record, hinit, hholds⟩ := hrenders.init_holds
  have hstart : Client04.start (some lines) fresh = Client04.new config fresh := by
    simp only [Client04.start, hinit, hwritten.ofRecord hholds, Option.bind_eq_bind,
      Option.bind_some]
    cases hillegal : config.illegal with
    | none => rfl
    | some text =>
        rw [Client04.new, hillegal]
        rfl
  refine ⟨hstart, fun text hillegal => ?_, fun haccepted hbounds hshort => ?_⟩
  · rw [hstart, Client04.new, hillegal]
  · obtain ⟨mgrs, hnew, hcount, hdata⟩ := Client04.new_spec haccepted hbounds fresh
    have hnum := (config.positive_of_legal haccepted).2.2
    refine ⟨mgrs, hstart.trans hnew, hcount, fun mgr hmgr client hopen => ?_⟩
    obtain ⟨hlen, hbatch⟩ := hdata mgr hmgr
    exact (hbounds.sendsBatch_iff (by omega) hlen hbatch hopen).mpr (hlen ▸ hshort)

instance (s : StdString) : Decidable (Plain s) :=
  decidable_of_iff (s.bytes ≠ [] ∧ 32 ∉ s.bytes ∧ 61 ∉ s.bytes ∧ 35 ∉ s.bytes ∧ 10 ∉ s.bytes)
    ⟨fun ⟨hsome, hspace, hequals, hhash, hnewline⟩ => ⟨hsome, hspace, hequals, hhash, hnewline⟩,
      fun hplain => ⟨hplain.some, hplain.space, hplain.equals, hplain.hash, hplain.newline⟩⟩

/-- The pairs of a file, with a number that is said twice. -/
def ClientConfig.twoPairs : List (StdString × StdString) :=
  [(⟨ascii "MsgNum", by decide⟩, ⟨ascii "7", by decide⟩),
    (⟨ascii "MsgNum", by decide⟩, ⟨ascii "2", by decide⟩),
    (⟨ascii "MsgLen", by decide⟩, ⟨ascii "9", by decide⟩),
    (⟨ascii "MsgContent", by decide⟩, ⟨ascii "hi", by decide⟩),
    (⟨ascii "ServerIP", by decide⟩, ⟨ascii "1", by decide⟩),
    (⟨ascii "Port", by decide⟩, ⟨ascii "4567", by decide⟩),
    (⟨ascii "ClientNum", by decide⟩, ⟨ascii "1", by decide⟩),
    (⟨ascii "ThreadNum", by decide⟩, ⟨ascii "1", by decide⟩)]

/-- The lines of that file, not in the order in which the settings are read. -/
def ClientConfig.twoLines : List StdString :=
  [⟨ascii "# two messages", by decide⟩, ⟨ascii "MsgNum=7", by decide⟩,
    ⟨ascii "MsgNum = 2 # not 7", by decide⟩, ⟨ascii "MsgLen=9", by decide⟩,
    ⟨ascii "MsgContent=hi", by decide⟩, ⟨ascii "ServerIP=1", by decide⟩,
    ⟨ascii "Port=4567", by decide⟩, ⟨ascii "ClientNum=1", by decide⟩,
    ⟨ascii "ThreadNum=1", by decide⟩]

theorem ClientConfig.twoLines_renders : Renders twoPairs twoLines := by
  refine .nothing ⟨[], ascii "# two messages", rfl, Or.inr ⟨_, rfl⟩, by decide⟩ ?_
  refine .pair (by decide) (by decide) ⟨ascii "MsgNum=7", [], rfl, Or.inl rfl, by decide⟩ ?_
  refine .pair (by decide) (by decide)
    ⟨ascii "MsgNum = 2 ", ascii "# not 7", rfl, Or.inr ⟨_, rfl⟩, by decide⟩ ?_
  refine .pair (by decide) (by decide) ⟨ascii "MsgLen=9", [], rfl, Or.inl rfl, by decide⟩ ?_
  refine .pair (by decide) (by decide) ⟨ascii "MsgContent=hi", [], rfl, Or.inl rfl, by decide⟩ ?_
  refine .pair (by decide) (by decide) ⟨ascii "ServerIP=1", [], rfl, Or.inl rfl, by decide⟩ ?_
  refine .pair (by decide) (by decide) ⟨ascii "Port=4567", [], rfl, Or.inl rfl, by decide⟩ ?_
  refine .pair (by decide) (by decide) ⟨ascii "ClientNum=1", [], rfl, Or.inl rfl, by decide⟩ ?_
  refine .pair (by decide) (by decide) ⟨ascii "ThreadNum=1", [], rfl, Or.inl rfl, by decide⟩ ?_
  exact .nil

theorem ClientConfig.short_writtenIn : (short 2).WrittenIn twoPairs where
  clientNum := ⟨by decide, by decide, _, rfl, rfl⟩
  threadNum := ⟨by decide, by decide, _, rfl, rfl⟩
  serverIP := ⟨rfl, Or.inl (by decide)⟩
  port := ⟨by decide, by decide, _, rfl, rfl⟩
  msgLen := ⟨by decide, by decide, _, rfl, rfl⟩
  msgNum := ⟨by decide, by decide, _, rfl, rfl⟩
  msgContent := ⟨rfl, Or.inl (by decide)⟩

/-- The one thread sends two messages as the file says. -/
theorem client04_reads_config_two : ∃ mgrs,
    Client04.start (some ClientConfig.twoLines) (fun _ _ => 0) = some (.ok mgrs) ∧
    mgrs.length = 1 ∧ ∀ mgr ∈ mgrs, ∀ client : SelectClientThread, client.sock ≠ invalidSocket →
      (ClientConfig.short 2).SendsBatch mgr client := by
  obtain ⟨-, -, hsends⟩ := client04_reads_config _ _ _ (fun _ _ => 0)
    ClientConfig.twoLines_renders ClientConfig.short_writtenIn
  obtain ⟨mgrs, hstart, hlength, hbatch⟩ :=
    hsends (by decide) (ClientConfig.short_bounds (by decide)) (by decide)
  exact ⟨mgrs, hstart, Int.ofNat_inj.mp hlength, hbatch⟩

end SelectNet
