import SelectNet.CommonLib.Utils
import SelectNet.Foundation.Decimal

/-!
# ConfigHelp

`init` reads a file line by line: spaces are removed, a comment is cut off, and
what is left is split at `=`. What `getline` yields is given. `getString` and
`getInt` look a key up.
-/

namespace SelectNet

open StdString

/-- The bytes of a literal of ASCII characters. -/
def ascii (text : String) : List Byte := text.toList.map fun char => UInt8.ofNat char.toNat

/-- `std::map<std::string, std::string>`. -/
abbrev Record := StdString → Option StdString

/-- `_record[key] = value`. -/
def Record.set (record : Record) (key value : StdString) : Record := fun other =>
  if other = key then some value else record other

namespace ConfigHelp

def space : StdString := ⟨[32], by decide⟩
def hash : StdString := ⟨[35], by decide⟩
def equals : StdString := ⟨[61], by decide⟩

/-- What follows `strsplit`. -/
def initRes (record : Record) : List StdString → Record
  | key :: value :: _ => record.set key value
  | _ => record

/-- From `strsplit` on. The loop of `strsplit` is given a pass for each position. -/
def initFields (record : Record) (lineContent : StdString) : Option Record :=
  (strsplit (lineContent.length + 1) lineContent equals).bind fun res => res.map (initRes record)

/-- The inside of the loop over the lines. It is `none` for an exception, or if a
loop needs more passes than the line has positions. -/
def initLine (record : Record) (line : StdString) : Option Record :=
  (strtrim (line.length + 1) line space).bind fun lineContent =>
    match lineContent.find hash 0 with
    | none => initFields record lineContent
    | some 0 => some record
    | some pos => (lineContent.substr 0 pos).bind (initFields record)

/-- `init(configName)`, given the lines of the file if it can be opened: the
returned value and `_record`. -/
def init (file : Option (List StdString)) (record : Record) : Option (Int × Record) :=
  match file with
  | none => some (-1, record)
  | some lines => (lines.foldlM initLine fun _ => none).map fun record => (0, record)

/-- `getString(key)`. Without the key its `assert` fails. -/
def getString (record : Record) (key : StdString) : Option StdString := record key

/-- `getInt(key)`, `atoi` of the bytes at `c_str()`. -/
def getInt (record : Record) (key : StdString) : Option Int :=
  (getString record key).bind fun val => Decimal.atoi (val.bytes.takeWhile (· ≠ 0))

end ConfigHelp

end SelectNet
