import SelectNet.CommonLib.ConfigHelp
import SelectNet.Configuration.Strsplit

/-!
# What a configuration file says

A rendering of key/value pairs has spaces anywhere, comments behind the pairs,
and lines that say nothing in between. `init` finds the pairs again, unless a pair
is so long that `strsplit` cuts it.
-/

namespace SelectNet

open Splitting StdString

/-! ## Renderings -/

/-- A key or a value: not empty, without space, `=`, `#` and newline. -/
structure Plain (s : StdString) : Prop where
  some : s.bytes ≠ []
  space : 32 ∉ s.bytes
  equals : 61 ∉ s.bytes
  hash : 35 ∉ s.bytes
  newline : 10 ∉ s.bytes

/-- Nothing, or a `#` and anything behind it. -/
def IsComment (comment : List Byte) : Prop := comment = [] ∨ ∃ rest, comment = 35 :: rest

/-- `key=value` with spaces anywhere, and a comment. -/
def RendersPair (key value line : StdString) : Prop :=
  ∃ text comment, line.bytes = text ++ comment ∧ IsComment comment ∧
    text.filter (· ≠ 32) = key.bytes ++ 61 :: value.bytes

/-- A line with no `=` in front of its comment: a blank one, a comment, or any
other text without `=`. -/
def SaysNothing (line : StdString) : Prop :=
  ∃ text comment, line.bytes = text ++ comment ∧ IsComment comment ∧ 61 ∉ text

/-- The lines of a file with these pairs. -/
inductive Renders : List (StdString × StdString) → List StdString → Prop where
  | nil : Renders [] []
  | pair {pairs : List (StdString × StdString)} {lines : List StdString}
      {key value line : StdString} (hkey : Plain key) (hvalue : Plain value)
      (hline : RendersPair key value line) (hrest : Renders pairs lines) :
      Renders ((key, value) :: pairs) (line :: lines)
  | nothing {pairs : List (StdString × StdString)} {lines : List StdString} {line : StdString}
      (hline : SaysNothing line) (hrest : Renders pairs lines) : Renders pairs (line :: lines)

/-- The value in the last pair with a key. -/
def lastValue : List (StdString × StdString) → StdString → Option StdString
  | [], _ => none
  | (key, value) :: rest, other =>
      (lastValue rest other).or (if other = key then some value else none)

/-- `key=value` has a length that `strsplit` does not cut. -/
def PairFits (key value : StdString) : Prop :=
  key.length + 1 + value.length < 2 ^ 31 ∨
    2 ^ 31 ≤ (key.length + 1 + value.length) % 2 ^ 32

/-! ## Removing the spaces -/

theorem find_single_none {src : StdString} {cell : Byte} {h : [cell].length < 2 ^ 63} :
    src.find ⟨[cell], h⟩ 0 = none ↔ cell ∉ src.bytes := by
  rw [StdString.find, if_pos (Nat.zero_le _), List.drop_zero, Option.map_eq_none_iff,
    first_eq_none_iff, List.singleton_infix_iff]

theorem eq_of_find {src mark : StdString} {pos : Nat} (hfind : src.find mark 0 = some pos) :
    src.bytes = src.bytes.take pos ++ mark.bytes ++ src.bytes.drop (pos + mark.length) := by
  rw [StdString.find, if_pos (Nat.zero_le _), List.drop_zero] at hfind
  obtain ⟨n, hfirst, hpos⟩ := Option.map_eq_some_iff.mp hfind
  rw [Nat.zero_add] at hpos
  subst hpos
  exact eq_append_of_first hfirst

/-- `strtrim` of one byte removes it wherever it stands. -/
theorem strtrim_single (src : StdString) (cell : Byte) {h : [cell].length < 2 ^ 63} :
    ∃ trimmed, strtrim (src.length + 1) src ⟨[cell], h⟩ = some trimmed ∧
      trimmed.bytes = src.bytes.filter (· ≠ cell) := by
  let mark : StdString := ⟨[cell], h⟩
  have herase : ∀ (s : StdString) (pos : Nat), s.find mark 0 = some pos →
      (s.erase pos mark.length).bytes.filter (· ≠ cell) = s.bytes.filter (· ≠ cell) ∧
        (s.erase pos mark.length).length < s.length := by
    intro s pos hfind
    have hparts := eq_of_find hfind
    constructor
    · conv_rhs => rw [hparts]
      simp [StdString.erase, mark]
    · have hlen := congrArg List.length hparts
      simp only [List.length_append, mark, List.length_singleton] at hlen
      simp only [StdString.length, StdString.erase, List.length_append, mark,
        List.length_singleton] at hlen ⊢
      omega
  have hagain : ∀ s next : StdString, s.bytes.filter (· ≠ cell) = src.bytes.filter (· ≠ cell) →
      strtrimPass mark s = .again next →
      next.bytes.filter (· ≠ cell) = src.bytes.filter (· ≠ cell) ∧ next.length < s.length := by
    intro s next hsame hpass
    unfold strtrimPass at hpass
    split at hpass
    next => cases hpass
    next pos hfind =>
      cases hpass
      obtain ⟨hfilter, hlt⟩ := herase s pos hfind
      exact ⟨hfilter.trans hsame, hlt⟩
  obtain ⟨trimmed, hrun⟩ := Loop.exists_run_of_variant StdString.length hagain rfl
    (Nat.lt_succ_self src.length)
  obtain ⟨last, hvisits, hleave⟩ := Loop.Yields.visits ⟨_, hrun⟩
  have hkeeps : ∀ s next : StdString, s.bytes.filter (· ≠ cell) = src.bytes.filter (· ≠ cell) →
      strtrimPass mark s = .again next →
      next.bytes.filter (· ≠ cell) = src.bytes.filter (· ≠ cell) :=
    fun s next hsame hpass => (hagain s next hsame hpass).1
  have hlast := hvisits.invariant hkeeps rfl
  refine ⟨trimmed, hrun, ?_⟩
  unfold strtrimPass at hleave
  split at hleave
  next hfind =>
    cases hleave
    rw [← hlast, eq_comm, List.filter_eq_self]
    intro other hother
    exact decide_eq_true fun heq => find_single_none.mp hfind (heq ▸ hother)
  next => cases hleave

/-! ## The fields of a line -/

theorem initFields_eq (record : Record) (content : StdString) :
    ∃ tokens, tokens.map StdString.bytes =
        cutFields (sourceEnd content) 1 0 (fields [61] content.bytes) ∧
      ConfigHelp.initFields record content = some (ConfigHelp.initRes record tokens) := by
  have hskip : toSize (toInt ConfigHelp.equals.length) = ConfigHelp.equals.length :=
    toSize_toInt_of_lt (by decide)
  obtain ⟨tokens, hreturns, htokens⟩ := @strsplit_returns content _ (List.cons_ne_nil _ _) hskip
  refine ⟨tokens, htokens, ?_⟩
  rw [ConfigHelp.initFields, hreturns, Option.bind_some, Option.map_some]

theorem initRes_of_few (record : Record) {tokens : List StdString} (hfew : tokens.length ≤ 1) :
    ConfigHelp.initRes record tokens = record := by
  rcases tokens with _ | ⟨key, _ | ⟨value, rest⟩⟩
  · rfl
  · rfl
  · simp only [List.length_cons] at hfew
    omega

/-- Without `=` there is at most one token. -/
theorem initFields_nothing (record : Record) {content : StdString} (hfree : 61 ∉ content.bytes) :
    ConfigHelp.initFields record content = some record := by
  obtain ⟨tokens, htokens, hinit⟩ := initFields_eq record content
  rw [hinit, initRes_of_few]
  rw [← List.length_map StdString.bytes, htokens, fields_of_none (first_single_eq_none hfree),
    cutFields]
  split <;> simp

/-- `key=value` is stored if its length is not cut; else at most a shorter value
is, whose length is not cut. -/
theorem initFields_pair (record : Record) {key value content : StdString} (hkey : Plain key)
    (hvalue : Plain value) (hcontent : content.bytes = key.bytes ++ 61 :: value.bytes) :
    ∃ next, ConfigHelp.initFields record content = some next ∧
      (PairFits key value → next = record.set key value) ∧
      (next = record ∨ ∃ stored, next = record.set key stored ∧ PairFits key stored) := by
  obtain ⟨tokens, htokens, hinit⟩ := initFields_eq record content
  have hlen : content.length = key.length + 1 + value.length := by
    rw [StdString.length, hcontent, List.length_append, List.length_cons]
    simp only [StdString.length]
    omega
  have hfields : fields [61] content.bytes = [key.bytes, value.bytes] := by
    rw [hcontent, fields_single hkey.equals, fields_of_none (first_single_eq_none hvalue.equals)]
  have hvaluelen : 0 < value.length := List.length_pos_iff.mpr hvalue.some
  rw [hfields] at htokens
  -- what is left of the value is what fits behind the key
  have hstored : key.length + 1 < sourceEnd content → ∃ stored,
      ConfigHelp.initFields record content = some (record.set key stored) ∧
      stored.bytes = value.bytes.take (sourceEnd content - (key.length + 1)) := by
    intro hlt
    unfold StdString.length at hlt ⊢
    rw [cutFields_cons (by omega) _ (List.cons_ne_nil _ _), nonempty_cons hkey.some, nonempty_nil,
      cutFields, Nat.zero_add, if_pos hlt] at htokens
    obtain ⟨first, rest, rfl, hfirst, hrest⟩ := List.map_eq_cons_iff.mp htokens
    obtain ⟨stored, rfl, hbytes⟩ := List.map_eq_singleton_iff.mp hrest
    obtain rfl := StdString.ext hfirst
    exact ⟨stored, hinit, hbytes⟩
  rcases sourceEnd_cases content with ⟨hint, hend⟩ | ⟨hlarge, hend⟩ | ⟨hsmall, hend, hshort⟩
  · obtain ⟨stored, hinit, hbytes⟩ := hstored (by omega)
    rw [List.take_of_length_le (by simp only [StdString.length] at hlen hend ⊢; omega)] at hbytes
    obtain rfl := StdString.ext hbytes
    exact ⟨_, hinit, fun _ => rfl, Or.inr ⟨stored, rfl, Or.inl (hlen ▸ hint)⟩⟩
  · obtain ⟨stored, hinit, hbytes⟩ := hstored (by omega)
    rw [List.take_of_length_le (by simp only [StdString.length] at hlen hend ⊢; omega)] at hbytes
    obtain rfl := StdString.ext hbytes
    exact ⟨_, hinit, fun _ => rfl, Or.inr ⟨stored, rfl, Or.inr (hlen ▸ hlarge)⟩⟩
  · have hnot : ¬ PairFits key value := by
      unfold PairFits
      omega
    by_cases hlt : key.length + 1 < sourceEnd content
    · obtain ⟨stored, hinit, hbytes⟩ := hstored hlt
      refine ⟨_, hinit, fun hfits => absurd hfits hnot, Or.inr ⟨stored, rfl, Or.inl ?_⟩⟩
      have hcut : stored.length = sourceEnd content - (key.length + 1) := by
        rw [StdString.length, hbytes, List.length_take, ← StdString.length]
        omega
      omega
    · refine ⟨_, hinit, fun hfits => absurd hfits hnot, Or.inl (initRes_of_few record ?_)⟩
      unfold StdString.length at hlt
      rw [← List.length_map StdString.bytes, htokens]
      by_cases hpos : 0 < sourceEnd content
      · rw [cutFields_cons hpos _ (List.cons_ne_nil _ _), nonempty_cons hkey.some, nonempty_nil,
          Nat.zero_add, cutFields_of_ge (Nat.not_lt.mp hlt)]
        rfl
      · rw [cutFields_of_ge (Nat.not_lt.mp hpos)]
        exact Nat.zero_le 1

/-! ## A line -/

/-- The comment is cut off before the fields are looked at. -/
theorem initLine_eq (record : Record) {line : StdString} {text comment : List Byte}
    (hline : line.bytes = text ++ comment) (hcomment : IsComment comment) (hfree : 35 ∉ text) :
    ∃ content : StdString, content.bytes = text.filter (· ≠ 32) ∧
      ConfigHelp.initLine record line = ConfigHelp.initFields record content := by
  obtain ⟨trimmed, htrim, hbytes⟩ := strtrim_single line 32
  have hclean : 35 ∉ text.filter (· ≠ 32) := fun hmem => hfree (List.mem_filter.mp hmem).1
  rw [hline, List.filter_append] at hbytes
  rcases hcomment with rfl | ⟨rest, rfl⟩
  · rw [List.filter_nil, List.append_nil] at hbytes
    have hfind : trimmed.find ConfigHelp.hash 0 = none := find_single_none.mpr (hbytes ▸ hclean)
    refine ⟨trimmed, hbytes, ?_⟩
    rw [ConfigHelp.initLine, ConfigHelp.space, htrim, Option.bind_some, hfind]
  · rw [List.filter_cons_of_pos (by decide)] at hbytes
    have hfind : trimmed.find ConfigHelp.hash 0 = some (text.filter (· ≠ 32)).length := by
      rw [StdString.find, if_pos (Nat.zero_le _), List.drop_zero, hbytes, ConfigHelp.hash,
        first_single hclean, Option.map_some, Nat.zero_add]
    have hcut : (trimmed.cut 0 (text.filter (· ≠ 32)).length).bytes = text.filter (· ≠ 32) := by
      simp only [StdString.cut, List.drop_zero, hbytes, List.take_left]
    refine ⟨_, hcut, ?_⟩
    rw [ConfigHelp.initLine, ConfigHelp.space, htrim, Option.bind_some, hfind]
    split
    next hzero => cases hzero
    next hzero =>
      have hempty := List.eq_nil_of_length_eq_zero (Option.some.inj hzero)
      refine (initFields_nothing record ?_).symm
      rw [hcut, hempty]
      exact List.not_mem_nil
    next pos hpos =>
      obtain rfl := Option.some.inj hpos
      rw [StdString.substr, if_pos (Nat.zero_le _), Option.bind_some]

theorem initLine_nothing (record : Record) {line : StdString} (hline : SaysNothing line) :
    ConfigHelp.initLine record line = some record := by
  obtain ⟨text, comment, hbytes, hcomment, hequals⟩ := hline
  -- the text ends in front of its first `#`
  obtain ⟨text, comment, hbytes, hcomment, hequals, hhash⟩ : ∃ text comment,
      line.bytes = text ++ comment ∧ IsComment comment ∧ 61 ∉ text ∧ 35 ∉ text := by
    by_cases hhash : 35 ∈ text
    · obtain ⟨front, back, rfl, hfront⟩ := List.eq_append_cons_of_mem hhash
      refine ⟨front, 35 :: (back ++ comment), ?_, Or.inr ⟨_, rfl⟩, ?_, hfront⟩
      · rw [hbytes, List.append_assoc, List.cons_append]
      · exact fun hmem => hequals (List.mem_append_left _ hmem)
    · exact ⟨text, comment, hbytes, hcomment, hequals, hhash⟩
  obtain ⟨content, hcontent, hinit⟩ := initLine_eq record hbytes hcomment hhash
  rw [hinit]
  apply initFields_nothing
  rw [hcontent]
  exact fun hmem => hequals (List.mem_filter.mp hmem).1

theorem initLine_pair (record : Record) {key value line : StdString} (hkey : Plain key)
    (hvalue : Plain value) (hline : RendersPair key value line) :
    ∃ next, ConfigHelp.initLine record line = some next ∧
      (PairFits key value → next = record.set key value) ∧
      (next = record ∨ ∃ stored, next = record.set key stored ∧ PairFits key stored) := by
  obtain ⟨text, comment, hbytes, hcomment, htext⟩ := hline
  have hhash : 35 ∉ text := by
    intro hmem
    have hkept : 35 ∈ text.filter (· ≠ 32) := List.mem_filter.mpr ⟨hmem, by decide⟩
    rw [htext, List.mem_append, List.mem_cons] at hkept
    rcases hkept with hin | heq | hin
    · exact hkey.hash hin
    · exact absurd heq (by decide)
    · exact hvalue.hash hin
  obtain ⟨content, hcontent, hinit⟩ := initLine_eq record hbytes hcomment hhash
  rw [hinit]
  exact initFields_pair record hkey hvalue (hcontent.trans htext)

/-! ## The file -/

/-- The lines of a rendering: `init` stores the last value of every key if it is
not cut, and never one that it would cut. -/
theorem foldlM_initLine {pairs : List (StdString × StdString)} {lines : List StdString}
    (hrenders : Renders pairs lines) (record : Record) :
    ∃ last, lines.foldlM ConfigHelp.initLine record = some last ∧
      (∀ key, (∀ value, lastValue pairs key = some value → PairFits key value) →
        last key = (lastValue pairs key).or (record key)) ∧
      ((∀ key value, record key = some value → PairFits key value) →
        ∀ key value, last key = some value → PairFits key value) := by
  induction hrenders generalizing record with
  | nil => exact ⟨record, rfl, fun _ _ => rfl, id⟩
  | nothing hline hrest ih =>
      obtain ⟨last, hfold, hlast⟩ := ih record
      refine ⟨last, ?_, hlast⟩
      rw [List.foldlM_cons, initLine_nothing record hline]
      exact hfold
  | @pair pairs lines key value line hkey hvalue hline hrest ih =>
      obtain ⟨next, hinit, hfits, hstored⟩ := initLine_pair record hkey hvalue hline
      obtain ⟨last, hfold, hlast, hkeeps⟩ := ih next
      refine ⟨last, ?_, ?_, ?_⟩
      · rw [List.foldlM_cons, hinit]
        exact hfold
      · intro other hother
        simp only [lastValue] at hother ⊢
        cases hlater : lastValue pairs other with
        | some later =>
            rw [hlater] at hother
            have hsame := hlast other fun v hv => hother v (by rw [← hv, hlater]; rfl)
            rw [hsame, hlater]
            rfl
        | none =>
            have hsame := hlast other fun v hv => by cases hlater.symm.trans hv
            rw [hlater, Option.none_or] at hother hsame
            rw [hsame, Option.none_or]
            by_cases hkeys : other = key
            · subst hkeys
              rw [if_pos rfl] at hother ⊢
              rw [hfits (hother value rfl), Record.set, if_pos rfl]
              rfl
            · rw [if_neg hkeys]
              rcases hstored with rfl | ⟨stored, rfl, -⟩
              · rfl
              · rw [Record.set, if_neg hkeys]
                rfl
      · intro hrecord
        apply hkeeps
        rcases hstored with rfl | ⟨stored, rfl, hshort⟩
        · exact hrecord
        · intro other kept hkept
          rw [Record.set] at hkept
          split at hkept
          next heq =>
            cases hkept
            exact heq ▸ hshort
          next => exact hrecord other kept hkept

/-- A rendering is read back if and only if the last pair of every key has a
length that `strsplit` does not cut. -/
theorem init_reads_back_iff {pairs : List (StdString × StdString)} {lines : List StdString}
    (hrenders : Renders pairs lines) (before : Record) :
    (∃ record, ConfigHelp.init (some lines) before = some (0, record) ∧
        ∀ key, record key = lastValue pairs key) ↔
      ∀ key value, lastValue pairs key = some value → PairFits key value := by
  obtain ⟨last, hfold, hlast, hkeeps⟩ := foldlM_initLine hrenders fun _ => none
  have hinit : ConfigHelp.init (some lines) before = some (0, last) := by
    rw [ConfigHelp.init, hfold, Option.map_some]
  constructor
  · rintro ⟨record, hrecord, hback⟩ key value hvalue
    cases hinit.symm.trans hrecord
    exact hkeeps nofun key value ((hback key).trans hvalue)
  · intro hall
    refine ⟨last, hinit, fun key => ?_⟩
    rw [hlast key (hall key), Option.or_none]

/-- A blank line, and a pair with spaces and a comment. -/
theorem init_reads_back_spaced : ∃ record,
    ConfigHelp.init (some [⟨[32], by decide⟩, ⟨[32, 97, 32, 61, 98, 32, 35, 61], by decide⟩])
      (fun _ => none) = some (0, record) ∧
    ∀ key, record key = lastValue [(⟨[97], by decide⟩, ⟨[98], by decide⟩)] key := by
  refine (init_reads_back_iff (.nothing ?_ (.pair ?_ ?_ ?_ .nil)) _).mpr ?_
  · exact ⟨[32], [], rfl, Or.inl rfl, by decide⟩
  · constructor <;> decide
  · constructor <;> decide
  · exact ⟨[32, 97, 32, 61, 98, 32], [35, 61], rfl, Or.inr ⟨[61], rfl⟩, by decide⟩
  · intro key value hvalue
    rw [lastValue, lastValue, Option.none_or] at hvalue
    split at hvalue
    next hkey =>
      cases hvalue
      subst hkey
      exact Or.inl (by decide)
    next => cases hvalue

/-- A value of 2^32 - 2 bytes for a key of one byte is lost with its key. -/
theorem init_loses_long_value :
    ¬ ∀ (pairs : List (StdString × StdString)) (lines : List StdString) (before : Record),
      Renders pairs lines → ∃ record, ConfigHelp.init (some lines) before = some (0, record) ∧
        ∀ key, record key = lastValue pairs key := by
  intro hall
  have hcount : (List.replicate (2 ^ 32 - 2) (98 : Byte)).length = 2 ^ 32 - 2 :=
    List.length_replicate
  have hclean : ∀ cell : Byte, cell ≠ 98 → cell ∉ List.replicate (2 ^ 32 - 2) 98 :=
    fun cell hne hmem => hne (List.eq_of_mem_replicate hmem)
  generalize List.replicate (2 ^ 32 - 2) (98 : Byte) = bytes at hcount hclean
  let key : StdString := ⟨[97], by decide⟩
  let value : StdString := ⟨bytes, by omega⟩
  let line : StdString := ⟨[97, 61] ++ bytes, by rw [List.length_append]; simp; omega⟩
  have hkey : Plain key := by constructor <;> decide
  have hvalue : Plain value := by
    constructor
    · intro hempty
      rw [show bytes = [] from hempty] at hcount
      exact absurd hcount (by decide)
    all_goals exact hclean _ (by decide)
  have hline : RendersPair key value line := by
    refine ⟨line.bytes, [], (List.append_nil _).symm, Or.inl rfl, List.filter_eq_self.mpr ?_⟩
    intro cell hcell
    have hne : cell ≠ 32 := by
      rintro rfl
      rcases List.mem_append.mp hcell with hfront | hback
      · exact absurd hfront (by decide)
      · exact hvalue.space hback
    exact decide_eq_true hne
  have hrenders : Renders [(key, value)] [line] := .pair hkey hvalue hline .nil
  obtain ⟨record, hinit, hback⟩ := hall _ _ (fun _ => none) hrenders
  obtain ⟨last, hfold, -, hkeeps⟩ := foldlM_initLine hrenders fun _ => none
  rw [ConfigHelp.init, hfold, Option.map_some] at hinit
  cases hinit
  have hstored : record key = some value := by
    rw [hback, lastValue, lastValue, Option.none_or, if_pos rfl]
  have hfits : (key.length + 1 + value.length < 2 ^ 31 ∨
      2 ^ 31 ≤ (key.length + 1 + value.length) % 2 ^ 32) := hkeeps nofun key value hstored
  have hkeylen : key.length = 1 := rfl
  have hvaluelen : value.length = 2 ^ 32 - 2 := hcount
  omega

end SelectNet
