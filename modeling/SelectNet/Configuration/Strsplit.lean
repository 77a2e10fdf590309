import SelectNet.CommonLib.Utils

/-!
# What strsplit returns

`strsplit` walks over the fields of the leftmost split. It takes the source to
end where the length ends that it keeps in an `int`: a source of 2^31 bytes or
more is cut short, or taken to go on behind its last field. A separator whose
length becomes negative or zero moves the position back, to before the occurrence
it has just found or around to the end of all positions.
-/

namespace SelectNet

open Splitting StdString

/-- Where `strsplit` takes the source to end. -/
def sourceEnd (src : StdString) : Nat := toSize (toInt src.length)

/-- What the loop makes of fields from a position on, when the source is taken to
end at `limit`. -/
def cutFields (limit skip : Nat) : Nat → List (List Byte) → List (List Byte)
  | _, [] => []
  | pos, [last] => if pos < limit then [last.take (limit - pos)] else []
  | pos, field :: rest =>
      if pos < limit then
        nonempty [field] ++ cutFields limit skip (pos + field.length + skip) rest
      else []

variable {src split : StdString} {limit skip pos : Nat} {rest : List (List Byte)}

/-! ## The narrowed lengths -/

theorem toSize_toInt_of_lt {size : Nat} (hlt : size < 2 ^ 31) : toSize (toInt size) = size := by
  unfold toSize toInt
  rw [Int.bmod_def]
  split <;> omega

theorem toSize_toInt_of_small {size : Nat} (hsmall : size % 2 ^ 32 < 2 ^ 31) :
    toSize (toInt size) = size % 2 ^ 32 := by
  unfold toSize toInt
  rw [Int.bmod_def]
  split <;> omega

theorem lt_toSize_toInt_of_large {size : Nat} (hlarge : 2 ^ 31 ≤ size % 2 ^ 32) :
    2 ^ 63 ≤ toSize (toInt size) := by
  unfold toSize toInt
  rw [Int.bmod_def]
  split <;> omega

theorem toSize_sub {len : Int} (hlt : pos < toSize len) :
    toSize (len - pos) = toSize len - pos := by
  unfold toSize at hlt ⊢
  omega

theorem toSize_ofNat {size : Nat} (hlt : size < 2 ^ 64) : toSize size = size := by
  unfold toSize
  omega

/-! ## The loop -/

theorem cutFields_of_ge (hge : limit ≤ pos) (fields : List (List Byte)) :
    cutFields limit skip pos fields = [] := by
  unfold cutFields
  split
  · rfl
  · exact if_neg (Nat.not_lt.mpr hge)
  · exact if_neg (Nat.not_lt.mpr hge)

theorem cutFields_cons (hlt : pos < limit) (field : List Byte) (hrest : rest ≠ []) :
    cutFields limit skip pos (field :: rest) =
      nonempty [field] ++ cutFields limit skip (pos + field.length + skip) rest := by
  cases rest with
  | nil => exact absurd rfl hrest
  | cons next rest => exact if_pos hlt

theorem strsplitPass_done {len splitLen : Int} (hge : toSize len ≤ pos) (res : List StdString) :
    strsplitPass src split len splitLen (res, pos) = .leave (some res) := by
  simp only [strsplitPass, if_neg (Nat.not_lt.mpr hge), strsplitTail]

/-- The last field, whether or not it ends where the source is taken to end. -/
theorem strsplitPass_last {len splitLen : Int} (hlt : pos < toSize len) (hpos : pos ≤ src.length)
    (hlast : first split.bytes (src.bytes.drop pos) = none) (res : List StdString) :
    strsplitPass src split len splitLen (res, pos) =
      .leave (some (res ++ [src.cut pos (toSize len - pos)])) := by
  have hfind : src.find split pos = none := by
    rw [StdString.find, if_pos hpos, hlast, Option.map_none]
  simp only [strsplitPass, if_pos hlt, hfind, strsplitTail, StdString.substr, if_pos hpos,
    Option.map_some, toSize_sub hlt]

/-- A field in front of a separator is emitted unless it is empty. The position
goes on by the narrowed length of the separator. -/
theorem strsplitPass_moves {len : Int} {n : Nat} (splitLen : Int) (hlt : pos < toSize len)
    (hpos : pos ≤ src.length) (hfirst : first split.bytes (src.bytes.drop pos) = some n)
    (res : List StdString) :
    ∃ tokens : List StdString, tokens.map StdString.bytes =
        nonempty [(src.bytes.drop pos).take n] ∧
      strsplitPass src split len splitLen (res, pos) =
        .again (res ++ tokens, (pos + n + toSize splitLen) % 2 ^ 64) := by
  have hfind : src.find split pos = some (pos + n) := by
    rw [StdString.find, if_pos hpos, hfirst, Option.map_some]
  have hsrc := src.length_lt
  have hlen := length_of_first hfirst
  rw [List.length_drop] at hlen
  by_cases hempty : n = 0
  · subst hempty
    refine ⟨[], rfl, ?_⟩
    simp only [strsplitPass, if_pos hlt, hfind, Nat.add_zero, if_true, List.append_nil]
  · refine ⟨[src.cut pos n], ?_, ?_⟩
    · have hsome : (src.bytes.drop pos).take n ≠ [] := by
        intro hnil
        have hzero := congrArg List.length hnil
        rw [List.length_take, List.length_drop, List.length_nil] at hzero
        omega
      rw [nonempty_cons hsome]
      rfl
    · have hcount : toSize ((pos + n : Nat) - (pos : Nat)) = n := by
        have hdiff : ((pos + n : Nat) : Int) - (pos : Nat) = n := by omega
        rw [hdiff, toSize_ofNat (by omega)]
      have hne : ¬ pos = pos + n := by omega
      simp only [strsplitPass, if_pos hlt, hfind, if_neg hne, StdString.substr, if_pos hpos,
        hcount]

/-- The position goes on to the next field. -/
theorem strsplitPass_field {len splitLen : Int} {n : Nat} (hlt : pos < toSize len)
    (hpos : pos ≤ src.length) (hfirst : first split.bytes (src.bytes.drop pos) = some n)
    (hskip : toSize splitLen = split.length) (res : List StdString) :
    ∃ tokens : List StdString, tokens.map StdString.bytes =
        nonempty [(src.bytes.drop pos).take n] ∧
      strsplitPass src split len splitLen (res, pos) =
        .again (res ++ tokens, pos + n + split.length) := by
  obtain ⟨tokens, htokens, hpass⟩ := strsplitPass_moves splitLen hlt hpos hfirst res
  have hsrc := src.length_lt
  have hlen := length_of_first hfirst
  rw [List.length_drop] at hlen
  have hmod : (pos + n + split.length) % 2 ^ 64 = pos + n + split.length := by
    simp only [StdString.length] at hpos ⊢
    exact Nat.mod_eq_of_lt (by omega)
  rw [hskip, hmod] at hpass
  exact ⟨tokens, htokens, hpass⟩

/-- The loop from a position on. The narrowed length of the separator only
matters where the separator occurs. -/
theorem strsplitPass_yields (hmark : split.bytes ≠ [])
    (hfits : toSize (toInt split.length) = split.length ∨ ¬ split.bytes <:+: src.bytes)
    (hpos : pos ≤ src.length) (res : List StdString) :
    ∃ tokens : List StdString,
      Loop.Yields (strsplitPass src split (toInt src.length) (toInt split.length)) (res, pos)
        (some (res ++ tokens)) ∧
      tokens.map StdString.bytes = cutFields (sourceEnd src) split.length pos
        (fields split.bytes (src.bytes.drop pos)) := by
  have hall := fields_induction (fun cells fields => ∀ (pos : Nat) (res : List StdString),
    src.bytes.drop pos = cells → pos ≤ src.length → ∃ tokens : List StdString,
      Loop.Yields (strsplitPass src split (toInt src.length) (toInt split.length)) (res, pos)
        (some (res ++ tokens)) ∧
      tokens.map StdString.bytes = cutFields (sourceEnd src) split.length pos fields) hmark
  apply hall ?_ ?_ (src.bytes.drop pos) pos res rfl hpos
  · rintro cells hlast pos res rfl hpos
    by_cases hlt : pos < sourceEnd src
    · refine ⟨[src.cut pos (sourceEnd src - pos)], .of_leave ?_, ?_⟩
      · exact strsplitPass_last hlt hpos hlast res
      · rw [cutFields, if_pos hlt]
        rfl
    · refine ⟨[], .of_leave ?_, ?_⟩
      · rw [List.append_nil]
        exact strsplitPass_done (Nat.not_lt.mp hlt) res
      · rw [cutFields_of_ge (Nat.not_lt.mp hlt), List.map_nil]
  · rintro cells n hfirst ih pos res rfl hpos
    by_cases hlt : pos < sourceEnd src
    · have hoccurs : split.bytes <:+: src.bytes := by
        have hhere := (prefix_of_first hfirst).isInfix
        have hrest := ((List.drop_suffix n _).trans (List.drop_suffix pos src.bytes)).isInfix
        exact hhere.trans hrest
      have hskip := hfits.resolve_right fun hnot => hnot hoccurs
      obtain ⟨tokens, htokens, hpass⟩ := strsplitPass_field hlt hpos hfirst hskip res
      have hlen := length_of_first hfirst
      rw [List.length_drop] at hlen
      have hdrop : src.bytes.drop (pos + n + split.length) =
          (src.bytes.drop pos).drop (n + split.bytes.length) := by
        rw [List.drop_drop, Nat.add_assoc]
        rfl
      have hnext : pos + n + split.length ≤ src.length := by
        simp only [StdString.length] at hpos ⊢
        omega
      obtain ⟨more, hyields, hmore⟩ := ih (pos + n + split.length) (res ++ tokens) hdrop hnext
      refine ⟨tokens ++ more, ?_, ?_⟩
      · rw [← List.append_assoc]
        exact hyields.of_again hpass
      · have htake : ((src.bytes.drop pos).take n).length = n := by
          rw [List.length_take, List.length_drop]
          omega
        rw [cutFields_cons hlt _ (fields_ne_nil hmark _), List.map_append, htokens, hmore, htake]
    · refine ⟨[], .of_leave ?_, ?_⟩
      · rw [List.append_nil]
        exact strsplitPass_done (Nat.not_lt.mp hlt) res
      · rw [cutFields_of_ge (Nat.not_lt.mp hlt), List.map_nil]

/-- With a separator whose length fits, a pass for each position is enough. -/
theorem strsplit_returns (hmark : split.bytes ≠ [])
    (hskip : toSize (toInt split.length) = split.length) :
    ∃ tokens, strsplit (src.length + 1) src split = some (some tokens) ∧
      tokens.map StdString.bytes =
        cutFields (sourceEnd src) split.length 0 (fields split.bytes src.bytes) := by
  obtain ⟨tokens, hyields, htokens⟩ :=
    strsplitPass_yields hmark (Or.inl hskip) (Nat.zero_le src.length) []
  rw [List.nil_append] at hyields
  refine ⟨tokens, ?_, htokens⟩
  have hpositive := List.length_pos_iff.mpr hmark
  have hagain : ∀ state next : List StdString × Nat, state.2 ≤ src.length →
      strsplitPass src split (toInt src.length) (toInt split.length) state = .again next →
      next.2 ≤ src.length ∧ src.length - next.2 < src.length - state.2 := by
    rintro ⟨res, pos⟩ next hpos hpass
    by_cases hlt : pos < toSize (toInt src.length)
    · cases hfirst : first split.bytes (src.bytes.drop pos) with
      | none =>
          rw [strsplitPass_last hlt hpos hfirst] at hpass
          cases hpass
      | some n =>
          obtain ⟨_, _, hfield⟩ := strsplitPass_field hlt hpos hfirst hskip res
          rw [hfield] at hpass
          cases hpass
          have hlen := length_of_first hfirst
          rw [List.length_drop] at hlen
          simp only [StdString.length] at hpos ⊢
          omega
    · rw [strsplitPass_done (Nat.not_lt.mp hlt)] at hpass
      cases hpass
  have hstart : (([], 0) : List StdString × Nat).2 ≤ src.length := Nat.zero_le src.length
  obtain ⟨result, hrun⟩ := Loop.exists_run_of_variant
    (fun state : List StdString × Nat => src.length - state.2) hagain hstart
    (Nat.lt_succ_self src.length)
  rw [← Loop.Yields.unique ⟨_, hrun⟩ hyields]
  exact hrun

/-! ## What is cut off -/

/-- A source taken to go on behind its end: only an empty last field shows it. -/
theorem cutFields_of_long {fields : List (List Byte)} (hsome : fields ≠ [])
    (hlong : pos + extent skip fields < limit) :
    cutFields limit skip pos fields = nonempty fields ↔
      ∀ last ∈ fields.getLast?, last ≠ [] := by
  induction fields generalizing pos with
  | nil => exact absurd rfl hsome
  | cons field rest ih =>
      by_cases hrest : rest = []
      · subst hrest
        have hall : field.take (limit - pos) = field := by
          apply List.take_of_length_le
          simp only [extent] at hlong
          omega
        rw [cutFields, if_pos (by omega), hall]
        by_cases hempty : field = []
        · simp [hempty]
        · simp [nonempty_cons hempty, hempty]
      · rw [extent_cons skip field hrest] at hlong
        rw [cutFields_cons (by omega) field hrest, nonempty_cons_append field rest,
          List.append_right_inj, ih hrest (by omega), List.getLast?_cons_of_ne_nil hrest]

/-- A source taken to end where it ends. -/
theorem cutFields_of_exact (hskip : 0 < skip) {fields : List (List Byte)}
    (hexact : pos + extent skip fields = limit) :
    cutFields limit skip pos fields = nonempty fields := by
  induction fields generalizing pos with
  | nil => rfl
  | cons field rest ih =>
      by_cases hrest : rest = []
      · subst hrest
        simp only [extent] at hexact
        by_cases hempty : field = []
        · subst hempty
          rw [cutFields_of_ge (by simp at hexact; omega)]
          rfl
        · have hpos := List.length_pos_iff.mpr hempty
          rw [cutFields, if_pos (by omega), nonempty_cons hempty,
            List.take_of_length_le (by omega)]
          rfl
      · rw [extent_cons skip field hrest] at hexact
        rw [cutFields_cons (by omega) field hrest, nonempty_cons_append field rest, ih (by omega)]

/-- A source taken to end before its end: a last field that starts before is cut,
and what starts behind is lost. -/
theorem cutFields_of_short {fields : List (List Byte)} (hsome : fields ≠ [])
    (hshort : limit < pos + extent skip fields) :
    cutFields limit skip pos fields = nonempty fields ↔
      (∀ last ∈ (placed skip pos fields).getLast?, limit ≤ last.1) ∧
        ∀ entry ∈ placed skip pos fields, limit ≤ entry.1 → entry.2 = [] := by
  induction fields generalizing pos with
  | nil => exact absurd rfl hsome
  | cons field rest ih =>
      by_cases hlt : pos < limit
      · by_cases hrest : rest = []
        · -- the last field starts before the limit and reaches over it
          subst hrest
          simp only [extent] at hshort
          have hsome : field ≠ [] := by
            rintro rfl
            simp at hshort
            omega
          have hcut : [field.take (limit - pos)] ≠ [field] := by
            intro hsame
            have hlen := congrArg List.length (List.head_eq_of_cons_eq hsame)
            rw [List.length_take] at hlen
            omega
          rw [cutFields, if_pos hlt, nonempty_cons hsome, nonempty_nil]
          simp only [placed, List.getLast?_singleton, Option.mem_some_iff, forall_eq']
          exact ⟨fun hsame => absurd hsame hcut, fun hle => absurd hle.1 (by omega)⟩
        · rw [extent_cons skip field hrest] at hshort
          rw [cutFields_cons hlt field hrest, nonempty_cons_append field rest,
            List.append_right_inj, ih hrest (by omega), placed,
            List.getLast?_cons_of_ne_nil (placed_ne_nil hrest),
            List.forall_mem_cons]
          have hhead : limit ≤ (pos, field).1 → (pos, field).2 = [] := fun hle => by
            simp only at hle
            omega
          exact ⟨fun ⟨hlast, hall⟩ => ⟨hlast, hhead, hall⟩,
            fun ⟨hlast, _, hall⟩ => ⟨hlast, hall⟩⟩
      · have hge := Nat.not_lt.mp hlt
        rw [cutFields_of_ge hge, eq_comm, nonempty_eq_nil_iff]
        constructor
        · intro hempty
          refine ⟨fun last hlast => ?_, fun entry hentry _ => ?_⟩
          · exact hge.trans (le_of_mem_placed (List.mem_of_getLast? hlast)).1
          · exact hempty _ (le_of_mem_placed hentry).2
        · rintro ⟨_, hall⟩ other hother
          obtain ⟨start, hplaced⟩ := exists_mem_placed hother
          exact hall _ hplaced (hge.trans (le_of_mem_placed hplaced).1)

/-! ## Where the result is right -/

/-- The fields that are not empty, in order. They contain no separator, and the
source is made of them and of whole separators. -/
structure SplitsInto (src split : StdString) (tokens : List StdString) : Prop where
  fields : tokens.map StdString.bytes = nonempty (fields split.bytes src.bytes)
  nonempty : ∀ token ∈ tokens, token.bytes ≠ []
  clean : ∀ token ∈ tokens, ¬ split.bytes <:+: token.bytes
  joins : Joins split.bytes (tokens.map StdString.bytes) src.bytes

/-- `strsplit` returns, and returns these. -/
def StrsplitCorrect (src split : StdString) : Prop :=
  ∃ fuel tokens, strsplit fuel src split = some (some tokens) ∧ SplitsInto src split tokens

/-- The length survives as an `int`; or it becomes negative and there is a last
field to end on; or it becomes a smaller one, with nothing but separators behind
it and a last field that starts there. -/
def LengthSurvives (src split : StdString) : Prop :=
  src.length < 2 ^ 31 ∨
  (2 ^ 31 ≤ src.length % 2 ^ 32 ∧
    ∀ last ∈ (fields split.bytes src.bytes).getLast?, last ≠ []) ∨
  (src.length % 2 ^ 32 < 2 ^ 31 ∧
    (∀ last ∈ (placed split.length 0 (fields split.bytes src.bytes)).getLast?,
      src.length % 2 ^ 32 ≤ last.1) ∧
    ∀ entry ∈ placed split.length 0 (fields split.bytes src.bytes),
      src.length % 2 ^ 32 ≤ entry.1 → entry.2 = [])

/-- For a separator that occurs, and whose length becomes negative or zero: the
source is taken to end no later than where the position is moved to behind the
first occurrence, and there is nothing but separators behind it. -/
def SeparatorSurvives (src split : StdString) : Prop :=
  ∃ n, first split.bytes src.bytes = some n ∧
    (src.length % 2 ^ 32 = 0 → n = 0) ∧
    sourceEnd src ≤ toSize (n + toInt split.length) ∧
    ∀ field ∈ (fields split.bytes src.bytes).tail, field = []

/-- Both lengths survive. That of a separator which does not occur is not used. -/
def LengthsSurvive (src split : StdString) : Prop :=
  (toInt split.length = split.length ∨ ¬ split.bytes <:+: src.bytes) ∧ LengthSurvives src split ∨
  toInt split.length ≤ 0 ∧ SeparatorSurvives src split

theorem splitsInto_iff (hmark : split.bytes ≠ []) {tokens : List StdString} :
    SplitsInto src split tokens ↔
      tokens.map StdString.bytes = nonempty (fields split.bytes src.bytes) := by
  refine ⟨fun hsplits => hsplits.fields, fun htokens => ?_⟩
  have hmem : ∀ token ∈ tokens,
      token.bytes ∈ fields split.bytes src.bytes ∧ token.bytes ≠ [] := by
    intro token htoken
    apply mem_nonempty.mp
    rw [← htokens]
    exact List.mem_map_of_mem htoken
  refine ⟨htokens, fun token htoken => (hmem token htoken).2, fun token htoken => ?_, ?_⟩
  · exact not_infix_of_mem_fields hmark src.bytes _ (hmem token htoken).1
  · rw [htokens]
    exact joins_fields hmark src.bytes

/-- The loop has one result. -/
theorem strsplitCorrect_iff_of_yields (hmark : split.bytes ≠ [])
    {result : Option (List StdString)}
    (hyields : Loop.Yields (strsplitPass src split (toInt src.length) (toInt split.length)) ([], 0)
      result) :
    StrsplitCorrect src split ↔ ∃ tokens, result = some tokens ∧
      tokens.map StdString.bytes = nonempty (fields split.bytes src.bytes) := by
  constructor
  · rintro ⟨fuel, tokens, hrun, hsplits⟩
    exact ⟨tokens, hyields.unique ⟨fuel, hrun⟩, hsplits.fields⟩
  · rintro ⟨tokens, rfl, htokens⟩
    obtain ⟨fuel, hrun⟩ := hyields
    exact ⟨fuel, tokens, hrun, (splitsInto_iff hmark).mpr htokens⟩

/-- The result of a call whose separator has a length that fits. -/
theorem strsplitCorrect_iff_cutFields (hmark : split.bytes ≠ [])
    (hfits : toSize (toInt split.length) = split.length ∨ ¬ split.bytes <:+: src.bytes) :
    StrsplitCorrect src split ↔
      cutFields (sourceEnd src) split.length 0 (fields split.bytes src.bytes) =
        nonempty (fields split.bytes src.bytes) := by
  obtain ⟨tokens, hyields, hcut⟩ := strsplitPass_yields hmark hfits (Nat.zero_le src.length) []
  rw [List.drop_zero] at hcut
  rw [List.nil_append] at hyields
  rw [strsplitCorrect_iff_of_yields hmark hyields, ← hcut]
  simp only [Option.some.injEq, exists_eq_left']

theorem sourceEnd_cases (src : StdString) :
    (src.length < 2 ^ 31 ∧ sourceEnd src = src.length) ∨
    (2 ^ 31 ≤ src.length % 2 ^ 32 ∧ src.length < sourceEnd src) ∨
    (src.length % 2 ^ 32 < 2 ^ 31 ∧ sourceEnd src = src.length % 2 ^ 32 ∧
      sourceEnd src < src.length) := by
  have hlen : src.length < 2 ^ 63 := src.length_lt
  by_cases hint : src.length < 2 ^ 31
  · exact Or.inl ⟨hint, toSize_toInt_of_lt hint⟩
  · by_cases hlarge : 2 ^ 31 ≤ src.length % 2 ^ 32
    · have hend := lt_toSize_toInt_of_large hlarge
      exact Or.inr (Or.inl ⟨hlarge, by rw [sourceEnd]; omega⟩)
    · have hend := toSize_toInt_of_small (Nat.not_le.mp hlarge)
      rw [← sourceEnd] at hend
      exact Or.inr (Or.inr ⟨Nat.not_le.mp hlarge, hend, by omega⟩)

/-- With a separator whose length survives, or does not matter. -/
theorem strsplitCorrect_iff_lengthSurvives (hmark : split.bytes ≠ [])
    (hfits : toInt split.length = split.length ∨ ¬ split.bytes <:+: src.bytes) :
    StrsplitCorrect src split ↔ LengthSurvives src split := by
  have hskip : toSize (toInt split.length) = split.length ∨ ¬ split.bytes <:+: src.bytes := by
    refine hfits.imp_left fun hfits => ?_
    have hlen : split.length < 2 ^ 63 := split.length_lt
    rw [hfits, toSize_ofNat (by omega)]
  rw [strsplitCorrect_iff_cutFields hmark hskip]
  have hpos : 0 < split.length := List.length_pos_iff.mpr hmark
  have hsome := fields_ne_nil hmark src.bytes
  have hextent : 0 + extent split.length (fields split.bytes src.bytes) = src.length := by
    rw [Nat.zero_add]
    exact extent_fields hmark src.bytes
  rcases sourceEnd_cases src with ⟨hint, hend⟩ | ⟨hlarge, hend⟩ | ⟨hsmall, hend, hshort⟩
  · have hall := cutFields_of_exact hpos (hextent.trans hend.symm)
    exact ⟨fun _ => Or.inl hint, fun _ => hall⟩
  · rw [cutFields_of_long hsome (by omega)]
    unfold LengthSurvives
    constructor
    · exact fun hlast => Or.inr (Or.inl ⟨hlarge, hlast⟩)
    · rintro (hint | ⟨_, hlast⟩ | ⟨hsmall, _⟩)
      · omega
      · exact hlast
      · omega
  · rw [cutFields_of_short hsome (by omega), hend]
    unfold LengthSurvives
    constructor
    · exact fun hlost => Or.inr (Or.inr ⟨hsmall, hlost⟩)
    · rintro (hint | ⟨hlarge, _⟩ | ⟨_, hlost⟩)
      · omega
      · omega
      · exact hlost

/-! ## A separator that moves the position back -/

theorem toSize_add {size : Nat} {value : Int} :
    (size + toSize value) % 2 ^ 64 = toSize (size + value) := by
  unfold toSize
  omega

theorem sourceEnd_eq_zero_iff (src : StdString) :
    sourceEnd src = 0 ↔ src.length % 2 ^ 32 = 0 := by
  unfold sourceEnd toSize toInt
  rw [Int.bmod_def]
  split <;> omega

/-- From a position that is moved back to itself, the loop goes on for ever. -/
theorem not_ends_of_back {len splitLen : Int} {n : Nat}
    (hfirst : first split.bytes src.bytes = some n) (hle : pos ≤ n) (hlt : pos < toSize len)
    (hback : toSize (n + splitLen) = pos) (res : List StdString) :
    ¬ Loop.Ends (strsplitPass src split len splitLen) (res, pos) := by
  have htrap : ∀ state : List StdString × Nat, state.2 = pos →
      ∃ next, strsplitPass src split len splitLen state = .again next ∧ next.2 = pos := by
    rintro ⟨res, pos⟩ rfl
    have hlen := length_of_first hfirst
    have hpos : pos ≤ src.length := by
      simp only [StdString.length]
      omega
    obtain ⟨tokens, _, hpass⟩ := strsplitPass_moves splitLen hlt hpos (first_drop hfirst hle) res
    rw [Nat.add_sub_cancel' hle, toSize_add, hback] at hpass
    exact ⟨_, hpass, rfl⟩
  exact Loop.not_ends_of_trap htrap rfl

/-- A position behind the end of the string, where the source is taken to go on. -/
theorem strsplitPass_throws {len splitLen : Int} (hlt : pos < toSize len)
    (hpos : src.length < pos) (res : List StdString) :
    strsplitPass src split len splitLen (res, pos) = .leave none := by
  have hfind : src.find split pos = none := if_neg (Nat.not_le.mpr hpos)
  simp only [strsplitPass, if_pos hlt, hfind, strsplitTail, StdString.substr,
    if_neg (Nat.not_le.mpr hpos), Option.map_none]

/-- The position behind the first occurrence is in front of it or around at the end
of all positions. While the source is taken to go on there, no fields are returned. -/
theorem not_strsplitCorrect_of_back {n : Nat} (hmark : split.bytes ≠ [])
    (hfirst : first split.bytes src.bytes = some n) (hback : toInt split.length ≤ 0)
    (hlt : toSize (n + toInt split.length) < sourceEnd src) : ¬ StrsplitCorrect src split := by
  have hpositive : 0 < sourceEnd src := Nat.zero_lt_of_lt hlt
  obtain ⟨tokens, _, hpass⟩ := strsplitPass_moves (toInt split.length) hpositive
    (Nat.zero_le src.length) hfirst []
  rw [Nat.zero_add, List.nil_append, toSize_add] at hpass
  have hlen := length_of_first hfirst
  have hsrc := src.length_lt
  by_cases hfront : 0 ≤ n + toInt split.length
  · have hle : toSize (n + toInt split.length) ≤ n := by
      unfold toSize
      omega
    rintro ⟨fuel, found, hrun, _⟩
    have hends : Loop.Ends _ _ := ⟨_, fuel, hrun⟩
    rw [Loop.ends_iff_of_again hpass] at hends
    exact not_ends_of_back hfirst hle hlt rfl tokens hends
  · have hbehind : src.length < toSize (n + toInt split.length) := by
      have hmin : -(2 ^ 31) ≤ toInt split.length := by
        unfold toInt
        rw [Int.bmod_def]
        split <;> omega
      unfold toSize
      simp only [StdString.length] at hmin hfront ⊢
      omega
    have hyields := Loop.Yields.of_again hpass (.of_leave (strsplitPass_throws hlt hbehind tokens))
    rw [strsplitCorrect_iff_of_yields hmark hyields]
    rintro ⟨found, hnone, _⟩
    cases hnone

/-- Only where the loop leaves behind the first occurrence can its result be right. -/
theorem strsplitCorrect_iff_separatorSurvives (hmark : split.bytes ≠ [])
    (hback : toInt split.length ≤ 0) (hoccurs : split.bytes <:+: src.bytes) :
    StrsplitCorrect src split ↔ SeparatorSurvives src split := by
  obtain ⟨n, hfirst⟩ := Option.ne_none_iff_exists'.mp
    fun hnone => first_eq_none_iff.mp hnone hoccurs
  have hsurvives : SeparatorSurvives src split ↔ (src.length % 2 ^ 32 = 0 → n = 0) ∧
      sourceEnd src ≤ toSize (n + toInt split.length) ∧
      ∀ field ∈ (fields split.bytes src.bytes).tail, field = [] := by
    simp only [SeparatorSurvives, hfirst, Option.some.injEq, exists_eq_left']
  rw [hsurvives]
  have hfields := fields_of_some hmark hfirst
  have hlen := length_of_first hfirst
  by_cases hzero : sourceEnd src = 0
  · -- the loop is not entered
    have hpass : strsplitPass src split (toInt src.length) (toInt split.length) ([], 0) =
        .leave (some []) := strsplitPass_done (Nat.le_of_eq hzero) []
    have hempty : src.bytes.take n = [] ↔ n = 0 := by
      rw [List.take_eq_nil_iff]
      have hpos := List.length_pos_iff.mpr hmark
      refine ⟨fun hnil => hnil.elim id fun hnil => ?_, Or.inl⟩
      rw [hnil, List.length_nil] at hlen
      omega
    rw [strsplitCorrect_iff_of_yields hmark (.of_leave hpass), hfields, List.tail_cons, hzero]
    simp only [Option.some.injEq, exists_eq_left', List.map_nil]
    rw [@eq_comm _ [], nonempty_eq_nil_iff, List.forall_mem_cons, hempty]
    simp only [(sourceEnd_eq_zero_iff src).mp hzero, forall_const, Nat.zero_le, true_and]
  · have hpositive : 0 < sourceEnd src := Nat.pos_of_ne_zero hzero
    by_cases hend : sourceEnd src ≤ toSize (n + toInt split.length)
    · obtain ⟨tokens, htokens, hpass⟩ := strsplitPass_moves (toInt split.length)
        hpositive (Nat.zero_le src.length) hfirst []
      rw [List.drop_zero] at htokens
      rw [Nat.zero_add, List.nil_append, toSize_add] at hpass
      have hyields := Loop.Yields.of_again hpass (.of_leave (strsplitPass_done hend tokens))
      rw [strsplitCorrect_iff_of_yields hmark hyields, hfields, List.tail_cons,
        nonempty_cons_append]
      simp only [Option.some.injEq, exists_eq_left', htokens, List.self_eq_append_right,
        nonempty_eq_nil_iff, hend, true_and]
      exact ⟨fun hall => ⟨fun hmod => absurd ((sourceEnd_eq_zero_iff src).mpr hmod) hzero, hall⟩,
        And.right⟩
    · have hnot := not_strsplitCorrect_of_back hmark hfirst hback (Nat.not_le.mp hend)
      exact iff_of_false hnot fun hall => hend hall.2.1

/-- While the source is shorter than 2^32 bytes, the first occurrence has to end it. -/
theorem separatorSurvives_iff_of_lt (hmark : split.bytes ≠ []) (hlong : 2 ^ 31 ≤ split.length)
    (hlt : src.length < 2 ^ 32) :
    SeparatorSurvives src split ↔
      ∃ n, first split.bytes src.bytes = some n ∧ n + split.length = src.length := by
  simp only [SeparatorSurvives, StdString.length] at hlong hlt ⊢
  refine exists_congr fun n => and_congr_right fun hfirst => ?_
  have hlen := length_of_first hfirst
  have hend : sourceEnd src ≤ toSize (n + toInt split.bytes.length) ↔
      src.bytes.length ≤ n + split.bytes.length := by
    unfold sourceEnd toSize toInt
    rw [StdString.length, Int.bmod_def, Int.bmod_def]
    split <;> split <;> omega
  rw [hend]
  constructor
  · rintro ⟨_, hle, _⟩
    exact Nat.le_antisymm hlen hle
  · intro hsame
    refine ⟨fun hzero => by omega, Nat.le_of_eq hsame.symm, ?_⟩
    rw [fields_of_some hmark hfirst, List.tail_cons,
      List.drop_of_length_le (Nat.le_of_eq hsame.symm),
      fields_of_none (first_eq_none_iff.mpr fun hinfix => hmark (List.infix_nil.mp hinfix))]
    exact List.forall_mem_singleton.mpr rfl

/-- `strsplit` returns the fields that are not empty if and only if the lengths
survive. A separator that occurs and whose length becomes a smaller one above
zero is left out: the position is moved to inside the occurrence. -/
theorem strsplit_correct_iff (src split : StdString) (hmark : split.bytes ≠ [])
    (hfits : toInt split.length = split.length ∨ toInt split.length ≤ 0 ∨
      ¬ split.bytes <:+: src.bytes) :
    StrsplitCorrect src split ↔ LengthsSurvive src split := by
  by_cases hsurvives : toInt split.length = split.length ∨ ¬ split.bytes <:+: src.bytes
  · rw [strsplitCorrect_iff_lengthSurvives hmark hsurvives]
    refine ⟨fun hlength => Or.inl ⟨hsurvives, hlength⟩, ?_⟩
    rintro (⟨_, hlength⟩ | ⟨hback, n, hfirst, _⟩)
    · exact hlength
    · -- the separator occurs, so its length survives and is above zero
      have hpos : 0 < split.length := List.length_pos_iff.mpr hmark
      have hoccurs : split.bytes <:+: src.bytes := by
        by_contra hnot
        rw [first_eq_none_iff.mpr hnot] at hfirst
        cases hfirst
      have hsame := hsurvives.resolve_right (not_not.mpr hoccurs)
      omega
  · rw [not_or, not_not] at hsurvives
    have hback : toInt split.length ≤ 0 :=
      (hfits.resolve_left hsurvives.1).resolve_right (not_not.mpr hsurvives.2)
    rw [strsplitCorrect_iff_separatorSurvives hmark hback hsurvives.2]
    refine ⟨fun hseparator => Or.inr ⟨hback, hseparator⟩, ?_⟩
    rintro (⟨hfits', _⟩ | ⟨_, hseparator⟩)
    · exact absurd hfits' (not_or.mpr ⟨hsurvives.1, not_not.mpr hsurvives.2⟩)
    · exact hseparator

/-- A string with one separator, between two fields. -/
theorem strsplit_correct_short : StrsplitCorrect ⟨[97, 61, 98], by decide⟩ ⟨[61], by decide⟩ :=
  (strsplit_correct_iff _ _ (by decide) (Or.inl (by decide))).mpr
    (Or.inl ⟨Or.inl (by decide), Or.inl (by decide)⟩)

/-- A separator at the very end of a source whose length becomes negative makes
`strsplit` return an empty token. -/
theorem not_strsplitCorrect_of_trailing {front : List Byte} (hfree : 61 ∉ front)
    (hlt : (front ++ [61]).length < 2 ^ 63) (hlarge : 2 ^ 31 ≤ (front ++ [61]).length % 2 ^ 32) :
    ¬ StrsplitCorrect ⟨front ++ [61], hlt⟩ ⟨[61], by decide⟩ := by
  have hmark : ([61] : List Byte) ≠ [] := List.cons_ne_nil _ _
  have hempty : fields ([61] : List Byte) [] = [[]] := fields_of_none rfl
  have hfields : fields [61] (front ++ [61]) = [front, []] := by
    rw [fields_single hfree, hempty]
  have hend : (front ++ [61]).length < sourceEnd ⟨front ++ [61], hlt⟩ :=
    (lt_toSize_toInt_of_large hlarge).trans_lt' hlt
  rw [strsplitCorrect_iff_cutFields hmark (Or.inl (toSize_toInt_of_lt (by decide)))]
  simp only [hfields]
  rw [cutFields_of_long (List.cons_ne_nil _ _)]
  · simp
  · have hextent := extent_fields hmark (front ++ [61])
    rw [hfields] at hextent
    rw [Nat.zero_add]
    exact hextent ▸ hend

theorem strsplit_emits_empty_token :
    ¬ ∀ src split : StdString, split.bytes ≠ [] → StrsplitCorrect src split := by
  intro hall
  have hlen : (List.replicate (2 ^ 31 - 1) (97 : Byte) ++ [61]).length = 2 ^ 31 := by
    rw [List.length_append, List.length_replicate, List.length_singleton]
    rfl
  have hfree : (61 : Byte) ∉ List.replicate (2 ^ 31 - 1) 97 := by
    intro hmem
    exact absurd (List.eq_of_mem_replicate hmem) (by decide)
  have hlarge : 2 ^ 31 ≤ (List.replicate (2 ^ 31 - 1) (97 : Byte) ++ [61]).length % 2 ^ 32 := by
    rw [hlen]
    decide
  exact not_strsplitCorrect_of_trailing hfree (by rw [hlen]; decide) hlarge
    (hall _ _ (List.cons_ne_nil _ _))

end SelectNet
