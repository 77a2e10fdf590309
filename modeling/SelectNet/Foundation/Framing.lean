import Mathlib.Data.List.Basic

/-!
# Length-prefixed framing

A stream is cut into frames by a size that each frame announces in its first
cells. The reference parser works on a whole stream; `Framing.parse_append`
says how its answer grows with the stream, which is what a receiver that sees
the stream in pieces relies on.
-/

universe u

/-- A framing rule: how many cells a header takes, and the size it announces.
The size is `none` when the header is refused, and depends on the header only. -/
structure Framing (α : Type u) where
  headerLen : Nat
  headerLen_pos : 0 < headerLen
  size : List α → Option Nat
  size_append : ∀ stream more, headerLen ≤ stream.length → size (stream ++ more) = size stream

namespace Framing

variable {α : Type u}

/-- How the reference parser stops: waiting for more cells behind a rest that is
not a whole frame, at a refused header, or at a header that announces nothing. -/
inductive Ending (α : Type u) where
  | rest (cells : List α)
  | refused
  | stuck
  deriving DecidableEq

/-- The frames of a stream in order, and how the parser stopped. -/
structure Parsed (α : Type u) where
  frames : List (List α)
  ending : Ending α
  deriving DecidableEq

/-- Put frames in front of what has been parsed. -/
def Parsed.after (parsed : Parsed α) (frames : List (List α)) : Parsed α :=
  ⟨frames ++ parsed.frames, parsed.ending⟩

@[simp] theorem Parsed.after_after (parsed : Parsed α) (first second : List (List α)) :
    (parsed.after second).after first = parsed.after (first ++ second) := by
  simp [Parsed.after]

@[simp] theorem Parsed.frames_after (parsed : Parsed α) (frames : List (List α)) :
    (parsed.after frames).frames = frames ++ parsed.frames := rfl

@[simp] theorem Parsed.ending_after (parsed : Parsed α) (frames : List (List α)) :
    (parsed.after frames).ending = parsed.ending := rfl

variable (rule : Framing α)

/-- The reference parser with a bound on the number of headers it looks at. -/
def parseWithin : Nat → List α → Parsed α
  | 0, stream => ⟨[], .rest stream⟩
  | fuel + 1, stream =>
      if stream.length < rule.headerLen then ⟨[], .rest stream⟩
      else match rule.size stream with
        | none => ⟨[], .refused⟩
        | some 0 => ⟨[], .stuck⟩
        | some (count + 1) =>
            if stream.length < count + 1 then ⟨[], .rest stream⟩
            else (parseWithin fuel (stream.drop (count + 1))).after [stream.take (count + 1)]

/-- The reference parser. Every frame takes a cell, so the bound is never met. -/
def parse (stream : List α) : Parsed α := rule.parseWithin (stream.length + 1) stream

/-- A whole frame: it holds its header and is as long as the header says. -/
def IsFrame (frame : List α) : Prop :=
  rule.headerLen ≤ frame.length ∧ rule.size frame = some frame.length

variable {rule} {stream : List α}

theorem parseWithin_eq {fuel more : Nat} (hfuel : stream.length < fuel)
    (hmore : stream.length < more) :
    rule.parseWithin fuel stream = rule.parseWithin more stream := by
  induction fuel generalizing stream more with
  | zero => omega
  | succ fuel ih =>
      obtain ⟨more, rfl⟩ : ∃ n, more = n + 1 := ⟨more - 1, by omega⟩
      unfold parseWithin
      split
      · rfl
      · split
        · rfl
        · rfl
        next count _ =>
          split
          · rfl
          next hlen =>
            have hdrop : (stream.drop (count + 1)).length < more := by
              simp only [List.length_drop]
              omega
            rw [ih (by simp only [List.length_drop]; omega) hdrop]

theorem parse_short (hshort : stream.length < rule.headerLen) :
    rule.parse stream = ⟨[], .rest stream⟩ := by
  rw [parse, parseWithin, if_pos hshort]

theorem parse_refused (hhead : rule.headerLen ≤ stream.length)
    (hsize : rule.size stream = none) : rule.parse stream = ⟨[], .refused⟩ := by
  rw [parse, parseWithin, if_neg (by omega), hsize]

theorem parse_stuck (hhead : rule.headerLen ≤ stream.length)
    (hsize : rule.size stream = some 0) : rule.parse stream = ⟨[], .stuck⟩ := by
  rw [parse, parseWithin, if_neg (by omega), hsize]

theorem parse_incomplete {count : Nat} (hsize : rule.size stream = some count)
    (hlen : stream.length < count) (hhead : rule.headerLen ≤ stream.length) :
    rule.parse stream = ⟨[], .rest stream⟩ := by
  obtain ⟨count, rfl⟩ : ∃ n, count = n + 1 := ⟨count - 1, by omega⟩
  rw [parse, parseWithin, if_neg (by omega), hsize]
  exact if_pos hlen

theorem parse_frame {count : Nat} (hhead : rule.headerLen ≤ stream.length)
    (hsize : rule.size stream = some count) (hpos : 0 < count) (hlen : count ≤ stream.length) :
    rule.parse stream = (rule.parse (stream.drop count)).after [stream.take count] := by
  obtain ⟨count, rfl⟩ : ∃ n, count = n + 1 := ⟨count - 1, by omega⟩
  conv_lhs => rw [parse, parseWithin, if_neg (by omega), hsize]
  simp only
  have hfuel : (stream.drop (count + 1)).length < stream.length := by
    simp only [List.length_drop]
    omega
  rw [if_neg (by omega), parse, parseWithin_eq hfuel (Nat.lt_succ_self _)]

/-- Induction along the headers the reference parser looks at. -/
theorem induction (rule : Framing α) {motive : List α → Prop}
    (short : ∀ stream, stream.length < rule.headerLen → motive stream)
    (refused : ∀ stream, rule.headerLen ≤ stream.length → rule.size stream = none →
      motive stream)
    (stuck : ∀ stream, rule.headerLen ≤ stream.length → rule.size stream = some 0 →
      motive stream)
    (incomplete : ∀ stream count, rule.headerLen ≤ stream.length →
      rule.size stream = some count → stream.length < count → motive stream)
    (frame : ∀ stream count, rule.headerLen ≤ stream.length → rule.size stream = some count →
      0 < count → count ≤ stream.length → motive (stream.drop count) → motive stream)
    (stream : List α) : motive stream := by
  induction hlen : stream.length using Nat.strongRecOn generalizing stream with
  | ind len ih =>
      subst hlen
      by_cases hhead : stream.length < rule.headerLen
      · exact short stream hhead
      · have hle : rule.headerLen ≤ stream.length := by omega
        cases hsize : rule.size stream with
        | none => exact refused stream hle hsize
        | some count =>
            rcases Nat.eq_zero_or_pos count with rfl | hpos
            · exact stuck stream hle hsize
            · by_cases hlen : stream.length < count
              · exact incomplete stream count hle hsize hlen
              · -- only a frame goes on, and behind it the stream is shorter
                have hdrop : (stream.drop count).length < stream.length := by
                  simp only [List.length_drop]
                  omega
                exact frame stream count hle hsize hpos (by omega) (ih _ hdrop _ rfl)

/-- A rest is not a whole frame: it lacks its header, or cells behind it. -/
def Unfinished (rule : Framing α) (rest : List α) : Prop :=
  rest.length < rule.headerLen ∨ ∃ count, rule.size rest = some count ∧ rest.length < count

/-- What a stream can begin with. -/
theorem head_cases (rule : Framing α) (stream : List α) :
    rule.Unfinished stream ∨
      rule.headerLen ≤ stream.length ∧ rule.size stream = none ∨
      ∃ count, rule.headerLen ≤ stream.length ∧ rule.size stream = some count ∧
        count ≤ stream.length := by
  by_cases hshort : stream.length < rule.headerLen
  · exact Or.inl (Or.inl hshort)
  · rw [Nat.not_lt] at hshort
    cases hsize : rule.size stream with
    | none => exact Or.inr (Or.inl ⟨hshort, rfl⟩)
    | some count =>
        by_cases hlen : stream.length < count
        · exact Or.inl (Or.inr ⟨count, hsize, hlen⟩)
        · exact Or.inr (Or.inr ⟨count, hshort, rfl, Nat.le_of_not_lt hlen⟩)

theorem parse_of_unfinished {rest : List α} (hpart : rule.Unfinished rest) :
    rule.parse rest = ⟨[], .rest rest⟩ := by
  by_cases hshort : rest.length < rule.headerLen
  · exact parse_short hshort
  · obtain ⟨count, hsize, hlen⟩ := hpart.resolve_left hshort
    exact parse_incomplete hsize hlen (by omega)

/-- Where nothing can be cut off, the ending says why. -/
theorem of_parse_nil {ending : Ending α} (hparse : rule.parse stream = ⟨[], ending⟩) :
    match ending with
    | .rest rest => stream = rest ∧ rule.Unfinished stream
    | .refused => rule.headerLen ≤ stream.length ∧ rule.size stream = none
    | .stuck => rule.headerLen ≤ stream.length ∧ rule.size stream = some 0 := by
  cases stream using induction rule with
  | short stream hshort =>
      rw [parse_short hshort] at hparse
      cases hparse
      exact ⟨rfl, Or.inl hshort⟩
  | refused stream hhead hsize =>
      rw [parse_refused hhead hsize] at hparse
      cases hparse
      exact ⟨hhead, hsize⟩
  | stuck stream hhead hsize =>
      rw [parse_stuck hhead hsize] at hparse
      cases hparse
      exact ⟨hhead, hsize⟩
  | incomplete stream count hhead hsize hlen =>
      rw [parse_incomplete hsize hlen hhead] at hparse
      cases hparse
      exact ⟨rfl, Or.inr ⟨count, hsize, hlen⟩⟩
  | frame stream count hhead hsize hpos hlen _ =>
      rw [parse_frame hhead hsize hpos hlen] at hparse
      cases congrArg Parsed.frames hparse

/-- The frames and the rest are the stream, and the rest is not a whole frame. -/
theorem parse_rest {rest : List α} (hending : (rule.parse stream).ending = .rest rest) :
    (rule.parse stream).frames.flatten ++ rest = stream ∧ rule.Unfinished rest := by
  induction stream using induction rule with
  | short stream hshort =>
      rw [parse_short hshort] at hending ⊢
      obtain rfl : stream = rest := by simpa using hending
      exact ⟨rfl, Or.inl hshort⟩
  | refused stream hhead hsize =>
      rw [parse_refused hhead hsize] at hending
      cases hending
  | stuck stream hhead hsize =>
      rw [parse_stuck hhead hsize] at hending
      cases hending
  | incomplete stream count hhead hsize hlen =>
      rw [parse_incomplete hsize hlen hhead] at hending ⊢
      obtain rfl : stream = rest := by simpa using hending
      exact ⟨rfl, Or.inr ⟨count, hsize, hlen⟩⟩
  | frame stream count hhead hsize hpos hlen ih =>
      rw [parse_frame hhead hsize hpos hlen] at hending ⊢
      obtain ⟨hflat, hpart⟩ := ih hending
      refine ⟨?_, hpart⟩
      simp only [Parsed.frames_after, List.flatten_append, List.flatten_cons, List.flatten_nil,
        List.append_nil, List.append_assoc, hflat, List.take_append_drop]

/-- What a longer stream parses to: the frames before, then what the rest and
the new cells parse to. A refused or stuck header stays where it is. -/
theorem parse_append (stream more : List α) :
    rule.parse (stream ++ more) =
      match (rule.parse stream).ending with
      | .rest rest => (rule.parse (rest ++ more)).after (rule.parse stream).frames
      | _ => rule.parse stream := by
  induction stream using induction rule with
  | short stream hshort => rw [parse_short hshort]; rfl
  | refused stream hhead hsize =>
      rw [parse_refused hhead hsize]
      exact parse_refused (by simp only [List.length_append]; omega)
        ((rule.size_append stream more hhead).trans hsize)
  | stuck stream hhead hsize =>
      rw [parse_stuck hhead hsize]
      exact parse_stuck (by simp only [List.length_append]; omega)
        ((rule.size_append stream more hhead).trans hsize)
  | incomplete stream count hhead hsize hlen => rw [parse_incomplete hsize hlen hhead]; rfl
  -- a frame of the front is one of the whole, and what is behind it only grows
  | frame stream count hhead hsize hpos hlen ih =>
      have hwhole := parse_frame (by simp only [List.length_append]; omega)
        ((rule.size_append stream more hhead).trans hsize) hpos
        (by simp only [List.length_append]; omega)
      rw [hwhole, List.drop_append_of_le_length hlen, List.take_append_of_le_length hlen, ih,
        parse_frame hhead hsize hpos hlen]
      cases hending : (rule.parse (stream.drop count)).ending <;>
        simp [hending]

theorem parse_append_of_rest {rest more : List α}
    (hending : (rule.parse stream).ending = .rest rest) :
    rule.parse (stream ++ more) =
      (rule.parse (rest ++ more)).after (rule.parse stream).frames := by
  rw [parse_append, hending]

/-- Frames are never taken back when the stream grows. -/
theorem frames_prefix_append (stream more : List α) :
    (rule.parse stream).frames <+: (rule.parse (stream ++ more)).frames := by
  rw [parse_append]
  cases (rule.parse stream).ending with
  | rest rest => exact List.prefix_append _ _
  | refused => exact List.prefix_rfl
  | stuck => exact List.prefix_rfl

/-- What holds of everything a header cuts off holds of every frame. -/
theorem forall_frames {motive : List α → Prop}
    (cut : ∀ cells count, rule.size cells = some count → 0 < count → count ≤ cells.length →
      motive (cells.take count)) (stream : List α) :
    ∀ frame ∈ (rule.parse stream).frames, motive frame := by
  induction stream using induction rule with
  | short stream hshort => simp [parse_short hshort]
  | refused stream hhead hsize => simp [parse_refused hhead hsize]
  | stuck stream hhead hsize => simp [parse_stuck hhead hsize]
  | incomplete stream count hhead hsize hlen => simp [parse_incomplete hsize hlen hhead]
  | frame stream count hhead hsize hpos hlen ih =>
      rw [parse_frame hhead hsize hpos hlen, Parsed.frames_after, List.singleton_append,
        List.forall_mem_cons]
      exact ⟨cut stream count hsize hpos hlen, ih⟩

theorem pos_of_mem_frames {frame : List α} (hmem : frame ∈ (rule.parse stream).frames) :
    0 < frame.length := by
  revert frame
  apply forall_frames
  intro cells count _ hpos hlen
  rw [List.length_take_of_le hlen]
  exact hpos

/-- Frames of at least so many cells are no more than the stream has room for. -/
theorem length_mul_le {least : Nat}
    (hleast : ∀ frame ∈ (rule.parse stream).frames, least ≤ frame.length) :
    (rule.parse stream).frames.length * least ≤ stream.length := by
  induction stream using induction rule with
  | short stream hshort => simp [parse_short hshort]
  | refused stream hhead hsize => simp [parse_refused hhead hsize]
  | stuck stream hhead hsize => simp [parse_stuck hhead hsize]
  | incomplete stream count hhead hsize hlen => simp [parse_incomplete hsize hlen hhead]
  | frame stream count hhead hsize hpos hlen ih =>
      rw [parse_frame hhead hsize hpos hlen, Parsed.frames_after, List.singleton_append] at hleast ⊢
      obtain ⟨hfirst, hrest⟩ := List.forall_mem_cons.mp hleast
      have hleft := ih hrest
      rw [List.length_take_of_le hlen] at hfirst
      rw [List.length_drop] at hleft
      rw [List.length_cons, Nat.succ_mul]
      omega

/-- Every frame was cut off by a header that announced its length. -/
theorem take_of_mem_frames {frame : List α} (hmem : frame ∈ (rule.parse stream).frames) :
    ∃ cells, rule.size cells = some frame.length ∧ frame.length ≤ cells.length ∧
      frame = cells.take frame.length := by
  revert frame
  apply forall_frames
  intro cells count hsize _ hlen
  rw [List.length_take_of_le hlen]
  exact ⟨cells, hsize, hlen, rfl⟩

theorem size_of_mem_frames {frame : List α} (hmem : frame ∈ (rule.parse stream).frames) :
    ∃ cells, rule.size cells = some frame.length := by
  obtain ⟨cells, hsize, _⟩ := take_of_mem_frames hmem
  exact ⟨cells, hsize⟩

theorem IsFrame.pos {frame : List α} (hframe : rule.IsFrame frame) : 0 < frame.length :=
  Nat.lt_of_lt_of_le rule.headerLen_pos hframe.1

/-- Whole frames in front of a stream come out as they went in. -/
theorem parse_flatten_append {frames : List (List α)} (more : List α)
    (hframes : ∀ frame ∈ frames, rule.IsFrame frame) :
    rule.parse (frames.flatten ++ more) = (rule.parse more).after frames := by
  induction frames with
  | nil => rfl
  | cons frame frames ih =>
      have hframe := hframes frame List.mem_cons_self
      have hrest := ih fun other hother => hframes other (List.mem_cons_of_mem _ hother)
      have hhead : rule.headerLen ≤ (frame ++ (frames.flatten ++ more)).length := by
        have hlong := hframe.1
        simp only [List.length_append]
        omega
      rw [List.flatten_cons, List.append_assoc,
        parse_frame hhead ((rule.size_append frame _ hframe.1).trans hframe.2) hframe.pos (by simp),
        List.drop_left, List.take_left, hrest, Parsed.after_after, List.singleton_append]

theorem parse_flatten {frames : List (List α)}
    (hframes : ∀ frame ∈ frames, rule.IsFrame frame) :
    rule.parse frames.flatten = ⟨frames, .rest []⟩ := by
  have hparse := parse_flatten_append [] hframes
  have hnil : rule.parse [] = ⟨[], .rest []⟩ := parse_short rule.headerLen_pos
  rw [List.append_nil, hnil] at hparse
  simpa [Parsed.after] using hparse

/-- A stream of these pieces is cut into them: at each there is a header, which
announces as many cells as the piece has. -/
def Cuts (rule : Framing α) : List (List α) → Prop
  | [] => True
  | piece :: pieces => rule.headerLen ≤ (piece :: pieces).flatten.length ∧
      rule.size (piece :: pieces).flatten = some piece.length ∧ 0 < piece.length ∧
      rule.Cuts pieces

/-- The parser gives the pieces back exactly if the stream is cut into them. -/
theorem parse_flatten_iff (pieces : List (List α)) :
    ((rule.parse pieces.flatten).frames = pieces ∧
      ∃ rest, (rule.parse pieces.flatten).ending = .rest rest) ↔ rule.Cuts pieces := by
  induction pieces with
  | nil =>
      have hnil : rule.parse [] = ⟨[], .rest []⟩ := parse_short rule.headerLen_pos
      rw [List.flatten_nil, hnil]
      exact iff_of_true ⟨rfl, [], rfl⟩ trivial
  | cons piece pieces ih =>
      constructor
      · rintro ⟨hframes, rest, hending⟩
        rcases head_cases rule (piece :: pieces).flatten with
          hpart | ⟨hhead, hsize⟩ | ⟨count, hhead, hsize, hlen⟩
        · rw [parse_of_unfinished hpart] at hframes
          cases hframes
        · rw [parse_refused hhead hsize] at hframes
          cases hframes
        · rcases Nat.eq_zero_or_pos count with rfl | hpos
          · rw [parse_stuck hhead hsize] at hframes
            cases hframes
          · -- the first frame is the first piece, so its size is the piece's length
            have hparse := parse_frame hhead hsize hpos hlen
            have htake := congrArg List.length (List.cons.inj (hparse ▸ hframes)).1
            rw [List.length_take_of_le hlen] at htake
            subst htake
            rw [List.flatten_cons, List.drop_left] at hparse
            rw [List.flatten_cons, hparse] at hframes hending
            exact ⟨hhead, hsize, hpos, ih.mp ⟨(List.cons.inj hframes).2, rest, hending⟩⟩
      · rintro ⟨hhead, hsize, hpos, hcuts⟩
        obtain ⟨hframes, rest, hending⟩ := ih.mpr hcuts
        rw [parse_frame hhead hsize hpos (by simp), List.flatten_cons, List.drop_left,
          List.take_left, Parsed.frames_after, Parsed.ending_after, hframes]
        exact ⟨rfl, rest, hending⟩

/-- Whole frames with the same cells are the same frames. -/
theorem flatten_injective {first second : List (List α)}
    (hfirst : ∀ frame ∈ first, rule.IsFrame frame)
    (hsecond : ∀ frame ∈ second, rule.IsFrame frame)
    (hflatten : first.flatten = second.flatten) : first = second := by
  have hparse := parse_flatten hfirst
  rw [hflatten, parse_flatten hsecond] at hparse
  exact (congrArg Parsed.frames hparse).symm

/-- The beginning of a sequence of whole frames parses to some of them and a rest. -/
theorem parse_of_append_eq_flatten {frames : List (List α)} {more : List α}
    (hframes : ∀ frame ∈ frames, rule.IsFrame frame)
    (hflatten : stream ++ more = frames.flatten) :
    (rule.parse stream).frames <+: frames ∧ ∃ rest, (rule.parse stream).ending = .rest rest := by
  have hwhole : rule.parse (stream ++ more) = ⟨frames, .rest []⟩ :=
    hflatten ▸ parse_flatten hframes
  have hgrown := @frames_prefix_append _ rule stream more
  rw [hwhole] at hgrown
  refine ⟨hgrown, ?_⟩
  rw [parse_append] at hwhole
  cases hending : (rule.parse stream).ending with
  | rest rest => exact ⟨rest, rfl⟩
  | refused =>
      rw [hending] at hwhole
      cases hending.symm.trans (congrArg Parsed.ending hwhole)
  | stuck =>
      rw [hending] at hwhole
      cases hending.symm.trans (congrArg Parsed.ending hwhole)

/-- A frame without a border. -/
def Borderless (frame : List α) : Prop :=
  ∀ offset < frame.length, 0 < offset → frame.drop offset ≠ frame.take (frame.length - offset)

/-- Behind a rest, the first frame of the stream is never one without a border:
it would overlap itself. -/
theorem take_ne_of_unfinished {rest frame : List α} {count : Nat} (hframe : rule.IsFrame frame)
    (hborder : Borderless frame) (hrest : rest ≠ []) (hpart : rule.Unfinished rest)
    (hsize : rule.size (rest ++ frame) = some count) (hlen : count ≤ (rest ++ frame).length) :
    (rest ++ frame).take count ≠ frame := by
  intro htake
  have hcount : count = frame.length := by
    rw [← congrArg List.length htake, List.length_take, Nat.min_eq_left hlen]
  have hhead := hframe.1
  have hshort : rest.length < frame.length := by
    rcases hpart with hshort | ⟨announced, hannounced, hlonger⟩
    · omega
    · by_contra hlong
      have hsame := rule.size_append rest frame (by omega)
      rw [hannounced, hsize, Option.some.injEq] at hsame
      omega
  refine hborder rest.length hshort (List.length_pos_iff.mpr hrest) ?_
  have hdrop := congrArg (List.drop rest.length) htake
  rw [hcount, List.take_append, List.take_of_length_le (Nat.le_of_lt hshort),
    List.drop_left] at hdrop
  exact hdrop.symm

end Framing
