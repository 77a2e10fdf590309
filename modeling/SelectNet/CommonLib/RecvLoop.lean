import SelectNet.CommonLib.IOBuffer
import SelectNet.Foundation.Loop

/-!
# The receive loop

`ClientSocket`, `SelectClient` and `SelectClient_Thread` cut received bytes into
packages with the same loop and differ in what they do with a package. The loop
is given over the member `_oRecv`, which nothing else touches while it runs, and
a state `τ` that takes the packages. `recvPass_spec` says that it computes the
reference parser of the framing by `MsgHead::size`.
-/

namespace SelectNet

/-- What `recv` gives: an error or the end of the stream, or bytes. -/
inductive RecvAnswer where
  | failed
  | data (bytes : List Byte)

/-- `recv` never gives more than it is asked for, and nothing on a closed socket. -/
def RecvAnswer.received (answer : RecvAnswer) (sock : Socket) (asked : Int) : List Byte :=
  match answer with
  | .failed => []
  | .data bytes => if sock = invalidSocket then [] else bytes.take asked.toNat

/-- How `select` and then `recv` answer a client that looks for input. -/
inductive ReadAnswer where
  | selectFailed
  | notReadable
  | readable (answer : RecvAnswer)

/-- How a call returns, unless an `assert` fails or it reads outside an array. -/
inductive Outcome (σ : Type) where
  | aborted
  | returned (value : Int) (s : σ)

/-- What the head of a pass finds at the read position. -/
inductive NextPackage where
  | stop (oRecv : OBuffer (Memory Byte))
  | tooLong
  | found (msgLen : Nat) (oRecv : OBuffer (Memory Byte))

/-- The head of a pass. The comparison with `sizeof` is one of unsigned values,
so a negative size is not below it. -/
def nextPackage (oRecv : OBuffer (Memory Byte)) : Option NextPackage :=
  let canReadSize := oRecv.canRead
  if 0 ≤ canReadSize ∧ canReadSize < MsgHead.sizeof then some (.stop oRecv)
  else match oRecv.readUShort with
    | none => none
    | some (msgLen, oRecv) =>
        if packageMaxSize < msgLen then some .tooLong
        else
          let oRecv := oRecv.moveReadPos (-2)
          if canReadSize < msgLen then some (.stop oRecv)
          else some (.found msgLen oRecv)

/-- How the loop is left: by `break`, at a header that is too long, or because
the receiver of packages has had enough. -/
inductive RecvExit (τ : Type) where
  | stopped (oRecv : OBuffer (Memory Byte)) (t : τ)
  | tooLong (t : τ)
  | full (t : τ)

/-- The result of handing over one package: go on, or leave the loop. -/
inductive Handed (τ : Type) where
  | more (t : τ)
  | full (t : τ)

variable {τ : Type}

/-- One pass of `while (true)`. `none` is a failed `assert`. -/
def recvPass (onPackage : τ → List Byte → Handed τ) :
    OBuffer (Memory Byte) × τ → Pass (OBuffer (Memory Byte) × τ) (Option (RecvExit τ))
  | (oRecv, t) =>
      match nextPackage oRecv with
      | none => .leave none
      | some (.stop oRecv) => .leave (some (.stopped oRecv t))
      | some .tooLong => .leave (some (.tooLong t))
      | some (.found msgLen oRecv) =>
          match oRecv.readBytes msgLen with
          | none => .leave none
          | some (bytes, oRecv) =>
              match onPackage t bytes with
              | .more t => .again (oRecv, t)
              | .full t => .leave (some (.full t))

/-- Hand over frames until one fills the receiver. -/
def handAll (onPackage : τ → List Byte → Handed τ) : τ → List (List Byte) → Handed τ
  | t, [] => .more t
  | t, frame :: frames =>
      match onPackage t frame with
      | .more t => handAll onPackage t frames
      | .full t => .full t

/-- A receiver that is never full takes all frames. -/
theorem handAll_more (take : τ → List Byte → τ) (t : τ) (frames : List (List Byte)) :
    handAll (fun t frame => .more (take t frame)) t frames = .more (frames.foldl take t) := by
  induction frames generalizing t with
  | nil => rfl
  | cons frame frames ih => exact ih (take t frame)

/-- `memset(_package, 0, sizeof(_package))`, and the copy of a package over it. -/
def fillPackage (package : Memory Byte) (bytes : List Byte) : Memory Byte :=
  (package.write 0 (List.replicate packageMaxSize 0)).write 0 bytes

/-- A package followed by zeros up to `PACKAGE_MAX_SIZE`. -/
def padded (bytes : List Byte) : List Byte :=
  bytes ++ List.replicate (packageMaxSize - bytes.length) 0

/-- Nothing of an earlier package shows behind a shorter one. -/
theorem read_fillPackage (package : Memory Byte) {bytes : List Byte}
    (hlen : bytes.length ≤ packageMaxSize) :
    (fillPackage package bytes).read 0 packageMaxSize = padded bytes := by
  have hzeros : bytes.length ≤ (List.replicate packageMaxSize (0 : Byte)).length := by
    rwa [List.length_replicate]
  have hover := Memory.read_write_over package 0 hzeros
  rwa [List.length_replicate, List.drop_replicate] at hover

/-- What `_package` held before makes no difference. -/
theorem read_fillPackage_congr (package other : Memory Byte) (bytes : List Byte) :
    (fillPackage package bytes).read 0 packageMaxSize =
      (fillPackage other bytes).read 0 packageMaxSize := by
  apply Memory.read_congr
  intro address _ haddress
  have hzero : ∀ memory : Memory Byte,
      memory.write 0 (List.replicate packageMaxSize 0) address = 0 := by
    intro memory
    have hindex : address < (List.replicate packageMaxSize (0 : Byte)).length := by
      simpa using haddress
    simpa using Memory.write_add memory 0 hindex
  simp only [fillPackage, Memory.write, Nat.zero_le, if_true, Nat.sub_zero] at hzero ⊢
  rw [hzero package, hzero other]

/-! ## What a pass does -/

section Passes

variable {onPackage : τ → List Byte → Handed τ} {oRecv : OBuffer (Memory Byte)} {t : τ}

theorem readUShort_spec (hlen : 2 ≤ oRecv.unread.length) :
    oRecv.readUShort = some (ushort oRecv.unread, { oRecv with pos := oRecv.pos + 2 }) := by
  have hushort : ushort (oRecv.memory.read oRecv.pos.toNat 2) = ushort oRecv.unread := by
    rw [OBuffer.length_unread] at hlen
    have htake : ushort (oRecv.unread.take 2) = ushort oRecv.unread := ushort_take (Nat.le_refl 2)
    rw [← htake, OBuffer.unread, Memory.take_read, Nat.min_eq_left hlen]
  rw [OBuffer.length_unread] at hlen
  rw [OBuffer.readUShort, if_neg (by omega), hushort]

theorem readBytes_spec {len : Nat} (hvalid : oRecv.Valid) (hlen : len ≤ oRecv.unread.length) :
    oRecv.readBytes len =
      some (oRecv.unread.take len, { oRecv with pos := oRecv.pos + len }) := by
  have hnonneg := hvalid.canRead_nonneg
  rw [OBuffer.length_unread] at hlen
  rw [OBuffer.readBytes, if_neg (by omega), OBuffer.unread, Memory.take_read,
    Nat.min_eq_left hlen, Int.toNat_natCast]

theorem nextPackage_of_short (hvalid : oRecv.Valid) (hshort : oRecv.unread.length < 6) :
    nextPackage oRecv = some (.stop oRecv) := by
  have hnonneg := hvalid.canRead_nonneg
  rw [OBuffer.length_unread] at hshort
  have hsize : (MsgHead.sizeof : Int) = 6 := rfl
  rw [nextPackage]
  exact if_pos ⟨hnonneg, by omega⟩

/-- Behind a whole header the length decides, and the peek leaves no trace. -/
theorem nextPackage_of_head (hhead : 6 ≤ oRecv.unread.length) :
    nextPackage oRecv =
      if packageMaxSize < ushort oRecv.unread then some .tooLong
      else if oRecv.unread.length < ushort oRecv.unread then some (.stop oRecv)
      else some (.found (ushort oRecv.unread) oRecv) := by
  have hread : oRecv.readUShort = _ := readUShort_spec (by omega)
  rw [OBuffer.length_unread] at hhead ⊢
  have hsize : (MsgHead.sizeof : Int) = 6 := rfl
  have hback : OBuffer.moveReadPos { oRecv with pos := oRecv.pos + 2 } (-2) = oRecv := by
    simp only [OBuffer.moveReadPos]
    rw [show oRecv.pos + 2 + -2 = oRecv.pos by omega]
  unfold nextPackage
  rw [if_neg (by omega), hread]
  simp only [hback]
  congr 1
  split
  · rw [if_pos (by omega)]
  · rw [if_neg (by omega)]

theorem recvPass_of_unfinished (hvalid : oRecv.Valid)
    (hpart : headRule.Unfinished oRecv.unread) :
    recvPass onPackage (oRecv, t) = .leave (some (.stopped oRecv t)) := by
  have hnext : nextPackage oRecv = some (.stop oRecv) := by
    by_cases hshort : oRecv.unread.length < 6
    · exact nextPackage_of_short hvalid hshort
    · obtain ⟨count, hsize, hlen⟩ := hpart.resolve_left hshort
      rw [nextPackage_of_head (by omega)]
      by_cases hle : ushort oRecv.unread ≤ packageMaxSize
      · rw [headRule_size_of_le hle, Option.some.injEq] at hsize
        rw [if_neg (Nat.not_lt.mpr hle), if_pos (hsize ▸ hlen)]
      · rw [headRule_size_of_gt (Nat.lt_of_not_le hle)] at hsize
        cases hsize
  simp only [recvPass, hnext]

theorem recvPass_of_refused (hhead : 6 ≤ oRecv.unread.length)
    (hsize : headRule.size oRecv.unread = none) :
    recvPass onPackage (oRecv, t) = .leave (some (.tooLong t)) := by
  have hlarge : packageMaxSize < ushort oRecv.unread := by
    by_contra hle
    rw [headRule_size_of_le (Nat.le_of_not_lt hle)] at hsize
    cases hsize
  have hnext := nextPackage_of_head hhead
  rw [if_pos hlarge] at hnext
  simp only [recvPass, hnext]

/-- A whole package is handed over and the read position moves behind it. -/
theorem recvPass_of_frame (onPackage : τ → List Byte → Handed τ) (t : τ) {count : Nat}
    (hvalid : oRecv.Valid) (hhead : 6 ≤ oRecv.unread.length)
    (hsize : headRule.size oRecv.unread = some count) (hlen : count ≤ oRecv.unread.length) :
    recvPass onPackage (oRecv, t) =
      match onPackage t (oRecv.unread.take count) with
      | .more t => .again ({ oRecv with pos := oRecv.pos + count }, t)
      | .full t => .leave (some (.full t)) := by
  have hle : ushort oRecv.unread ≤ packageMaxSize := by
    by_contra hgt
    rw [headRule_size_of_gt (Nat.lt_of_not_le hgt)] at hsize
    cases hsize
  rw [headRule_size_of_le hle, Option.some.injEq] at hsize
  subst hsize
  have hnext := nextPackage_of_head hhead
  rw [if_neg (by omega), if_neg (by omega)] at hnext
  simp only [recvPass, hnext, readBytes_spec hvalid hlen]

/-- All a pass can do. -/
theorem recvPass_cases (onPackage : τ → List Byte → Handed τ) (t : τ) (hvalid : oRecv.Valid) :
    headRule.Unfinished oRecv.unread ∧
      recvPass onPackage (oRecv, t) = .leave (some (.stopped oRecv t)) ∨
    6 ≤ oRecv.unread.length ∧ headRule.size oRecv.unread = none ∧
      recvPass onPackage (oRecv, t) = .leave (some (.tooLong t)) ∨
    ∃ count, 6 ≤ oRecv.unread.length ∧ headRule.size oRecv.unread = some count ∧
      count ≤ oRecv.unread.length ∧
      recvPass onPackage (oRecv, t) =
        match onPackage t (oRecv.unread.take count) with
        | .more t => .again ({ oRecv with pos := oRecv.pos + count }, t)
        | .full t => .leave (some (.full t)) := by
  rcases headRule.head_cases oRecv.unread with
    hpart | ⟨hhead, hsize⟩ | ⟨count, hhead, hsize, hlen⟩
  · exact Or.inl ⟨hpart, recvPass_of_unfinished hvalid hpart⟩
  · exact Or.inr (Or.inl ⟨hhead, hsize, recvPass_of_refused hhead hsize⟩)
  · exact Or.inr (Or.inr ⟨count, hhead, hsize, hlen,
      recvPass_of_frame onPackage t hvalid hhead hsize hlen⟩)

/-- A pass that goes round again has handed over a package and taken its length
off. -/
theorem recvPass_again {next : OBuffer (Memory Byte)} {t' : τ} (hvalid : oRecv.Valid)
    (hagain : recvPass onPackage (oRecv, t) = .again (next, t')) :
    ∃ count, headRule.size oRecv.unread = some count ∧ 6 ≤ oRecv.unread.length ∧
      count ≤ oRecv.unread.length ∧ onPackage t (oRecv.unread.take count) = .more t' ∧
      next.Valid ∧ next.buf = oRecv.buf ∧ next.unread = oRecv.unread.drop count := by
  rcases recvPass_cases onPackage t hvalid with
    ⟨_, hpass⟩ | ⟨_, _, hpass⟩ | ⟨count, hhead, hsize, hlen, hpass⟩
  · cases hpass.symm.trans hagain
  · cases hpass.symm.trans hagain
  · rw [hagain] at hpass
    split at hpass
    next t'' htake =>
      cases hpass
      have hunread := OBuffer.unread_advance hvalid (Int.natCast_nonneg count)
      rw [Int.toNat_natCast] at hunread
      exact ⟨count, hsize, hhead, hlen, htake, hvalid.advance hlen, rfl, hunread⟩
    next => cases hpass

/-- At the head of every pass: a valid position over the array that the loop
started with, and what the receiver keeps. -/
structure Within (array : Option (Memory Byte)) (holds : τ → Prop)
    (state : OBuffer (Memory Byte) × τ) : Prop where
  valid : state.1.Valid
  buf : state.1.buf = array
  kept : holds state.2

/-- How the loop can be left, and what then holds. -/
def LeavesWith (array : Option (Memory Byte)) (holds filled : τ → Prop) :
    Option (RecvExit τ) → Prop
  | none => False
  | some (.stopped oRecv t) =>
      holds t ∧ oRecv.Valid ∧ oRecv.buf = array ∧ headRule.Unfinished oRecv.unread
  | some (.tooLong t) => holds t
  | some (.full t) => filled t

theorem Within.again {array : Option (Memory Byte)} {holds : τ → Prop}
    (hmore : ∀ t bytes t', holds t → onPackage t bytes = .more t' → holds t')
    {state next : OBuffer (Memory Byte) × τ} (hwithin : Within array holds state)
    (hbody : recvPass onPackage state = .again next) : Within array holds next := by
  obtain ⟨count, _, _, _, htake, hnext, hsame, _⟩ := recvPass_again hwithin.valid hbody
  exact ⟨hnext, hsame.trans hwithin.buf, hmore _ _ _ hwithin.kept htake⟩

/-- What the receiver of packages keeps holds at the head of every pass. -/
theorem recvPass_visits {holds : τ → Prop}
    (hmore : ∀ t bytes t', holds t → onPackage t bytes = .more t' → holds t')
    (hvalid : oRecv.Valid) (hstart : holds t) {state : OBuffer (Memory Byte) × τ}
    (hvisits : Loop.Visits (recvPass onPackage) (oRecv, t) state) :
    Within oRecv.buf holds state :=
  Loop.Visits.invariant (fun _ _ hwithin hbody => hwithin.again hmore hbody)
    ⟨hvalid, rfl, hstart⟩ hvisits

/-- The invariant rule: what the receiver of packages keeps holds when the loop
is left, which is never by a failed assertion. -/
theorem recvPass_invariant {holds filled : τ → Prop}
    (hmore : ∀ t bytes t', holds t → onPackage t bytes = .more t' → holds t')
    (hfull : ∀ t bytes t', holds t → onPackage t bytes = .full t' → filled t')
    (hvalid : oRecv.Valid) (hstart : holds t) {exit : Option (RecvExit τ)}
    (hyields : Loop.Yields (recvPass onPackage) (oRecv, t) exit) :
    LeavesWith oRecv.buf holds filled exit := by
  have hagain : ∀ state next, Within oRecv.buf holds state →
      recvPass onPackage state = .again next → Within oRecv.buf holds next :=
    fun _ _ hwithin hbody => hwithin.again hmore hbody
  have hfirst : Within oRecv.buf holds (oRecv, t) := ⟨hvalid, rfl, hstart⟩
  have hleave : ∀ state exit, Within oRecv.buf holds state →
      recvPass onPackage state = .leave exit → LeavesWith oRecv.buf holds filled exit := by
    rintro ⟨o, t⟩ exit ⟨ho, hbuf, ht⟩ hbody
    rcases recvPass_cases onPackage t ho with
      ⟨hpart, hpass⟩ | ⟨_, _, hpass⟩ | ⟨count, _, _, _, hpass⟩
    · cases hpass.symm.trans hbody
      exact ⟨ht, ho, hbuf, hpart⟩
    · cases hpass.symm.trans hbody
      exact ht
    · rw [hbody] at hpass
      split at hpass
      next => cases hpass
      next t' htake =>
        cases hpass
        exact hfull _ _ _ ht htake
  exact Loop.Yields.induction hagain hleave hfirst hyields

end Passes

/-! ## What the loop does -/

section Run

variable {onPackage : τ → List Byte → Handed τ} {oRecv : OBuffer (Memory Byte)} {t t' : τ}

/-- If the receiver takes all frames, the loop comes to where the reference
parser stops, having handed over its frames. -/
theorem visits_ending (hvalid : oRecv.Valid)
    (hhanded : handAll onPackage t (headRule.parse oRecv.unread).frames = .more t') :
    ∃ next, Loop.Visits (recvPass onPackage) (oRecv, t) (next, t') ∧ next.Valid ∧
      next.buf = oRecv.buf ∧
      headRule.parse next.unread = ⟨[], (headRule.parse oRecv.unread).ending⟩ := by
  induction hstream : oRecv.unread using Framing.induction headRule generalizing oRecv t with
  | short stream hshort =>
      subst hstream
      rw [Framing.parse_short hshort] at hhanded
      cases hhanded
      exact ⟨oRecv, .refl, hvalid, rfl, by rw [Framing.parse_short hshort]⟩
  | refused stream hhead hsize =>
      subst hstream
      rw [Framing.parse_refused hhead hsize] at hhanded
      cases hhanded
      exact ⟨oRecv, .refl, hvalid, rfl, by rw [Framing.parse_refused hhead hsize]⟩
  | stuck stream hhead hsize =>
      subst hstream
      rw [Framing.parse_stuck hhead hsize] at hhanded
      cases hhanded
      exact ⟨oRecv, .refl, hvalid, rfl, by rw [Framing.parse_stuck hhead hsize]⟩
  | incomplete stream count hhead hsize hlen =>
      subst hstream
      rw [Framing.parse_incomplete hsize hlen hhead] at hhanded
      cases hhanded
      exact ⟨oRecv, .refl, hvalid, rfl, by rw [Framing.parse_incomplete hsize hlen hhead]⟩
  | frame stream count hhead hsize hpos hlen ih =>
      subst hstream
      -- one pass takes one frame, so the passes follow the frames of the stream
      have hpass := recvPass_of_frame onPackage t hvalid hhead hsize hlen
      rw [Framing.parse_frame hhead hsize hpos hlen] at hhanded ⊢
      have hunread := OBuffer.unread_advance hvalid (Int.natCast_nonneg count)
      rw [Int.toNat_natCast] at hunread
      simp only [Framing.Parsed.frames_after, List.singleton_append, handAll] at hhanded
      split at hhanded
      next t'' htake =>
        rw [htake] at hpass
        obtain ⟨next, hvisits, hnext, hbuf, hparse⟩ :=
          ih (hvalid.advance hlen) (hunread ▸ hhanded) hunread
        exact ⟨next, hvisits.again hpass, hnext, hbuf, hparse⟩
      next => cases hhanded

/-- If a frame fills the receiver, the loop is left there. -/
theorem yields_of_full (hvalid : oRecv.Valid)
    (hhanded : handAll onPackage t (headRule.parse oRecv.unread).frames = .full t') :
    Loop.Yields (recvPass onPackage) (oRecv, t) (some (.full t')) := by
  induction hstream : oRecv.unread using Framing.induction headRule generalizing oRecv t with
  | short stream hshort =>
      rw [hstream, Framing.parse_short hshort] at hhanded
      cases hhanded
  | refused stream hhead hsize =>
      rw [hstream, Framing.parse_refused hhead hsize] at hhanded
      cases hhanded
  | stuck stream hhead hsize =>
      rw [hstream, Framing.parse_stuck hhead hsize] at hhanded
      cases hhanded
  | incomplete stream count hhead hsize hlen =>
      rw [hstream, Framing.parse_incomplete hsize hlen hhead] at hhanded
      cases hhanded
  | frame stream count hhead hsize hpos hlen ih =>
      subst hstream
      have hpass := recvPass_of_frame onPackage t hvalid hhead hsize hlen
      have hunread := OBuffer.unread_advance hvalid (Int.natCast_nonneg count)
      rw [Int.toNat_natCast] at hunread
      rw [Framing.parse_frame hhead hsize hpos hlen] at hhanded
      simp only [Framing.Parsed.frames_after, List.singleton_append, handAll] at hhanded
      split at hhanded
      next t'' htake =>
        rw [htake] at hpass
        exact (ih (hvalid.advance hlen) (hunread ▸ hhanded) hunread).of_again hpass
      next t'' hfull =>
        cases hhanded
        rw [hfull] at hpass
        exact Loop.Yields.of_leave hpass

/-- The reference parser waits for more: the loop is left with `break`, over
exactly the reference rest. -/
theorem yields_of_rest {rest : List Byte} (hvalid : oRecv.Valid)
    (hhanded : handAll onPackage t (headRule.parse oRecv.unread).frames = .more t')
    (hending : (headRule.parse oRecv.unread).ending = .rest rest) :
    ∃ next, Loop.Yields (recvPass onPackage) (oRecv, t) (some (.stopped next t')) ∧
      next.Valid ∧ next.buf = oRecv.buf ∧ next.unread = rest := by
  obtain ⟨next, hvisits, hnext, hbuf, hparse⟩ := visits_ending hvalid hhanded
  rw [hending] at hparse
  obtain ⟨hrest, hpart⟩ := Framing.of_parse_nil hparse
  exact ⟨next, hvisits.yields (Loop.Yields.of_leave (recvPass_of_unfinished hnext hpart)), hnext,
    hbuf, hrest⟩

/-- The reference parser refuses a header: so does the loop. -/
theorem yields_of_refused (hvalid : oRecv.Valid)
    (hhanded : handAll onPackage t (headRule.parse oRecv.unread).frames = .more t')
    (hending : (headRule.parse oRecv.unread).ending = .refused) :
    Loop.Yields (recvPass onPackage) (oRecv, t) (some (.tooLong t')) := by
  obtain ⟨next, hvisits, hnext, hbuf, hparse⟩ := visits_ending hvalid hhanded
  rw [hending] at hparse
  obtain ⟨hhead, hsize⟩ := Framing.of_parse_nil hparse
  exact hvisits.yields (Loop.Yields.of_leave (recvPass_of_refused hhead hsize))

/-- At a header of size 0 a pass takes nothing off and hands over an empty package. -/
theorem recvPass_of_stuck (onPackage : τ → List Byte → Handed τ) (t : τ) (hvalid : oRecv.Valid)
    (hparse : headRule.parse oRecv.unread = ⟨[], .stuck⟩) :
    recvPass onPackage (oRecv, t) =
      match onPackage t [] with
      | .more t => .again (oRecv, t)
      | .full t => .leave (some (.full t)) := by
  obtain ⟨hhead, hsize⟩ := Framing.of_parse_nil hparse
  have hpass := recvPass_of_frame onPackage t hvalid hhead hsize
    (Nat.zero_le _)
  simpa using hpass

/-- A receiver that is never full is handed empty packages for ever. -/
theorem not_ends_of_stuck (hmore : ∀ t, ∃ t', onPackage t [] = .more t') (hvalid : oRecv.Valid)
    (hparse : headRule.parse oRecv.unread = ⟨[], .stuck⟩) :
    ¬ Loop.Ends (recvPass onPackage) (oRecv, t) := by
  have htrap : ∀ state : OBuffer (Memory Byte) × τ, state.1 = oRecv →
      ∃ next, recvPass onPackage state = .again next ∧ next.1 = oRecv := by
    rintro ⟨o, t⟩ rfl
    obtain ⟨t', htake⟩ := hmore t
    exact ⟨(o, t'), by rw [recvPass_of_stuck _ _ hvalid hparse, htake], rfl⟩
  exact Loop.not_ends_of_trap htrap rfl

/-- What a receiver keeps between two calls: a rest that is not a whole frame, at
the front of its array. -/
structure Retained (recvBuf : Memory Byte) (retainSize : Int) (rest : List Byte) : Prop where
  nonneg : 0 ≤ retainSize
  read : recvBuf.read 0 retainSize.toNat = rest
  part : headRule.Unfinished rest

theorem Retained.nothing (recvBuf : Memory Byte) : Retained recvBuf 0 [] :=
  ⟨Int.le_refl 0, rfl, Or.inl headRule.headerLen_pos⟩

theorem Retained.size_eq {recvBuf : Memory Byte} {retainSize : Int} {rest : List Byte}
    (hretained : Retained recvBuf retainSize rest) : retainSize = rest.length := by
  have hnonneg := hretained.nonneg
  rw [← hretained.read, Memory.length_read]
  omega

/-- There is always room for more, so `recv` is never asked for nothing. -/
theorem Retained.size_lt {recvBuf : Memory Byte} {retainSize : Int} {rest : List Byte}
    (hretained : Retained recvBuf retainSize rest) : retainSize < packageMaxSize := by
  have hlen := length_lt_of_unfinished hretained.part
  rw [hretained.size_eq]
  omega

/-- Bytes received behind a rest are read behind it. -/
theorem Retained.behind {recvBuf : Memory Byte} {retainSize : Int} {rest : List Byte}
    (hretained : Retained recvBuf retainSize rest) (bytes : List Byte) :
    (OBuffer.setBuffer (some (recvBuf.write retainSize.toNat bytes))
        (bytes.length + retainSize)).Valid ∧
      (OBuffer.setBuffer (some (recvBuf.write retainSize.toNat bytes))
        (bytes.length + retainSize)).unread = rest ++ bytes := by
  have hnonneg := hretained.nonneg
  have hlen : (bytes.length + retainSize).toNat = retainSize.toNat + bytes.length := by omega
  refine ⟨OBuffer.setBuffer_valid _ (by omega), ?_⟩
  have hread := Memory.read_write_append recvBuf 0 retainSize.toNat bytes
  rw [Nat.zero_add, hretained.read] at hread
  rw [OBuffer.unread_setBuffer, hlen]
  exact hread

/-- Moving what is left to the front makes it what is retained. -/
theorem Retained.of_moveDataToFront (hvalid : oRecv.Valid) (hbuf : oRecv.buf ≠ none)
    (hpart : headRule.Unfinished oRecv.unread) :
    Retained oRecv.moveDataToFront.memory oRecv.moveDataToFront.canRead oRecv.unread := by
  obtain ⟨hcan, hread⟩ := OBuffer.moveDataToFront_spec hvalid hbuf
  rw [hcan]
  exact ⟨hvalid.canRead_nonneg, hread, hpart⟩

/-- How the loop goes over what is retained and what is received, by what the
reference parser makes of them. -/
theorem recvPass_spec {recvBuf : Memory Byte} {retainSize : Int} {rest : List Byte}
    (onPackage : τ → List Byte → Handed τ) (hretained : Retained recvBuf retainSize rest)
    (bytes : List Byte) (t : τ) :
    let oRecv : OBuffer (Memory Byte) :=
      .setBuffer (some (recvBuf.write retainSize.toNat bytes)) (bytes.length + retainSize)
    let parsed := headRule.parse (rest ++ bytes)
    match handAll onPackage t parsed.frames with
    | .full t' => Loop.Yields (recvPass onPackage) (oRecv, t) (some (.full t'))
    | .more t' =>
        match parsed.ending with
        | .rest left => ∃ next : OBuffer (Memory Byte),
            Loop.Yields (recvPass onPackage) (oRecv, t) (some (.stopped next t')) ∧
            Retained next.moveDataToFront.memory next.moveDataToFront.canRead left
        | .refused => Loop.Yields (recvPass onPackage) (oRecv, t) (some (.tooLong t'))
        | .stuck => ∃ next : OBuffer (Memory Byte),
            Loop.Visits (recvPass onPackage) (oRecv, t) (next, t') ∧
            next.Valid ∧ headRule.parse next.unread = ⟨[], .stuck⟩ := by
  obtain ⟨hvalid, hunread⟩ := hretained.behind bytes
  simp only [← hunread]
  split
  next t' hhanded => exact yields_of_full hvalid hhanded
  next t' hhanded =>
    split
    next left hending =>
      obtain ⟨next, hyields, hnext, hbuf, hleft⟩ := yields_of_rest hvalid hhanded hending
      have hpart : headRule.Unfinished next.unread := hleft ▸ (Framing.parse_rest hending).2
      have hkept := Retained.of_moveDataToFront hnext (by rw [hbuf]; exact Option.some_ne_none _)
        hpart
      exact ⟨next, hyields, hleft ▸ hkept⟩
    next hending => exact yields_of_refused hvalid hhanded hending
    next hending =>
      obtain ⟨next, hvisits, hnext, _, hparse⟩ := visits_ending hvalid hhanded
      exact ⟨next, hvisits, hnext, hending ▸ hparse⟩

/-! ## Two receivers of the same bytes -/

section Alike

variable {υ : Type} {same : τ → υ → Prop} {filled : τ → υ → Prop}
  {first : τ → List Byte → Handed τ} {second : υ → List Byte → Handed υ}

/-- Two receivers take a package alike. -/
def Handed.Alike (same filled : τ → υ → Prop) : Handed τ → Handed υ → Prop
  | .more t, .more u => same t u
  | .full t, .full u => filled t u
  | _, _ => False

/-- At the head of a pass: the same bytes to read. -/
structure SameBytes (same : τ → υ → Prop) (state : OBuffer (Memory Byte) × τ)
    (other : OBuffer (Memory Byte) × υ) : Prop where
  valid : state.1.Valid ∧ other.1.Valid
  buf : state.1.buf ≠ none ∧ other.1.buf ≠ none
  unread : state.1.unread = other.1.unread
  same : same state.2 other.2

/-- Two ways of leaving the loop that agree: with the same rest, or the same
failure. -/
def SameExit (same filled : τ → υ → Prop) :
    Option (RecvExit τ) → Option (RecvExit υ) → Prop
  | none, none => True
  | some (.stopped oRecv t), some (.stopped other u) =>
      SameBytes same (oRecv, t) (other, u) ∧ headRule.Unfinished oRecv.unread
  | some (.tooLong t), some (.tooLong u) => same t u
  | some (.full t), some (.full u) => filled t u
  | _, _ => False

theorem SameExit.of_stopped {oRecv : OBuffer (Memory Byte)} {t : τ} {exit : Option (RecvExit υ)}
    (hsame : SameExit same filled (some (.stopped oRecv t)) exit) :
    ∃ other u, exit = some (.stopped other u) ∧ SameBytes same (oRecv, t) (other, u) := by
  match exit, hsame with
  | some (.stopped other u), ⟨hbytes, _⟩ => exact ⟨other, u, rfl, hbytes⟩

theorem SameExit.of_full {t : τ} {exit : Option (RecvExit υ)}
    (hsame : SameExit same filled (some (.full t)) exit) :
    ∃ u, exit = some (.full u) ∧ filled t u := by
  match exit, hsame with
  | some (.full u), hfilled => exact ⟨u, rfl, hfilled⟩

/-- Receivers that take packages alike go through the same bytes alike. -/
theorem recvPass_alike
    (htake : ∀ t u bytes, same t u → Handed.Alike same filled (first t bytes) (second u bytes))
    (state : OBuffer (Memory Byte) × τ) (other : OBuffer (Memory Byte) × υ)
    (hsame : SameBytes same state other) :
    Loop.Alike (SameBytes same) (SameExit same filled)
      (recvPass first state) (recvPass second other) := by
  obtain ⟨o, t⟩ := state
  obtain ⟨o', u⟩ := other
  obtain ⟨⟨ho, ho'⟩, hbuf, hunread, ht⟩ := hsame
  simp only at ho ho' hbuf hunread ht
  rcases recvPass_cases first t ho with
    ⟨hpart, hpass⟩ | ⟨hhead, hsize, hpass⟩ | ⟨count, hhead, hsize, hlen, hpass⟩
  · rw [hpass, recvPass_of_unfinished ho' (hunread ▸ hpart)]
    exact ⟨⟨⟨ho, ho'⟩, hbuf, hunread, ht⟩, hpart⟩
  · rw [hpass, recvPass_of_refused (hunread ▸ hhead) (hunread ▸ hsize)]
    exact ht
  · -- the frame is the same on both sides, so both hand it over or both stop
    rw [hpass, recvPass_of_frame second u ho' (hunread ▸ hhead) (hunread ▸ hsize)
      (hunread ▸ hlen), ← hunread]
    have htaken := htake t u (o.unread.take count) ht
    have hleft := OBuffer.unread_advance ho (Int.natCast_nonneg count)
    have hright := OBuffer.unread_advance ho' (Int.natCast_nonneg count)
    cases hfirst : first t (o.unread.take count) with
    | more t' =>
        rw [hfirst] at htaken
        cases hsecond : second u (o.unread.take count) with
        | more u' =>
            rw [hsecond] at htaken
            exact ⟨⟨ho.advance hlen, ho'.advance (hunread ▸ hlen)⟩, hbuf,
              hleft.trans (hunread ▸ hright.symm), htaken⟩
        | full u' => rw [hsecond] at htaken; exact htaken.elim
    | full t' =>
        rw [hfirst] at htaken
        cases hsecond : second u (o.unread.take count) with
        | more u' => rw [hsecond] at htaken; exact htaken.elim
        | full u' => rw [hsecond] at htaken; exact htaken

end Alike

end Run

end SelectNet
