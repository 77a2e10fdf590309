import SelectNet.CommonLib.ClientSocket

/-!
# Receive framing

Repeated `ProcessorRecv` against the reference parser `headRule.parse` on the
whole stream: however the stream is cut into results of `recv`, the handler is
called with the reference frames.
-/

namespace SelectNet.ClientSocket

variable {ω : Type} {handle : MsgHandle ω} {first s next : ClientSocket ω}
  {chunk : List Byte} {chunks : List (List Byte)}

/-- What `recv` may give to the next call: something, and no more than it asks for. -/
def Admissible (s : ClientSocket ω) (chunk : List Byte) : Prop :=
  chunk ≠ [] ∧ (chunk.length : Int) ≤ serverRecvBufferSize - s.retainSize

/-- Calls of `ProcessorRecv` that all returned 0, by the chunks `recv` gave them. -/
inductive RecvRun (handle : MsgHandle ω) (first : ClientSocket ω) :
    List (List Byte) → ClientSocket ω → Prop where
  | start : RecvRun handle first [] first
  | next {chunks : List (List Byte)} {s next : ClientSocket ω} {chunk : List Byte}
      (hrun : RecvRun handle first chunks s) (hchunk : Admissible s chunk)
      (hreturns : Returns handle (.data chunk) s 0 next) :
      RecvRun handle first (chunks ++ [chunk]) next

/-- The reference parser meets no length below `sizeof(MsgHead)`. -/
def NoShort (stream : List Byte) : Prop :=
  (headRule.parse stream).ending ≠ .stuck ∧
    ∀ frame ∈ (headRule.parse stream).frames, MsgHead.sizeof ≤ frame.length

theorem Admissible.received (hchunk : Admissible s chunk) (hopen : s.sock ≠ invalidSocket) :
    (RecvAnswer.data chunk).received s.sock (serverRecvBufferSize - s.retainSize) = chunk := by
  rw [RecvAnswer.received, if_neg hopen, List.take_of_length_le]
  have hlen := hchunk.2
  omega

/-- The state after calls that took a stream in, all returning 0. -/
structure Framed (first : ClientSocket ω) (stream : List Byte) (s : ClientSocket ω) : Prop where
  send : s.SendInv
  sock : s.sock = first.sock
  closesocket : s.closesocket = first.closesocket
  calls : s.ext.calls = first.ext.calls ++ (headRule.parse stream).frames.map padded
  left : ∃ rest, (headRule.parse stream).ending = .rest rest ∧
    Retained s.recvBuf s.retainSize rest

/-- One more chunk: the call goes as the reference parser does on the longer
stream. -/
theorem Framed.processorRecv (handle : MsgHandle ω) {stream : List Byte}
    (hframed : Framed first stream s)
    (hopen : first.sock ≠ invalidSocket) (hchunk : Admissible s chunk) :
    match (headRule.parse (stream ++ chunk)).ending with
    | .rest _ => ∃ next, Returns handle (.data chunk) s 0 next ∧
        Framed first (stream ++ chunk) next
    | .refused => ∃ next, Returns handle (.data chunk) s (-1) next ∧
        next.sock = invalidSocket ∧ next.closesocket = first.closesocket ++ [first.sock] ∧
        next.ext.calls =
          first.ext.calls ++ (headRule.parse (stream ++ chunk)).frames.map padded
    | .stuck => ∀ value next, ¬ Returns handle (.data chunk) s value next := by
  obtain ⟨hsend, hsock, hclose, hcalls, rest, hending, hretained⟩ := hframed
  have hreceived := hchunk.received (hsock ▸ hopen)
  obtain ⟨htsock, htclose, _, htsend, htcalls⟩ :=
    taken_spec handle hsend chunk (rest ++ chunk)
  -- what the calls so far have left is all that the parser needs of them
  have hparse : headRule.parse (stream ++ chunk) =
      (headRule.parse (rest ++ chunk)).after (headRule.parse stream).frames := by
    rw [Framing.parse_append, hending]
  have hall : (taken handle s chunk (rest ++ chunk)).ext.calls =
      first.ext.calls ++ (headRule.parse (stream ++ chunk)).frames.map padded := by
    rw [htcalls, hcalls, hparse, Framing.Parsed.frames_after, List.map_append, List.append_assoc]
  have hspec := processorRecv_spec handle hretained hreceived hchunk.1
  have hends : (headRule.parse (stream ++ chunk)).ending =
      (headRule.parse (rest ++ chunk)).ending := by rw [hparse, Framing.Parsed.ending_after]
  rw [hends]
  cases hcut : (headRule.parse (rest ++ chunk)).ending with
  | rest left =>
      simp only [hcut] at hspec
      obtain ⟨oRecv, hreturn, hkept⟩ := hspec
      exact ⟨_, hreturn, (Endpoint.SameSend.recvStop _ oRecv).inv htsend, htsock.trans hsock,
        htclose.trans hclose, hall, left, hends.trans hcut, hkept⟩
  | refused =>
      simp only [hcut] at hspec
      obtain ⟨hclosed, hext, _⟩ := close_spec htsend
      refine ⟨_, hspec, hclosed.sock, ?_, hext ▸ hall⟩
      rw [hclosed.closesocket, if_neg (htsock ▸ hsock ▸ hopen), htclose, htsock, hclose, hsock]
  | stuck =>
      simp only [hcut] at hspec
      exact hspec

/-- Calls that returned 0 have taken in exactly what the reference parser takes
in. -/
theorem RecvRun.framed (hrun : RecvRun handle first chunks s) (hopen : first.sock ≠ invalidSocket)
    (hsend : first.SendInv) (hzero : first.retainSize = 0) :
    Framed first chunks.flatten s := by
  induction hrun with
  | start =>
      have hnil : headRule.parse [] = ⟨[], .rest []⟩ := Framing.parse_short headRule.headerLen_pos
      refine ⟨hsend, rfl, rfl, ?_, [], ?_, hzero ▸ Retained.nothing _⟩
      · rw [List.flatten_nil, hnil, List.map_nil, List.append_nil]
      · rw [List.flatten_nil, hnil]
  | next hrun hchunk hreturns ih =>
      have hcall := ih.processorRecv handle hopen hchunk
      rw [List.flatten_append, List.flatten_singleton]
      split at hcall
      next =>
        obtain ⟨_, hreturn, hframed⟩ := hcall
        obtain ⟨_, rfl⟩ := hreturn.unique hreturns
        exact hframed
      next =>
        obtain ⟨_, hreturn, _⟩ := hcall
        cases (hreturn.unique hreturns).1
      next => exact absurd hreturns (hcall _ _)

/-- Framing does not depend on the cut. After any calls that returned 0, the
handler has seen the reference frames of what was received, the reference rest is
retained, and the next call goes as the reference parser does: it closes and
returns -1 exactly if the longer stream is refused. -/
theorem processorRecv_framing (handle : MsgHandle ω) {sock : Socket}
    (hsock : sock ≠ invalidSocket) (world : ω) (sendBuf recvBuf package : Memory Byte)
    (test : Option TestCounters)
    (hrun : RecvRun handle (new sock world sendBuf recvBuf package test) chunks s) :
    s.ext.calls = (headRule.parse chunks.flatten).frames.map padded ∧
      s.sock = sock ∧ s.closesocket = [] ∧
      (∃ rest, (headRule.parse chunks.flatten).ending = .rest rest ∧
        s.retainSize = rest.length ∧ s.recvBuf.read 0 rest.length = rest) ∧
      ∀ chunk, Admissible s chunk → NoShort (chunks.flatten ++ chunk) →
        ∃ value next, Returns handle (.data chunk) s value next ∧
          next.ext.calls = (headRule.parse (chunks.flatten ++ chunk)).frames.map padded ∧
          (value = -1 ∧ next.sock = invalidSocket ∧ next.closesocket = [sock] ∧
              (headRule.parse (chunks.flatten ++ chunk)).ending = .refused ∨
            value = 0 ∧ (headRule.parse (chunks.flatten ++ chunk)).ending ≠ .refused ∧
              RecvRun handle (new sock world sendBuf recvBuf package test)
                (chunks ++ [chunk]) next) := by
  have hframed := hrun.framed hsock (new_inv sock world sendBuf recvBuf package test).send rfl
  obtain ⟨rest, hending, hretained⟩ := hframed.left
  refine ⟨hframed.calls, hframed.sock, hframed.closesocket, ⟨rest, hending, hretained.size_eq, ?_⟩,
    ?_⟩
  · have hread := hretained.read
    rwa [hretained.size_eq, Int.toNat_natCast] at hread
  · intro chunk hchunk hshort
    have hcall := hframed.processorRecv handle hsock hchunk
    split at hcall
    next left hleft =>
      obtain ⟨next, hreturn, hnext⟩ := hcall
      have hgoes : (headRule.parse (chunks.flatten ++ chunk)).ending ≠ .refused := by
        rw [hleft]
        exact nofun
      exact ⟨0, next, hreturn, hnext.calls, Or.inr ⟨rfl, hgoes, hrun.next hchunk hreturn⟩⟩
    next hrefused =>
      obtain ⟨next, hreturn, hclosed, hlog, hcalls⟩ := hcall
      exact ⟨-1, next, hreturn, hcalls, Or.inl ⟨rfl, hclosed, hlog, hrefused⟩⟩
    -- a size of 0 is the one header that would keep the call from returning
    next hstuck => exact absurd hstuck hshort.1

theorem processorRecv_framing_first :
    ∃ value next,
      Returns (fun world _ => (world, [])) (.data [6, 0, 8, 0, 0, 0, 7])
        (new 5 () (fun _ => 0) (fun _ => 0) (fun _ => 0) none) value next ∧
      next.ext.calls = (headRule.parse [6, 0, 8, 0, 0, 0, 7]).frames.map padded := by
  obtain ⟨value, next, hreturns, hcalls, _⟩ :=
    (processorRecv_framing (fun world _ => (world, []))
      (show (5 : Socket) ≠ invalidSocket by decide)
      () (fun _ => 0) (fun _ => 0) (fun _ => 0) none .start).2.2.2.2
      [6, 0, 8, 0, 0, 0, 7] ⟨by decide, by decide⟩ (by unfold NoShort; decide)
  exact ⟨value, next, hreturns, hcalls⟩

end SelectNet.ClientSocket
