import SelectNet.Foundation.Framing

/-!
# Frames on a reliable channel

A sender is given frames, a channel carries their cells, and a receiver cuts what
it is given into frames again, whatever the pieces. The channel is given by the
cells it has accepted and by how many of them have been read, so nothing can be
lost or doubled in it. It may stop anywhere: the sender need not hand over
everything it was given.
-/

universe u

/-- The cells that a channel has `accepted` are the first of the frames `given`, and
those `read` are the frames `taken` and what the receiver has `kept` behind them. -/
structure FrameChannel {α : Type u} (accepted kept : List α) (read : Nat)
    (given taken : List (List α)) : Prop where
  sent : accepted <+: given.flatten
  got : accepted.take read = taken.flatten ++ kept
  read_le : read ≤ accepted.length
  order : taken <+: given

namespace FrameChannel

variable {α : Type u} {rule : Framing α} {accepted accepted' kept left chunk : List α} {read : Nat}
  {given given' taken : List (List α)}

theorem nil : FrameChannel ([] : List α) [] 0 [] [] :=
  ⟨List.prefix_rfl, rfl, Nat.le_refl 0, List.prefix_rfl⟩

/-- More frames are given, or more cells accepted. -/
theorem grow (hchannel : FrameChannel accepted kept read given taken) (hgiven : given <+: given')
    (haccepted : accepted <+: accepted') (hsent : accepted' <+: given'.flatten) :
    FrameChannel accepted' kept read given' taken := by
  obtain ⟨more, rfl⟩ := haccepted
  refine ⟨hsent, ?_, ?_, hchannel.order.trans hgiven⟩
  · rw [List.take_append_of_le_length hchannel.read_le, hchannel.got]
  · rw [List.length_append]
    exact Nat.le_trans hchannel.read_le (Nat.le_add_right _ _)

/-- Whatever part of the channel the receiver is given, it finds whole frames and the
beginning of one. -/
theorem parse_chunk (hchannel : FrameChannel accepted kept read given taken)
    (hframes : ∀ frame ∈ given, rule.IsFrame frame) (hchunk : chunk <+: accepted.drop read) :
    taken ++ (rule.parse (kept ++ chunk)).frames <+: given ∧
      ∃ left, (rule.parse (kept ++ chunk)).ending = .rest left := by
  obtain ⟨remaining, rfl⟩ := hchannel.order
  obtain ⟨more, hmore⟩ := hchunk
  obtain ⟨unsent, hunsent⟩ := hchannel.sent
  have hflatten : kept ++ chunk ++ (more ++ unsent) = remaining.flatten := by
    rw [← List.take_append_drop read accepted, hchannel.got, List.flatten_append,
      ← hmore] at hunsent
    simp only [List.append_assoc] at hunsent ⊢
    exact List.append_cancel_left hunsent
  obtain ⟨⟨rest, hrest⟩, hending⟩ := Framing.parse_of_append_eq_flatten
    (fun frame hframe => hframes frame (List.mem_append_right _ hframe)) hflatten
  exact ⟨⟨rest, by rw [List.append_assoc, hrest]⟩, hending⟩

/-- The receiver takes the frames it finds and keeps the rest. -/
theorem receive (hchannel : FrameChannel accepted kept read given taken)
    (hframes : ∀ frame ∈ given, rule.IsFrame frame) (hchunk : chunk <+: accepted.drop read)
    (hending : (rule.parse (kept ++ chunk)).ending = .rest left) :
    FrameChannel accepted left (read + chunk.length) given
      (taken ++ (rule.parse (kept ++ chunk)).frames) := by
  have hfound := (hchannel.parse_chunk hframes hchunk).1
  obtain ⟨more, hmore⟩ := hchunk
  have hlen := congrArg List.length hmore
  rw [List.length_append, List.length_drop] at hlen
  have hle := hchannel.read_le
  refine ⟨hchannel.sent, ?_, by omega, hfound⟩
  have htake : (accepted.drop read).take chunk.length = chunk := by
    rw [← hmore, List.take_left]
  obtain ⟨hflatten, _⟩ := Framing.parse_rest hending
  rw [List.take_add, htake, hchannel.got, List.flatten_append, List.append_assoc,
    List.append_assoc, hflatten]

/-- With nothing left on the way the receiver has taken all frames. -/
theorem taken_eq (hchannel : FrameChannel accepted kept read given taken)
    (hframes : ∀ frame ∈ given, rule.IsFrame frame) (haccepted : accepted = given.flatten)
    (hread : accepted.drop read = []) (hkept : kept = []) : taken = given := by
  refine Framing.flatten_injective
    (fun frame hframe => hframes frame (hchannel.order.subset hframe)) hframes ?_
  have hgot := hchannel.got
  rw [hkept, List.append_nil] at hgot
  rw [← hgot, ← haccepted]
  conv_rhs => rw [← List.take_append_drop read accepted, hread, List.append_nil]

end FrameChannel
