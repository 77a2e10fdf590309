import SelectNet.CommonLib.RecvLoop
import SelectNet.CommonLib.SendLoop

/-!
# One direction of a connection

A sender, a reliable channel that holds what the kernel has taken and not yet
given out, and a receiver. The channel is given by how many bytes have been
received, so that no byte can be lost or doubled in it.
-/

namespace SelectNet

variable {ρ ρ' : Type}

/-- What the kernel has taken from an endpoint and not yet given to its peer. -/
def Endpoint.inFlight (sender : Endpoint ρ) (read : Nat) : List Byte := sender.accepted.drop read

/-- The frames given to the sender are on their way, in order, and the receiver
has taken the first of them. -/
structure Pipe (sender : Endpoint ρ) (receiver : Endpoint ρ') (read : Nat)
    (given taken : List (List Byte)) : Prop where
  sent : sender.accepted ++ sender.outgoing = given.flatten
  got : sender.accepted.take read = taken.flatten ++ receiver.retained
  read_le : read ≤ sender.accepted.length
  order : taken <+: given

namespace Pipe

variable {sender sender' : Endpoint ρ} {receiver receiver' : Endpoint ρ'} {read : Nat}
  {given taken frames : List (List Byte)} {chunk left : List Byte}

/-- The sender is given more frames, or moves bytes to the kernel. -/
theorem grow (hpipe : Pipe sender receiver read given taken)
    (hstream : sender'.accepted ++ sender'.outgoing =
      sender.accepted ++ sender.outgoing ++ frames.flatten)
    (hgrown : sender.kernel <+: sender'.kernel) :
    Pipe sender' receiver read (given ++ frames) taken := by
  obtain ⟨calls, hcalls⟩ := hgrown
  have haccepted : sender'.accepted = sender.accepted ++ calls.flatMap SendCall.taken := by
    rw [Endpoint.accepted, ← hcalls, List.flatMap_append]
    rfl
  refine ⟨?_, ?_, ?_, hpipe.order.trans (List.prefix_append _ _)⟩
  · rw [hstream, hpipe.sent, List.flatten_append]
  · rw [haccepted, List.take_append_of_le_length hpipe.read_le, hpipe.got]
  · rw [haccepted, List.length_append]
    exact Nat.le_trans hpipe.read_le (Nat.le_add_right _ _)

theorem keep (hpipe : Pipe sender receiver read given taken)
    (hstream : sender'.accepted ++ sender'.outgoing = sender.accepted ++ sender.outgoing)
    (hgrown : sender.kernel <+: sender'.kernel) : Pipe sender' receiver read given taken := by
  have hnothing : sender'.accepted ++ sender'.outgoing =
      sender.accepted ++ sender.outgoing ++ ([] : List (List Byte)).flatten := by
    rw [hstream, List.flatten_nil, List.append_nil]
  have hgrow := hpipe.grow hnothing hgrown
  rwa [List.append_nil] at hgrow

theorem of_retained (hpipe : Pipe sender receiver read given taken)
    (hretained : receiver'.retained = receiver.retained) :
    Pipe sender receiver' read given taken :=
  ⟨hpipe.sent, hretained ▸ hpipe.got, hpipe.read_le, hpipe.order⟩

/-- Whatever part of the channel the receiver is given, it finds whole frames
and the beginning of one. -/
theorem parse_chunk (hpipe : Pipe sender receiver read given taken)
    (hgiven : ∀ frame ∈ given, headRule.IsFrame frame) (hchunk : chunk <+: sender.inFlight read) :
    taken ++ (headRule.parse (receiver.retained ++ chunk)).frames <+: given ∧
      ∃ left, (headRule.parse (receiver.retained ++ chunk)).ending = .rest left := by
  obtain ⟨remaining, rfl⟩ := hpipe.order
  obtain ⟨more, hmore⟩ := hchunk
  have hflatten : receiver.retained ++ chunk ++ (more ++ sender.outgoing) = remaining.flatten := by
    have hsent := hpipe.sent
    rw [← List.take_append_drop read sender.accepted, hpipe.got, List.flatten_append] at hsent
    change taken.flatten ++ receiver.retained ++ sender.inFlight read ++
      sender.outgoing = _ at hsent
    rw [← hmore] at hsent
    simp only [List.append_assoc] at hsent ⊢
    exact List.append_cancel_left hsent
  obtain ⟨hframes, hending⟩ := Framing.parse_of_append_eq_flatten
    (fun frame hframe => hgiven frame (List.mem_append_right _ hframe)) hflatten
  obtain ⟨rest, hrest⟩ := hframes
  exact ⟨⟨rest, by rw [List.append_assoc, hrest]⟩, hending⟩

/-- The receiver takes the frames it finds and retains the rest. -/
theorem receive (hpipe : Pipe sender receiver read given taken)
    (hgiven : ∀ frame ∈ given, headRule.IsFrame frame) (hchunk : chunk <+: sender.inFlight read)
    (hending : (headRule.parse (receiver.retained ++ chunk)).ending = .rest left)
    (hretained : receiver'.retained = left) :
    Pipe sender receiver' (read + chunk.length) given
      (taken ++ (headRule.parse (receiver.retained ++ chunk)).frames) := by
  obtain ⟨more, hmore⟩ := hchunk
  have hlen := congrArg List.length hmore
  rw [Endpoint.inFlight, List.length_append, List.length_drop] at hlen
  have hle := hpipe.read_le
  refine ⟨hpipe.sent, ?_, by omega, (hpipe.parse_chunk hgiven ⟨more, hmore⟩).1⟩
  have htake : (sender.accepted.drop read).take chunk.length = chunk := by
    change (sender.inFlight read).take chunk.length = chunk
    rw [← hmore, List.take_left]
  obtain ⟨hflatten, _⟩ := Framing.parse_rest hending
  rw [List.take_add, htake, hpipe.got, List.flatten_append, hretained, List.append_assoc,
    List.append_assoc, hflatten]

/-- With nothing on the way, the receiver has taken all frames. -/
theorem eq_of_empty (hpipe : Pipe sender receiver read given taken)
    (hgiven : ∀ frame ∈ given, headRule.IsFrame frame) (hout : sender.outgoing = [])
    (hflight : sender.inFlight read = []) (hretained : receiver.retained = []) : taken = given := by
  have htaken : ∀ frame ∈ taken, headRule.IsFrame frame :=
    fun frame hframe => hgiven frame (hpipe.order.subset hframe)
  refine Framing.flatten_injective htaken hgiven ?_
  have hgot := hpipe.got
  have hsent := hpipe.sent
  rw [hretained, List.append_nil] at hgot
  rw [hout, List.append_nil, ← List.take_append_drop read sender.accepted] at hsent
  change _ ++ sender.inFlight read = _ at hsent
  rw [hflight, List.append_nil, hgot] at hsent
  exact hsent

end Pipe

end SelectNet
