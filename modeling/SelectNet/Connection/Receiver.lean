import SelectNet.CommonLib.RecvLoop
import SelectNet.Foundation.Machine

/-!
# Receivers side by side

Two objects are compared by what they deliver for the same inputs. They deliver
alike if their calls keep them alike; a small message tells them apart when one
of them has bytes of an earlier connection in front of it.
-/

namespace SelectNet

/-! ## A frame that tells the two apart -/

/-- A message of the smallest size. -/
def probe : List Byte := [6, 0, 0, 0, 0, 0]

theorem parse_probe : headRule.parse probe = ⟨[probe], .rest []⟩ := by decide

/-- A package shows the size it was cut off by, even one shorter than a header. -/
theorem ushort_padded_take (stream : List Byte) (hlen : ushort stream ≤ stream.length)
    (hmax : ushort stream ≤ packageMaxSize) :
    ushort (padded (stream.take (ushort stream))) = ushort stream := by
  obtain ⟨size, hsize⟩ : ∃ size, ushort stream = size := ⟨_, rfl⟩
  rw [hsize] at hlen ⊢
  match size, stream with
  | 0, _ => rfl
  | 1, [] => simp [ushort] at hsize
  | 1, [_] => simp [ushort] at hsize
  | 1, low :: high :: _ =>
      have hlow := low.toNat_lt
      simp only [ushort] at hsize
      have hone : low.toNat = 1 := by omega
      change low.toNat + 256 * (0 : Byte).toNat = 1
      rw [hone]
      rfl
  | size + 2, stream =>
      have htake : 2 ≤ (stream.take (size + 2)).length := by
        rw [List.length_take]
        omega
      rw [padded, ushort_append _ htake, ushort_take (by omega), hsize]

/-- Behind an old rest, the first package is never the probe. -/
theorem padded_take_ne_probe {rest : List Byte} {count : Nat} (hrest : rest ≠ [])
    (hpart : headRule.Unfinished rest) (hsize : headRule.size (rest ++ probe) = some count)
    (hlen : count ≤ (rest ++ probe).length) :
    padded ((rest ++ probe).take count) ≠ padded probe := by
  intro hsame
  have hborder : Framing.Borderless probe := by
    unfold Framing.Borderless
    decide
  refine Framing.take_ne_of_unfinished (headRule_isFrame_iff.mpr (by decide)) hborder hrest hpart
    hsize hlen ?_
  have hcount := headRule_size_eq hsize
  have hmax := headRule_size_le hsize
  subst hcount
  have hsix : ushort (rest ++ probe) = probe.length := by
    rw [← ushort_padded_take _ hlen hmax, hsame]
    rfl
  rw [hsix] at hsame hlen ⊢
  exact (List.append_inj hsame (by rw [List.length_take, Nat.min_eq_left hlen])).1

/-- The probe always fits behind what is retained. -/
theorem received_probe {recvBuf : Memory Byte} {retainSize : Int} {rest : List Byte} {sock : Socket}
    (hretained : Retained recvBuf retainSize rest) (hopen : sock ≠ invalidSocket) :
    (RecvAnswer.data probe).received sock (clientRecvBufferSize - retainSize) = probe := by
  have hroom := hretained.size_lt
  have hmax : (packageMaxSize : Int) = 2048 := rfl
  have hbuf : (clientRecvBufferSize : Int) = 20480 := rfl
  have hlen : probe.length = 6 := rfl
  simp only [RecvAnswer.received, if_neg hopen]
  exact List.take_of_length_le (by omega)

section First

variable {τ : Type} {onPackage : τ → List Byte → Handed τ} {oRecv next : OBuffer (Memory Byte)}
  {t t' : τ}

/-- Whoever has been handed anything was handed the first package first. -/
theorem first_of_visits (hvalid : oRecv.Valid)
    (hvisits : Loop.Visits (recvPass onPackage) (oRecv, t) (next, t')) :
    t' = t ∨ ∃ count o t'', headRule.size oRecv.unread = some count ∧
      count ≤ oRecv.unread.length ∧ onPackage t (oRecv.unread.take count) = .more t'' ∧
      o.Valid ∧ Loop.Visits (recvPass onPackage) (o, t'') (next, t') := by
  rcases Relation.ReflTransGen.cases_head hvisits with hsame | ⟨⟨o, t''⟩, hbody, hrest⟩
  · cases hsame
    exact Or.inl rfl
  · obtain ⟨count, hsize, _, hlen, htake, ho, _⟩ := recvPass_again hvalid hbody
    exact Or.inr ⟨count, o, t'', hsize, hlen, htake, ho, hrest⟩

/-- Stopping leaves the receiver as the last pass found it. -/
theorem eq_of_stopped {state : OBuffer (Memory Byte) × τ}
    (hpass : recvPass onPackage state = .leave (some (.stopped oRecv t))) : state.2 = t := by
  obtain ⟨o, last⟩ := state
  simp only [recvPass] at hpass
  split at hpass
  · cases hpass
  · cases hpass
    rfl
  · cases hpass
  · split at hpass
    · cases hpass
    · split at hpass <;> cases hpass

end First

/-! ## Objects that receive -/

/-- How an object takes inputs: whole calls, moments inside a call, and what has
been delivered. -/
structure Receiver (σ ι : Type) where
  call : σ → ι → σ → Prop
  within : σ → ι → σ → Prop
  delivered : σ → List (List Byte)

namespace Receiver

variable {σ ι : Type} (receiver : Receiver σ ι)

/-- At some moment of taking these inputs, exactly these packages have been
delivered. -/
def Delivers (s : σ) (inputs : List ι) (frames : List (List Byte)) : Prop :=
  (∃ t, Machine.Runs receiver.call s inputs t ∧
    receiver.delivered t = receiver.delivered s ++ frames) ∨
  ∃ before input t u, inputs = before ++ [input] ∧ Machine.Runs receiver.call s before t ∧
    receiver.within t input u ∧ receiver.delivered u = receiver.delivered s ++ frames

/-- The same has been delivered since two states. -/
def SameSince (s f t u : σ) : Prop :=
  ∃ frames, receiver.delivered t = receiver.delivered s ++ frames ∧
    receiver.delivered u = receiver.delivered f ++ frames

variable {receiver} {s f t u : σ} {inputs : List ι} {frames : List (List Byte)}

theorem SameSince.symm (hsame : receiver.SameSince s f t u) : receiver.SameSince f s u t := by
  obtain ⟨frames, ht, hu⟩ := hsame
  exact ⟨frames, hu, ht⟩

theorem SameSince.delivered (hsame : receiver.SameSince s f t u)
    (ht : receiver.delivered t = receiver.delivered s ++ frames) :
    receiver.delivered u = receiver.delivered f ++ frames := by
  obtain ⟨since, hsince, hu⟩ := hsame
  rw [hu, List.append_cancel_left (hsince.symm.trans ht)]

/-- Objects whose calls keep them alike deliver alike. -/
theorem Delivers.simulate {alike paired : σ → σ → Prop}
    (hcall : ∀ t u input next, alike t u → receiver.call t input next →
      ∃ next', receiver.call u input next' ∧ alike next next')
    (hwithin : ∀ t u input v, alike t u → receiver.within t input v →
      ∃ w, receiver.within u input w ∧ paired v w)
    (hpaired : ∀ t u, alike t u → paired t u)
    (hsame : ∀ t u, paired t u → receiver.SameSince s f t u) (hstart : alike s f)
    (hdelivers : receiver.Delivers s inputs frames) : receiver.Delivers f inputs frames := by
  rcases hdelivers with ⟨t, hruns, ht⟩ | ⟨before, input, t, v, hinputs, hruns, hmoment, hv⟩
  · obtain ⟨u, hruns', halike⟩ := Machine.Runs.simulate hcall hstart hruns
    exact Or.inl ⟨u, hruns', (hsame t u (hpaired t u halike)).delivered ht⟩
  · obtain ⟨u, hruns', halike⟩ := Machine.Runs.simulate hcall hstart hruns
    obtain ⟨w, hmoment', hvw⟩ := hwithin t u input v halike hmoment
    exact Or.inr ⟨before, input, u, w, hinputs, hruns', hmoment', (hsame v w hvw).delivered hv⟩

/-- What is delivered while the last input is taken. -/
theorem Delivers.of_snoc (before : List ι) {input : ι}
    (hdelivers : receiver.Delivers s (before ++ [input]) frames) :
    ∃ t, Machine.Runs receiver.call s before t ∧ ∃ u,
      (receiver.call t input u ∨ receiver.within t input u) ∧
        receiver.delivered u = receiver.delivered s ++ frames := by
  rcases hdelivers with ⟨u, hruns, hu⟩ | ⟨earlier, last, t, u, hinputs, hruns, hmoment, hu⟩
  · obtain ⟨t, hbefore, hcall⟩ := Machine.Runs.snoc_iff.mp hruns
    exact ⟨t, hbefore, u, Or.inl hcall, hu⟩
  · obtain ⟨rfl, hlast⟩ := List.append_inj' hinputs rfl
    cases hlast
    exact ⟨t, hruns, u, Or.inr hmoment, hu⟩

end Receiver

end SelectNet
