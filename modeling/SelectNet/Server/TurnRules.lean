import SelectNet.Server.Sweep

/-!
# Rules for turns and sweeps

What a turn does to a client is said by the frames it hands over: what every one of
them keeps, and the calls of `send` behind them, holds at the end of the turn. What
every turn keeps, holds at the end of a sweep.
-/

namespace SelectNet

namespace ClientSocket

variable {ω : Type} {handle : MsgHandle ω} {s next : ClientSocket ω} {answer : RecvAnswer}
  {left : List Byte}

/-- What `recv` gives a client in a call of `ProcessorRecv`. -/
def chunk (answer : RecvAnswer) (s : ClientSocket ω) : List Byte :=
  answer.received s.sock (serverRecvBufferSize - s.retainSize)

/-- The frames that `ProcessorRecv` finds. -/
def found (answer : RecvAnswer) (s : ClientSocket ω) : List (List Byte) :=
  (headRule.parse (s.retained ++ chunk answer s)).frames

/-- A call of `ProcessorRecv` that meets no refused header hands over the frames it
finds and keeps the rest, or finds nothing at all and closes. -/
theorem Returns.frames {value : Int} (hreturns : Returns handle answer s value next)
    (hinv : Inv s)
    (hending : (headRule.parse (s.retained ++ chunk answer s)).ending = .rest left) :
    value = -1 ∧ next = close (countRecv s) ∨
    ∃ oRecv, value = 0 ∧
      next = ((found answer s).foldl (onPackage handle) (recvHead s (chunk answer s)).2).recvStop
        oRecv ∧
      next.retained = left := by
  obtain ⟨rest, hretained⟩ := hinv.recv
  have hrest : s.retained = rest := hretained.read
  by_cases hnone : chunk answer s = []
  · obtain ⟨_, hcall⟩ := hreturns
    rw [processorRecv_of_nothing handle hnone] at hcall
    cases hcall
    exact Or.inl ⟨rfl, rfl⟩
  · have hspec := processorRecv_spec handle hretained rfl hnone
    rw [hrest, chunk] at hending
    simp only [hending] at hspec
    obtain ⟨oRecv, hreturn, hleft⟩ := hspec
    obtain ⟨rfl, rfl⟩ := hreturn.unique hreturns
    refine Or.inr ⟨oRecv, rfl, ?_, hleft.read⟩
    rw [found, hrest]
    rfl

/-- What holds of a client and of the frames it has handed over: the bookkeeping of
a call keeps it, so does every good frame, and so do the calls of `send`. -/
structure Frames (handle : MsgHandle ω) (good : List Byte → Prop)
    (holds : List (List Byte) → ClientSocket ω → Prop) : Prop where
  quiet : ∀ done (t next : ClientSocket ω), t.SameSend next → next.sock = t.sock →
    next.ext = t.ext → holds done t → holds done next
  package : ∀ done (t : ClientSocket ω) frame, t.SendInv → good frame → holds done t →
    holds (done ++ [frame]) (onPackage handle t frame)
  kept : ∀ done (t next : ClientSocket ω), Endpoint.Kept t next → holds done t → holds done next

section Rule

variable {good : List Byte → Prop} {holds : List (List Byte) → ClientSocket ω → Prop}

theorem Frames.packages (hframes : Frames handle good holds) {frames done : List (List Byte)}
    (hgood : ∀ frame ∈ frames, good frame ∧ frame.length ≤ packageMaxSize) (hsend : s.SendInv)
    (hstart : holds done s) :
    (frames.foldl (onPackage handle) s).SendInv ∧
      holds (done ++ frames) (frames.foldl (onPackage handle) s) := by
  induction frames generalizing done s with
  | nil =>
      rw [List.append_nil]
      exact ⟨hsend, hstart⟩
  | cons frame frames ih =>
      rw [List.forall_mem_cons] at hgood
      obtain ⟨_, _, _, _, hnext, _⟩ := onPackage_spec handle hsend hgood.1.2
      have hone := hframes.package done s frame hsend hgood.1.1 hstart
      have hrest := ih hgood.2 hnext hone
      rwa [List.append_assoc, List.singleton_append] at hrest

/-- Where a call stands once it is over or about to close: the frames `done` have
been handed over, the first of those it found. One that goes on has handed over all. -/
def Stands (holds : List (List Byte) → ClientSocket ω → Prop) (frames : List (List Byte))
    (left : List Byte) (failed : Bool) (next : ClientSocket ω) : Prop :=
  ∃ done last, last.SendInv ∧ holds done last ∧ next = (if failed then close last else last) ∧
    done <+: frames ∧ (failed = false → done = frames ∧ last.retained = left)

/-- A call of `ProcessorRecv`. -/
theorem Frames.recv (hframes : Frames handle good holds) (hinv : Inv s) (hstart : holds [] s)
    (hgood : ∀ frame ∈ found answer s, good frame)
    (hending : (headRule.parse (s.retained ++ chunk answer s)).ending = .rest left) {value : Int}
    (hreturns : Returns handle answer s value next) :
    Stands holds (found answer s) left (decide (value = -1)) next := by
  rcases hreturns.frames hinv hending with ⟨rfl, rfl⟩ | ⟨oRecv, rfl, rfl, hleft⟩
  · have hsame : Endpoint.SameSend s (countRecv s) := ⟨rfl, rfl, rfl, rfl⟩
    exact ⟨[], countRecv s, hsame.inv hinv.send, hframes.quiet _ _ _ hsame rfl rfl hstart, rfl,
      List.nil_prefix, fun hfailed => by cases hfailed⟩
  · have hsame : Endpoint.SameSend s (recvHead s (chunk answer s)).2 := ⟨rfl, rfl, rfl, rfl⟩
    obtain ⟨hsend, hheld⟩ := hframes.packages
      (fun frame hframe => ⟨hgood frame hframe, length_le_of_mem_frames hframe⟩)
      (hsame.inv hinv.send) (hframes.quiet _ _ _ hsame rfl rfl hstart)
    have hstop := Endpoint.SameSend.recvStop
      ((found answer s).foldl (onPackage handle) (recvHead s (chunk answer s)).2) oRecv
    exact ⟨_, _, hstop.inv hsend, hframes.quiet _ _ _ hstop rfl rfl hheld, rfl,
      List.prefix_rfl, fun _ => ⟨rfl, hleft⟩⟩

/-- A whole turn. Only a readable client receives. -/
theorem Frames.turn (hframes : Frames handle good holds) (hinv : Inv s)
    (hopen : s.sock ≠ invalidSocket) (hstart : holds [] s)
    (hgood : ∀ frame ∈ found answer s, good frame)
    (hending : (headRule.parse (s.retained ++ chunk answer s)).ending = .rest left) {fuel : Nat}
    {readable failed : Bool} {answers : Nat → SendAnswer}
    (hturn : turn handle fuel readable answer answers s = some (failed, next)) :
    Stands holds (if readable then found answer s else [])
      (if readable then left else s.retained) failed next := by
  have hrecv : ∀ failed middle, recvFails handle fuel readable answer s = some (failed, middle) →
      Stands holds (if readable then found answer s else [])
        (if readable then left else s.retained) failed middle := by
    intro failed middle hrecv
    cases readable with
    | false =>
        cases hrecv
        exact ⟨[], s, hinv.send, hstart, rfl, List.nil_prefix, fun _ => ⟨rfl, rfl⟩⟩
    | true =>
        simp only [recvFails, if_true] at hrecv ⊢
        split at hrecv
        next value _ hcall =>
          cases hrecv
          exact hframes.recv hinv hstart hgood hending ⟨fuel, hcall⟩
        next => cases hrecv
  simp only [ClientSocket.turn] at hturn
  split at hturn
  next => cases hturn
  next middle hfails =>
    cases hturn
    exact hrecv true _ hfails
  next middle hgoes =>
    obtain ⟨hmiddle, hsettled⟩ := recvFails_spec hinv hopen hgoes
    obtain ⟨done, _, _, hheld, rfl, hfirst, hdone⟩ := hrecv false _ hgoes
    obtain ⟨⟨value, last⟩, hsend, hresult⟩ := Option.map_eq_some_iff.mp hturn
    cases hresult
    have hstill : middle.sock ≠ invalidSocket := by
      cases hsettled with
      | kept hsock _ => rwa [hsock]
    obtain ⟨_, t, hrun, hreturns⟩ := Endpoint.runSend_spec ClientSocket.close
      serverSendQueueMaxAccumulateCount answers hmiddle.send hstill
    cases hrun.symm.trans hsend
    rcases hreturns with ⟨rfl, hlast⟩ | ⟨rfl, t, hlast, rfl⟩
    · refine ⟨done, _, hlast.inv, hframes.kept _ _ _ hlast hheld, rfl, hfirst, fun _ => ?_⟩
      exact ⟨(hdone rfl).1, hlast.same.retained.trans (hdone rfl).2⟩
    · exact ⟨done, t, hlast.inv, hframes.kept _ _ _ hlast hheld, rfl, hfirst,
        fun hfailed => by cases hfailed⟩

end Rule

end ClientSocket

/-! ## The sweep -/

namespace SelectServer

variable {σ : Type} {handle : ServerHandle σ} {start s next : SelectServer σ}
  {before after : List Member} {fuel : Nat} {fdRead : FdSet} {turns : ClientId → ClientAnswers}

/-- The turn of a member in a sweep. -/
def Turns (handle : ServerHandle σ) (fuel : Nat) (fdRead : FdSet)
    (turns : ClientId → ClientAnswers) (before : List Member) (member : Member)
    (after : List Member) (s : SelectServer σ) (failed : Bool)
    (client : ClientSocket (Sweeping σ)) : Prop :=
  ClientSocket.turn (Sweeping.onMsgHandle handle member.pClient) fuel
    (decide (member.client.sock ∈ fdRead)) (turns member.pClient).recv (turns member.pClient).send
    (member.client.lend ⟨s.world, before, after, s.broadcasts, member.pushed⟩) =
      some (failed, client)

/-- Every turn of a sweep keeps what holds of the members on both sides and of the
handler's state; a member that has failed is no longer among them. -/
def KeptByTurns (handle : ServerHandle σ) (start : SelectServer σ) (fuel : Nat) (fdRead : FdSet)
    (turns : ClientId → ClientAnswers) (holds : List Member → List Member → σ → Prop) : Prop :=
  ∀ before member after s failed client, Sweeps start before (member :: after) s →
    holds before (member :: after) s.world →
    Turns handle fuel fdRead turns before member after s failed client →
    holds (if failed then client.ext.world.before
      else client.ext.world.before ++ [member.resumed client]) client.ext.world.after
      client.ext.world.own

theorem KeptByTurns.sweep {holds : List Member → List Member → σ → Prop}
    (hkept : KeptByTurns handle start fuel fdRead turns holds)
    (hsweeps : Sweeps start before after s) (hholds : holds before after s.world) {count : Nat}
    (hcount : after.length ≤ count)
    (hsweep : sweep handle fuel fdRead turns count before after s = some next) :
    holds next.clientSockArr [] next.world := by
  induction count generalizing before after s with
  | zero =>
      obtain rfl : after = [] := List.length_eq_zero_iff.mp (Nat.le_zero.mp hcount)
      cases hsweep
      rwa [List.append_nil]
  | succ count ih =>
      cases after with
      | nil =>
          cases hsweep
          rwa [List.append_nil]
      | cons member after =>
          have hwaiting := hsweeps.waiting
          rw [SelectServer.sweep] at hsweep
          simp only at hsweep
          split at hsweep
          next => cases hsweep
          next failed client hturn =>
            rw [List.forall_mem_cons] at hwaiting
            have hstart : Sweeping.Serves s.broadcasts (before.map Member.key)
                (after.map Member.key) ⟨s.world, before, after, s.broadcasts, member.pushed⟩ :=
              ⟨List.prefix_rfl, hsweeps.done, hwaiting.2, rfl, rfl, hwaiting.1.recorded⟩
            obtain ⟨hserves, hgoes, hfails⟩ := hwaiting.1.turn hstart rfl hturn
            have hlength : client.ext.world.after.length ≤ count := by
              have hsame := congrArg List.length hserves.behind
              simp only [List.length_map] at hsame
              simpa [hsame] using hcount
            have hnext := hkept before member after s failed client hsweeps hholds hturn
            cases failed with
            | false => exact ih (hsweeps.goOn hserves (hgoes rfl)) hnext hlength hsweep
            | true => exact ih (hsweeps.delete hserves (hfails rfl)) hnext hlength hsweep

end SelectServer

end SelectNet
