import TerraClassic.Ante.Spam

/-! # What a rejected transaction leaves in the guard

    The maps of `SpammingPreventionDecorator` are memory of the process: the store
    drops the writes of a transaction that fails, and does not reach them.  They
    are written message by message, before the messages that follow are looked at
    and before the decorators behind it, where `NewAnteHandler` puts the checks of
    the fees and of the signatures.

    `rejected_untouched_iff`: a rejected transaction leaves the maps as they were,
    and blocks no other one at its height, exactly when it does not open with a
    prevote or vote that is written down.  Whoever names the feeder and the validator
    of a prevote can block it: the signature is not looked at before.
-/

namespace TerraClassic.Ante

/-! ### The decorator in its chain -/

/-- `AnteHandle` with the decorators behind it, which do not see the maps: the
    maps after the transaction, and an error of its own or of `next`. -/
def SpamCall.anteHandleNext {ε : Type} (bech32 : Bech32) (next : SpamCall → Except ε Unit)
    (call : SpamCall) (g : SpamGuard) : SpamGuard × Except (SpamError ⊕ ε) Unit :=
  match call.anteHandle bech32 g with
  | (g', .error err) => (g', .error (.inl err))
  | (g', .ok _) => (g', (next call).mapError .inr)

/-- The messages open with a prevote or vote of a good feeder whose validator has
    none of the kind at the height. -/
def opensFresh (bech32 : Bech32) (validateFeeder : FeederCheck) (curHeight : ℤ) (g : SpamGuard) :
    List Msg → Bool
  | [] => false
  | msg :: _ =>
    match submission msg with
    | none => false
    | some (kind, feeder, validator) =>
      (checkFeeder bech32 validateFeeder feeder validator).isOk &&
        g.lastSubmittedHeight kind validator ≠ some curHeight

/-- The call is in `CheckTx` proper and opens with a submission that is written down. -/
def SpamCall.writes (bech32 : Bech32) (call : SpamCall) (g : SpamGuard) : Bool :=
  call.isFirstCheck && opensFresh bech32 call.validateFeeder call.height g call.msgs

/-- At this height a call passes with the maps of `g` and is rejected with those
    of `g'`. -/
def Blocks (bech32 : Bech32) (height : ℤ) (g g' : SpamGuard) : Prop :=
  ∃ later : SpamCall, later.height = height ∧ (later.anteHandle bech32 g).2.isOk = true ∧
    (later.anteHandle bech32 g').2.isOk = false

/-! ### What the walk writes -/

section

variable {bech32 : Bech32} {validateFeeder : FeederCheck} {curHeight : ℤ} {g : SpamGuard}

/-- A first message that is not written down ends the walk. -/
theorem checkOracleSpamming_of_not_fresh {msgs : List Msg}
    (h : opensFresh bech32 validateFeeder curHeight g msgs = false) :
    (checkOracleSpamming bech32 validateFeeder curHeight g msgs).1 = g := by
  cases msgs with
  | nil => rfl
  | cons msg rest =>
    unfold opensFresh at h
    unfold checkOracleSpamming
    split
    · rfl
    · next kind feeder validator hsub =>
      simp only [hsub] at h
      cases hfeeder : checkFeeder bech32 validateFeeder feeder validator with
      | error err => rfl
      | ok addr =>
        simp only [hfeeder] at h
        have hlast : g.lastSubmittedHeight kind validator = some curHeight := by
          by_contra hne
          simp [hne, Except.isOk, Except.toBool] at h
        simp only [if_pos hlast]

/-- The first message, when it is written down. -/
theorem opensFresh_cases {msgs : List Msg}
    (h : opensFresh bech32 validateFeeder curHeight g msgs = true) :
    ∃ msg rest kind feeder validator addr, msgs = msg :: rest ∧
      submission msg = some (kind, feeder, validator) ∧
      checkFeeder bech32 validateFeeder feeder validator = .ok addr ∧
      g.lastSubmittedHeight kind validator ≠ some curHeight := by
  cases msgs with
  | nil => cases h
  | cons msg rest =>
    unfold opensFresh at h
    cases hsub : submission msg with
    | none =>
      simp only [hsub] at h
      cases h
    | some sub =>
      obtain ⟨kind, feeder, validator⟩ := sub
      simp only [hsub, Bool.and_eq_true] at h
      cases hfeeder : checkFeeder bech32 validateFeeder feeder validator with
      | error err =>
        rw [hfeeder] at h
        cases h.1
      | ok addr =>
        exact ⟨msg, rest, kind, feeder, validator, addr, rfl, hsub, hfeeder, of_decide_eq_true h.2⟩

/-- The walk over a first message of a good feeder. -/
theorem checkOracleSpamming_cons {msg : Msg} {kind : OracleKind} {feeder validator : String}
    {addr : ValAddr} (hsub : submission msg = some (kind, feeder, validator))
    (hfeeder : checkFeeder bech32 validateFeeder feeder validator = .ok addr)
    (rest : List Msg) :
    checkOracleSpamming bech32 validateFeeder curHeight g (msg :: rest) =
      if g.lastSubmittedHeight kind validator = some curHeight then
        (g, .error (.invalidRequest (alreadySubmitted kind)))
      else checkOracleSpamming bech32 validateFeeder curHeight (g.record validator curHeight kind)
        rest := by
  rw [checkOracleSpamming]
  simp only [hsub, hfeeder]

end

/-! ### One call -/

section

variable {bech32 : Bech32} {call : SpamCall} {g : SpamGuard}

theorem anteHandle_of_firstCheck (h : call.isFirstCheck = true) :
    call.anteHandle bech32 g =
      checkOracleSpamming bech32 call.validateFeeder call.height g call.msgs := by
  unfold SpamCall.isFirstCheck at h
  simp only [Bool.and_eq_true, Bool.not_eq_true'] at h
  unfold SpamCall.anteHandle
  simp [h.1.1, h.1.2, h.2]

theorem anteHandle_of_not_firstCheck (h : call.isFirstCheck = false) :
    call.anteHandle bech32 g = (g, .ok ()) := by
  unfold SpamCall.isFirstCheck at h
  unfold SpamCall.anteHandle
  cases hre : call.isReCheckTx with
  | true => rfl
  | false =>
    simp only [hre, Bool.not_false, Bool.true_and] at h
    simp [h]

/-- A call that writes nothing leaves the maps. -/
theorem anteHandle_of_not_writes (h : call.writes bech32 g = false) :
    (call.anteHandle bech32 g).1 = g := by
  cases hfirst : call.isFirstCheck with
  | false => rw [anteHandle_of_not_firstCheck hfirst]
  | true =>
    unfold SpamCall.writes at h
    rw [hfirst, Bool.true_and] at h
    rw [anteHandle_of_firstCheck hfirst]
    exact checkOracleSpamming_of_not_fresh h

/-- A call that writes blocks its own first message: alone in a transaction it would
    have passed before, and is rejected now. -/
theorem blocks_of_writes (h : call.writes bech32 g = true) :
    Blocks bech32 call.height g (call.anteHandle bech32 g).1 := by
  unfold SpamCall.writes at h
  obtain ⟨hfirst, hfresh⟩ := (Bool.and_eq_true _ _).mp h
  obtain ⟨msg, rest, kind, feeder, validator, addr, hmsgs, hsub, hfeeder, hlast⟩ :=
    opensFresh_cases hfresh
  have hfirst' : SpamCall.isFirstCheck { call with msgs := [msg] } = true := hfirst
  have halone : ∀ g', SpamCall.anteHandle bech32 { call with msgs := [msg] } g' =
      if g'.lastSubmittedHeight kind validator = some call.height then
        (g', .error (.invalidRequest (alreadySubmitted kind)))
      else (g'.record validator call.height kind, .ok ()) := by
    intro g'
    rw [anteHandle_of_firstCheck hfirst']
    exact checkOracleSpamming_cons hsub hfeeder []
  -- what the first message recorded is still there at the end of the walk
  have hknown : (call.anteHandle bech32 g).1.lastSubmittedHeight kind validator =
      some call.height := by
    rw [anteHandle_of_firstCheck hfirst, hmsgs, checkOracleSpamming_cons hsub hfeeder,
      if_neg hlast]
    apply checkOracleSpamming_keeps
    rw [lastSubmittedHeight_record, if_pos ⟨rfl, rfl⟩]
  refine ⟨{ call with msgs := [msg] }, rfl, ?_, ?_⟩
  · rw [halone, if_neg hlast]
    rfl
  · rw [halone, if_pos hknown]
    rfl

theorem not_blocks_self (bech32 : Bech32) (height : ℤ) (g : SpamGuard) :
    ¬ Blocks bech32 height g g := by
  rintro ⟨later, _, hpasses, hrejected⟩
  rw [hpasses] at hrejected
  cases hrejected

/-- The later decorators change nothing in the maps. -/
theorem anteHandleNext_guard {ε : Type} (next : SpamCall → Except ε Unit) :
    (call.anteHandleNext bech32 next g).1 = (call.anteHandle bech32 g).1 := by
  unfold SpamCall.anteHandleNext
  split
  · next h => rw [h]
  · next h => rw [h]

end

/-! ### Rejected transactions -/

/-- For every guard and every transaction that is rejected, by the decorator or
    behind it: the maps are as before, and also nothing is blocked that would have
    passed, exactly when the transaction does not open with a submission that is
    written down. -/
theorem rejected_untouched_iff {ε : Type} (bech32 : Bech32) (next : SpamCall → Except ε Unit)
    (g : SpamGuard) (call : SpamCall) (err : SpamError ⊕ ε)
    (_hrejected : (call.anteHandleNext bech32 next g).2 = .error err) :
    ((call.anteHandleNext bech32 next g).1 = g ↔ call.writes bech32 g = false) ∧
    (¬ Blocks bech32 call.height g (call.anteHandleNext bech32 next g).1 ↔
      call.writes bech32 g = false) := by
  rw [anteHandleNext_guard]
  cases hwrites : call.writes bech32 g with
  | false =>
    rw [anteHandle_of_not_writes hwrites]
    exact ⟨⟨fun _ => rfl, fun _ => rfl⟩, ⟨fun _ => rfl, fun _ => not_blocks_self _ _ _⟩⟩
  | true =>
    have hblocks := blocks_of_writes hwrites
    refine ⟨⟨fun hsame => ?_, nofun⟩, ⟨fun hnot => absurd hblocks hnot, nofun⟩⟩
    rw [hsame] at hblocks
    exact absurd hblocks (not_blocks_self _ _ _)

/-- A prevote of an unknown feeder is rejected and leaves the guard as it was. -/
theorem rejected_untouched_unknown_feeder :
    let call := freePrevote "terra1unknown" 7 "terravaloper1vy3vsmy0"
    let next : SpamCall → Except String Unit := fun _ => .ok ()
    (call.anteHandleNext eitherCase next newSpammingPreventionDecorator).1 =
        newSpammingPreventionDecorator ∧
      ¬ Blocks eitherCase 7 newSpammingPreventionDecorator
        (call.anteHandleNext eitherCase next newSpammingPreventionDecorator).1 := by
  intro call next
  have huntouched := rejected_untouched_iff eitherCase next newSpammingPreventionDecorator call
    (.inl (.plain "decoding bech32 failed")) (by rfl)
  have hwrites : call.writes eitherCase newSpammingPreventionDecorator = false := by
    decide +kernel
  exact ⟨huntouched.1.mpr hwrites, huntouched.2.mpr hwrites⟩

/-- A forged prevote is rejected for its signature, and the validator's own is then
    rejected at that height, which had passed without it. -/
theorem forged_prevote_blocks :
    let prevote := prevoteAt 7 "terravaloper1vy3vsmy0"
    let next : SpamCall → Except String Unit := fun _ => .error "signature verification failed"
    let after := prevote.anteHandleNext eitherCase next newSpammingPreventionDecorator
    after.2 = .error (.inr "signature verification failed") ∧
      after.1 ≠ newSpammingPreventionDecorator ∧
      (prevote.anteHandle eitherCase newSpammingPreventionDecorator).2 = .ok () ∧
      (prevote.anteHandle eitherCase after.1).2 = .error (.invalidRequest
        "the validator has already been submitted prevote at the current height") := by
  intro prevote next after
  refine ⟨by rfl, ?_, by rfl, by rfl⟩
  intro h
  have hlast : after.1.lastSubmittedHeight .prevote "terravaloper1vy3vsmy0" = some 7 := by
    decide +kernel
  rw [h] at hlast
  cases hlast

end TerraClassic.Ante
