import TerraClassic.Ante.Tax

/-! # The guard on free oracle transactions

    Transactions of prevotes and votes only pay no fee.  To keep them from
    flooding the mempool, `SpammingPreventionDecorator` remembers for each
    validator the height of its last prevote and of its last vote, and rejects a
    second one at the same height.

    The two maps are keyed by the validator's address as the message spells it,
    and they are written while the messages are walked: what a rejected
    transaction wrote stays.  A bech32 address may be written in lower or in upper
    case, so a validator has two keys.

    `one_per_validator_spelled_alike`: at every height a validator gets at most one
    free prevote and one free vote through if those that name it spell it alike, and
    two spellings get two through.
-/

namespace TerraClassic.Ante

/-! ### The decorator -/

/-- The two kinds of oracle messages. -/
inductive OracleKind where
  | prevote
  | vote
  deriving DecidableEq, Repr

/-- The maps of the decorator. -/
structure SpamGuard where
  oraclePrevoteMap : SortedMap String ℤ
  oracleVoteMap : SortedMap String ℤ

/-- `NewSpammingPreventionDecorator`. -/
def newSpammingPreventionDecorator : SpamGuard := ⟨∅, ∅⟩

/-- The height of the last submission of a kind under a spelling. -/
def SpamGuard.lastSubmittedHeight (g : SpamGuard) : OracleKind → String → Option ℤ
  | .prevote, validator => g.oraclePrevoteMap.get validator
  | .vote, validator => g.oracleVoteMap.get validator

def SpamGuard.record (g : SpamGuard) (validator : String) (height : ℤ) : OracleKind → SpamGuard
  | .prevote => { g with oraclePrevoteMap := g.oraclePrevoteMap.set validator height }
  | .vote => { g with oracleVoteMap := g.oracleVoteMap.set validator height }

inductive SpamError where
  | plain (err : String)
  | feeder (err : Oracle.MsgError)
  | invalidRequest (text : String)

/-- `ValidateFeeder` of the oracle keeper, in the state of the call. -/
abbrev FeederCheck : Type := AccAddr → ValAddr → Except Oracle.MsgError Unit

/-- What a message submits: its kind, feeder and validator. -/
def submission : Msg → Option (OracleKind × String × String)
  | .aggregateExchangeRatePrevote msg => some (.prevote, msg.feeder, msg.validator)
  | .aggregateExchangeRateVote msg => some (.vote, msg.feeder, msg.validator)
  | _ => none

/-- The text of the rejection. -/
def alreadySubmitted : OracleKind → String
  | .prevote => "the validator has already been submitted prevote at the current height"
  | .vote => "the validator has already been submitted vote at the current height"

/-- The addresses and the feeder of a submission. -/
def checkFeeder (bech32 : Bech32) (validateFeeder : FeederCheck) (feeder validator : String) :
    Except SpamError ValAddr := do
  let feederAddr ← (bech32.accAddressFromBech32 feeder).mapError .plain
  let valAddr ← (bech32.valAddressFromBech32 validator).mapError .plain
  (validateFeeder feederAddr valAddr).mapError .feeder
  return valAddr

/-- `CheckOracleSpamming`: the maps after it, and whether it passed.  The walk
    ends at the first message that is no prevote and no vote. -/
def checkOracleSpamming (bech32 : Bech32) (validateFeeder : FeederCheck) (curHeight : ℤ) :
    SpamGuard → List Msg → SpamGuard × Except SpamError Unit
  | g, [] => (g, .ok ())
  | g, msg :: rest =>
    match submission msg with
    | none => (g, .ok ())
    | some (kind, feeder, validator) =>
      match checkFeeder bech32 validateFeeder feeder validator with
      | .error err => (g, .error err)
      | .ok _ =>
        -- keyed by the spelling, although the address has just been parsed
        if g.lastSubmittedHeight kind validator = some curHeight then
          (g, .error (.invalidRequest (alreadySubmitted kind)))
        else
          checkOracleSpamming bech32 validateFeeder curHeight (g.record validator curHeight kind)
            rest

/-- A call of the decorator. -/
structure SpamCall where
  height : ℤ
  isReCheckTx : Bool
  isCheckTx : Bool
  simulate : Bool
  validateFeeder : FeederCheck
  msgs : List Msg

/-- `AnteHandle` up to the call of the next decorator. -/
def SpamCall.anteHandle (bech32 : Bech32) (call : SpamCall) (g : SpamGuard) :
    SpamGuard × Except SpamError Unit :=
  if call.isReCheckTx then (g, .ok ())
  else if !call.simulate && call.isCheckTx then
    checkOracleSpamming bech32 call.validateFeeder call.height g call.msgs
  else (g, .ok ())

/-! ### Runs -/

/-- A call in `CheckTx` proper. -/
def SpamCall.isFirstCheck (call : SpamCall) : Bool :=
  !call.isReCheckTx && !call.simulate && call.isCheckTx

/-- The decorator, and the calls in `CheckTx` that it let pass. -/
structure GuardRun where
  guard : SpamGuard
  accepted : List SpamCall

def GuardRun.step (bech32 : Bech32) (r : GuardRun) (call : SpamCall) : GuardRun :=
  match call.anteHandle bech32 r.guard with
  | (g, .ok _) => ⟨g, if call.isFirstCheck then r.accepted ++ [call] else r.accepted⟩
  | (g, .error _) => ⟨g, r.accepted⟩

/-- The calls one after the other, from a new decorator. -/
def guardRun (bech32 : Bech32) (calls : List SpamCall) : GuardRun :=
  calls.foldl (GuardRun.step bech32) ⟨newSpammingPreventionDecorator, []⟩

/-- The validators that the messages of a kind name. -/
def validatorsOf (kind : OracleKind) (msgs : List Msg) : List String :=
  msgs.filterMap (fun msg =>
    (submission msg).bind (fun sub => if sub.1 = kind then some sub.2.2 else none))

/-- The validators named in the free transactions that passed at a height. -/
def validatorsAt (kind : OracleKind) (height : ℤ) (accepted : List SpamCall) : List String :=
  accepted.flatMap (fun call =>
    if call.height = height ∧ isOracleTx call.msgs = true then validatorsOf kind call.msgs else [])

/-! ### One walk over the messages -/

variable {bech32 : Bech32} {validateFeeder : FeederCheck}

theorem lastSubmittedHeight_record (g : SpamGuard) (kind kind' : OracleKind)
    (validator validator' : String) (height : ℤ) :
    (g.record validator height kind).lastSubmittedHeight kind' validator' =
      if kind' = kind ∧ validator' = validator then some height
      else g.lastSubmittedHeight kind' validator' := by
  cases kind <;> cases kind' <;>
    simp [SpamGuard.record, SpamGuard.lastSubmittedHeight, SortedMap.get_set]

/-- What was submitted at this height stays so, whatever the transaction is. -/
theorem checkOracleSpamming_keeps {curHeight : ℤ} (msgs : List Msg) {g : SpamGuard}
    {kind : OracleKind} {validator : String}
    (h : g.lastSubmittedHeight kind validator = some curHeight) :
    (checkOracleSpamming bech32 validateFeeder curHeight g msgs).1.lastSubmittedHeight kind
      validator = some curHeight := by
  induction msgs generalizing g with
  | nil => exact h
  | cons msg rest ih =>
    unfold checkOracleSpamming
    split
    · exact h
    · split
      · exact h
      · split
        · exact h
        · apply ih
          rw [lastSubmittedHeight_record]
          split
          · rfl
          · exact h

/-- The validators that a transaction which passes names for one kind: all
    different as strings, all parsed, new at this height before and known after. -/
structure Admitted (bech32 : Bech32) (curHeight : ℤ) (kind : OracleKind) (g g' : SpamGuard)
    (validators : List String) : Prop where
  nodup : validators.Nodup
  parsed : ∀ v ∈ validators, ∃ addr, bech32.valAddressFromBech32 v = .ok addr
  fresh : ∀ v ∈ validators, g.lastSubmittedHeight kind v ≠ some curHeight
  known : ∀ v ∈ validators, g'.lastSubmittedHeight kind v = some curHeight

theorem Admitted.nil {curHeight : ℤ} {kind : OracleKind} (g g' : SpamGuard) :
    Admitted bech32 curHeight kind g g' [] :=
  ⟨List.nodup_nil, nofun, nofun, nofun⟩

theorem checkFeeder_ok {feeder validator : String} {addr : ValAddr}
    (h : checkFeeder bech32 validateFeeder feeder validator = .ok addr) :
    bech32.valAddressFromBech32 validator = .ok addr := by
  obtain ⟨feederAddr, _, h⟩ := Run.bind_eq_ok.mp h
  obtain ⟨valAddr, hval, h⟩ := Run.bind_eq_ok.mp h
  obtain ⟨_, _, h⟩ := Run.bind_eq_ok.mp h
  cases h
  exact SdkError.mapError_eq_ok.mp hval

theorem validatorsOf_cons {kind kind' : OracleKind} {msg : Msg} {feeder validator : String}
    (h : submission msg = some (kind', feeder, validator)) (rest : List Msg) :
    validatorsOf kind (msg :: rest) =
      if kind' = kind then validator :: validatorsOf kind rest else validatorsOf kind rest := by
  unfold validatorsOf
  rw [List.filterMap_cons, h]
  by_cases hkind : kind' = kind
  · simp [hkind]
  · simp [hkind]

theorem isOracleTx_cons {msg : Msg} {rest : List Msg} (h : isOracleTx (msg :: rest) = true) :
    (∃ sub, submission msg = some sub) ∧ isOracleTx rest = true := by
  unfold isOracleTx at h ⊢
  rw [List.all_cons, Bool.and_eq_true] at h
  refine ⟨?_, h.2⟩
  cases msg with
  | aggregateExchangeRatePrevote msg => exact ⟨_, rfl⟩
  | aggregateExchangeRateVote msg => exact ⟨_, rfl⟩
  | _ => cases h.1

/-- A free transaction that passes. -/
theorem checkOracleSpamming_ok {curHeight : ℤ} {msgs : List Msg} {g g' : SpamGuard}
    (horacle : isOracleTx msgs = true)
    (h : checkOracleSpamming bech32 validateFeeder curHeight g msgs = (g', .ok ()))
    (kind : OracleKind) : Admitted bech32 curHeight kind g g' (validatorsOf kind msgs) := by
  induction msgs generalizing g with
  | nil => exact Admitted.nil g g'
  | cons msg rest ih =>
    obtain ⟨⟨⟨kind', feeder, validator⟩, hsub⟩, hrest⟩ := isOracleTx_cons horacle
    unfold checkOracleSpamming at h
    simp only [hsub] at h
    cases hfeeder : checkFeeder bech32 validateFeeder feeder validator with
    | error err =>
      rw [hfeeder] at h
      cases h
    | ok addr =>
      simp only [hfeeder] at h
      by_cases hlast : g.lastSubmittedHeight kind' validator = some curHeight
      · rw [if_pos hlast] at h
        cases h
      rw [if_neg hlast] at h
      have hadmitted := ih hrest h
      have hrecorded := lastSubmittedHeight_record g kind' kind validator
      rw [validatorsOf_cons hsub]
      by_cases hkind : kind' = kind
      · subst hkind
        rw [if_pos rfl]
        -- the walk of the rest starts with this validator recorded, so it is not in it
        have hnew : validator ∉ validatorsOf kind' rest := by
          intro hmem
          apply hadmitted.fresh validator hmem
          rw [hrecorded, if_pos ⟨rfl, rfl⟩]
        have hknown : g'.lastSubmittedHeight kind' validator = some curHeight := by
          have hg' : g' = (checkOracleSpamming bech32 validateFeeder curHeight
              (g.record validator curHeight kind') rest).1 := by rw [h]
          rw [hg']
          apply checkOracleSpamming_keeps
          rw [hrecorded, if_pos ⟨rfl, rfl⟩]
        refine ⟨List.nodup_cons.mpr ⟨hnew, hadmitted.nodup⟩, ?_, ?_, ?_⟩
        · exact List.forall_mem_cons.mpr ⟨⟨addr, checkFeeder_ok hfeeder⟩, hadmitted.parsed⟩
        · refine List.forall_mem_cons.mpr ⟨hlast, fun v hv => ?_⟩
          have hne : v ≠ validator := fun heq => hnew (heq ▸ hv)
          have := hadmitted.fresh v hv
          rw [hrecorded, if_neg (fun hand => hne hand.2)] at this
          exact this
        · exact List.forall_mem_cons.mpr ⟨hknown, hadmitted.known⟩
      · rw [if_neg hkind]
        refine ⟨hadmitted.nodup, hadmitted.parsed, fun v hv => ?_, hadmitted.known⟩
        have := hadmitted.fresh v hv
        rw [hrecorded, if_neg (fun hand => hkind hand.1.symm)] at this
        exact this

/-! ### Runs of the guard -/

/-- What holds after the calls up to height `last`: the free submissions of each
    height are spelled differently, those of `last` are known to the guard, and
    there are none above `last`. -/
structure Guarded (bech32 : Bech32) (last : ℤ) (r : GuardRun) : Prop where
  nodup : ∀ kind height, (validatorsAt kind height r.accepted).Nodup
  parsed : ∀ kind height, ∀ v ∈ validatorsAt kind height r.accepted,
    ∃ addr, bech32.valAddressFromBech32 v = .ok addr
  known : ∀ kind, ∀ v ∈ validatorsAt kind last r.accepted,
    r.guard.lastSubmittedHeight kind v = some last
  none_above : ∀ kind height, last < height → validatorsAt kind height r.accepted = []

theorem guarded_mono {last height : ℤ} {r : GuardRun} (h : Guarded bech32 last r)
    (hle : last ≤ height) : Guarded bech32 height r := by
  rcases hle.eq_or_lt with rfl | hlt
  · exact h
  · refine ⟨h.nodup, h.parsed, ?_, fun kind height' hlt' => h.none_above kind height' (by omega)⟩
    intro kind v hv
    rw [h.none_above kind height hlt] at hv
    cases hv

theorem validatorsAt_append (kind : OracleKind) (height : ℤ) (accepted : List SpamCall)
    (call : SpamCall) :
    validatorsAt kind height (accepted ++ [call]) = validatorsAt kind height accepted ++
      if call.height = height ∧ isOracleTx call.msgs = true then validatorsOf kind call.msgs
      else [] := by
  simp [validatorsAt]

/-- What a call does: outside of `CheckTx` nothing, in it a walk, after which a
    call that passes is added to the accepted ones. -/
theorem step_cases (r : GuardRun) (call : SpamCall) :
    r.step bech32 call = r ∨
    ∃ g, (r.step bech32 call).guard = g ∧
      g = (checkOracleSpamming bech32 call.validateFeeder call.height r.guard call.msgs).1 ∧
      ((r.step bech32 call).accepted = r.accepted ∨
        (checkOracleSpamming bech32 call.validateFeeder call.height r.guard call.msgs =
            (g, .ok ()) ∧
          (r.step bech32 call).accepted = r.accepted ++ [call])) := by
  unfold GuardRun.step SpamCall.anteHandle SpamCall.isFirstCheck
  cases hre : call.isReCheckTx with
  | true => exact Or.inl rfl
  | false =>
    cases hcheck : (!call.simulate && call.isCheckTx) with
    | false =>
      refine Or.inl ?_
      simp [hcheck]
    | true =>
      refine Or.inr ⟨_, rfl, ?_⟩
      simp only [Bool.false_eq_true, if_false, if_true, Bool.not_false, Bool.true_and, hcheck]
      cases hwalk :
        checkOracleSpamming bech32 call.validateFeeder call.height r.guard call.msgs with
      | mk g result =>
        cases result with
        | error err => exact ⟨rfl, Or.inl rfl⟩
        | ok _ => exact ⟨rfl, Or.inr ⟨rfl, rfl⟩⟩

/-- Free submissions that were admitted at the last height may be added. -/
theorem Guarded.extend {last : ℤ} {r r' : GuardRun} (h : Guarded bech32 last r)
    {added : OracleKind → List String}
    (hadmitted : ∀ kind, Admitted bech32 last kind r.guard r'.guard (added kind))
    (hat : ∀ kind height, validatorsAt kind height r'.accepted =
      validatorsAt kind height r.accepted ++ if last = height then added kind else [])
    (hkept : ∀ kind v, r.guard.lastSubmittedHeight kind v = some last →
      r'.guard.lastSubmittedHeight kind v = some last) :
    Guarded bech32 last r' := by
  have helse : ∀ kind height, last ≠ height →
      validatorsAt kind height r'.accepted = validatorsAt kind height r.accepted := by
    intro kind height hne
    rw [hat, if_neg hne, List.append_nil]
  constructor
  · intro kind height
    by_cases hheight : last = height
    · rw [hat, if_pos hheight, ← hheight]
      refine List.nodup_append.mpr ⟨h.nodup kind _, (hadmitted kind).nodup, ?_⟩
      -- what was accepted before at this height is known, what is added was not
      intro v hv v' hv' heq
      exact (hadmitted kind).fresh v' hv' (heq ▸ h.known kind v hv)
    · rw [helse kind height hheight]
      exact h.nodup kind height
  · intro kind height v hv
    by_cases hheight : last = height
    · rw [hat, if_pos hheight] at hv
      rcases List.mem_append.mp hv with hv | hv
      · exact h.parsed kind _ v hv
      · exact (hadmitted kind).parsed v hv
    · rw [helse kind height hheight] at hv
      exact h.parsed kind height v hv
  · intro kind v hv
    rw [hat, if_pos rfl] at hv
    rcases List.mem_append.mp hv with hv | hv
    · exact hkept kind v (h.known kind v hv)
    · exact (hadmitted kind).known v hv
  · intro kind height hlt
    rw [helse kind height (ne_of_lt hlt)]
    exact h.none_above kind height hlt

/-- A call at the height of the last one. -/
theorem guarded_step {r : GuardRun} (call : SpamCall) (h : Guarded bech32 call.height r) :
    Guarded bech32 call.height (r.step bech32 call) := by
  rcases step_cases r call with heq | ⟨g, hguard, hg, hcase⟩
  · rw [heq]
    exact h
  · have hkept : ∀ kind v, r.guard.lastSubmittedHeight kind v = some call.height →
        (r.step bech32 call).guard.lastSubmittedHeight kind v = some call.height := by
      intro kind v hv
      rw [hguard, hg]
      exact checkOracleSpamming_keeps call.msgs hv
    rcases hcase with hrejected | ⟨hpassed, haccepted⟩
    · -- a rejected call may have written to the maps, at this height only
      refine h.extend (fun _ => Admitted.nil _ _) ?_ hkept
      intro kind height
      rw [hrejected, ite_self, List.append_nil]
    · by_cases horacle : isOracleTx call.msgs = true
      · have hadmitted : ∀ kind, Admitted bech32 call.height kind r.guard
            (r.step bech32 call).guard (validatorsOf kind call.msgs) := by
          intro kind
          rw [hguard]
          exact checkOracleSpamming_ok horacle hpassed kind
        refine h.extend hadmitted ?_ hkept
        intro kind height
        rw [haccepted, validatorsAt_append]
        simp only [horacle, and_true]
      · -- a transaction that pays fees does not count
        refine h.extend (fun _ => Admitted.nil _ _) ?_ hkept
        intro kind height
        rw [haccepted, validatorsAt_append, if_neg (fun hand => horacle hand.2), ite_self]

/-- A run of calls at heights that do not decrease. -/
theorem guarded_run {calls : List SpamCall} {last : ℤ} {r : GuardRun}
    (hmono : calls.Pairwise (fun call call' => call.height ≤ call'.height))
    (hfirst : ∀ call ∈ calls, last ≤ call.height) (h : Guarded bech32 last r) :
    ∃ last', Guarded bech32 last' (calls.foldl (GuardRun.step bech32) r) := by
  induction calls generalizing last r with
  | nil => exact ⟨last, h⟩
  | cons call rest ih =>
    obtain ⟨hcall, hmono⟩ := List.pairwise_cons.mp hmono
    -- move the invariant up to the height of the call, then take the call
    have hstep := guarded_step call (guarded_mono h (hfirst call List.mem_cons_self))
    exact ih hmono hcall hstep

theorem guarded_new (bech32 : Bech32) (last : ℤ) :
    Guarded bech32 last ⟨newSpammingPreventionDecorator, []⟩ where
  nodup := fun _ _ => List.nodup_nil
  parsed := nofun
  known := nofun
  none_above := fun _ _ _ => rfl

theorem guarded_guardRun {calls : List SpamCall}
    (hmono : calls.Pairwise (fun call call' => call.height ≤ call'.height)) :
    ∃ last, Guarded bech32 last (guardRun bech32 calls) := by
  cases calls with
  | nil => exact ⟨0, guarded_new bech32 0⟩
  | cons call rest =>
    refine guarded_run hmono ?_ (guarded_new bech32 call.height)
    exact List.forall_mem_cons.mpr ⟨le_rfl, (List.pairwise_cons.mp hmono).1⟩

/-! ### The limit -/

theorem eq_of_length_le_one {l : List String} (h : l.length ≤ 1) {v v' : String} (hv : v ∈ l)
    (hv' : v' ∈ l) : v = v' := by
  match l with
  | [] => cases hv
  | [x] => rw [List.mem_singleton.mp hv, List.mem_singleton.mp hv']
  | _ :: _ :: _ =>
    simp only [List.length_cons] at h
    omega

theorem length_le_one_of_eq {l : List String} (hnodup : l.Nodup)
    (h : ∀ v ∈ l, ∀ v' ∈ l, v = v') : l.length ≤ 1 := by
  match l with
  | [] => exact Nat.zero_le 1
  | [_] => exact le_rfl
  | x :: y :: _ =>
    have heq : x = y := h x (by simp) y (by simp)
    simp [heq] at hnodup

/-- At most one free message of a kind for each operator address and height. -/
def OnePerValidator (bech32 : Bech32) (accepted : List SpamCall) : Prop :=
  ∀ kind height addr, (validatorsAt kind height accepted).countP
    (fun v => bech32.valAddressFromBech32 v = .ok addr) ≤ 1

/-- Free messages of one kind and height that name the same operator spell its
    address alike. -/
def SpelledAlike (bech32 : Bech32) (accepted : List SpamCall) : Prop :=
  ∀ kind height, ∀ v ∈ validatorsAt kind height accepted,
    ∀ v' ∈ validatorsAt kind height accepted,
      bech32.valAddressFromBech32 v = bech32.valAddressFromBech32 v' → v = v'

/-- The limit holds exactly when the accepted free messages spell the operators
    alike. -/
theorem onePerValidator_iff_accepted (bech32 : Bech32) {calls : List SpamCall}
    (hmono : calls.Pairwise (fun call call' => call.height ≤ call'.height)) :
    OnePerValidator bech32 (guardRun bech32 calls).accepted ↔
      SpelledAlike bech32 (guardRun bech32 calls).accepted := by
  have hrun : ∃ last, Guarded bech32 last (guardRun bech32 calls) := guarded_guardRun hmono
  obtain ⟨last, hguarded⟩ := hrun
  unfold OnePerValidator SpelledAlike
  refine forall₂_congr (fun kind height => ?_)
  simp only [List.countP_eq_length_filter]
  constructor
  · intro hone v hv v' hv' hparse
    obtain ⟨addr, haddr⟩ := hguarded.parsed kind height v hv
    have hone := hone addr
    -- both are messages of the one address
    have hmem : v ∈ (validatorsAt kind height (guardRun bech32 calls).accepted).filter
        (fun v => bech32.valAddressFromBech32 v = .ok addr) := by
      simp [hv, haddr]
    have hmem' : v' ∈ (validatorsAt kind height (guardRun bech32 calls).accepted).filter
        (fun v => bech32.valAddressFromBech32 v = .ok addr) := by
      simp [hv', ← hparse, haddr]
    exact eq_of_length_le_one hone hmem hmem'
  · intro halike addr
    -- the spellings are all different, and those of one address all equal
    have hnodup := (hguarded.nodup kind height).filter
      (fun v => bech32.valAddressFromBech32 v = .ok addr)
    have heq : ∀ v ∈ (validatorsAt kind height (guardRun bech32 calls).accepted).filter
          (fun v => bech32.valAddressFromBech32 v = .ok addr),
        ∀ v' ∈ (validatorsAt kind height (guardRun bech32 calls).accepted).filter
          (fun v => bech32.valAddressFromBech32 v = .ok addr), v = v' := by
      intro v hv v' hv'
      simp only [List.mem_filter, decide_eq_true_eq] at hv hv'
      exact halike v hv.1 v' hv'.1 (hv.2.trans hv'.2.symm)
    exact length_le_one_of_eq hnodup heq

/-- Only calls in `CheckTx` proper are accepted. -/
theorem mem_accepted {calls : List SpamCall} {r : GuardRun} {call : SpamCall}
    (h : call ∈ (calls.foldl (GuardRun.step bech32) r).accepted) :
    call ∈ r.accepted ∨ call ∈ calls.filter SpamCall.isFirstCheck := by
  induction calls generalizing r with
  | nil => exact Or.inl h
  | cons first rest ih =>
    rcases ih h with hmem | hmem
    · unfold GuardRun.step at hmem
      split at hmem
      · by_cases hfirst : first.isFirstCheck = true
        · simp only [if_pos hfirst] at hmem
          rcases List.mem_append.mp hmem with hmem | hmem
          · exact Or.inl hmem
          · rw [List.mem_singleton.mp hmem]
            exact Or.inr (List.mem_filter.mpr ⟨List.mem_cons_self, hfirst⟩)
        · simp only [if_neg hfirst] at hmem
          exact Or.inl hmem
      · exact Or.inl hmem
    · obtain ⟨hmem, hfirst⟩ := List.mem_filter.mp hmem
      exact Or.inr (List.mem_filter.mpr ⟨List.mem_cons_of_mem _ hmem, hfirst⟩)

/-- Fewer calls are spelled alike if more are. -/
theorem SpelledAlike.mono {calls calls' : List SpamCall} (h : SpelledAlike bech32 calls')
    (hsub : ∀ call ∈ calls, call ∈ calls') : SpelledAlike bech32 calls := by
  have hat : ∀ kind height, ∀ v ∈ validatorsAt kind height calls,
      v ∈ validatorsAt kind height calls' := by
    intro kind height v hv
    obtain ⟨call, hcall, hv⟩ := List.mem_flatMap.mp hv
    exact List.mem_flatMap.mpr ⟨call, hsub call hcall, hv⟩
  intro kind height v hv v' hv' heq
  exact h kind height v (hat kind height v hv) v' (hat kind height v' hv') heq

/-- A free prevote in `CheckTx`, whose feeder passes its check. -/
def freePrevote (feeder : String) (height : ℤ) (validator : String) : SpamCall where
  height := height
  isReCheckTx := false
  isCheckTx := true
  simulate := false
  validateFeeder := fun _ _ => .ok ()
  msgs := [.aggregateExchangeRatePrevote ⟨"", feeder, validator⟩]

/-- Such a prevote passes when its spelling is new at the height. -/
theorem step_freePrevote {feeder validator : String} {feederAddr : AccAddr} {addr : ValAddr}
    (hfeeder : bech32.accAddressFromBech32 feeder = .ok feederAddr)
    (hparse : bech32.valAddressFromBech32 validator = .ok addr) {height : ℤ} {r : GuardRun}
    (hnew : r.guard.lastSubmittedHeight .prevote validator ≠ some height) :
    r.step bech32 (freePrevote feeder height validator) =
      ⟨r.guard.record validator height .prevote,
        r.accepted ++ [freePrevote feeder height validator]⟩ := by
  have hcheck : checkFeeder bech32 (fun _ _ => .ok ()) feeder validator = .ok addr := by
    unfold checkFeeder
    rw [hfeeder, hparse]
    rfl
  have hwalk : checkOracleSpamming bech32 (fun _ _ => .ok ()) height r.guard
      (freePrevote feeder height validator).msgs =
        (r.guard.record validator height .prevote, .ok ()) := by
    simp only [freePrevote, checkOracleSpamming, submission, hcheck, if_neg hnew]
  unfold GuardRun.step SpamCall.anteHandle
  have hmode : (freePrevote feeder height validator).isFirstCheck = true := rfl
  simp only [hmode, if_true]
  show (match checkOracleSpamming bech32 (fun _ _ => .ok ()) height r.guard
    (freePrevote feeder height validator).msgs with | (g, .ok _) => _ | (g, .error _) => _) = _
  rw [hwalk]

/-- Two spellings of one operator get two free prevotes through at any height. -/
theorem two_spellings_pass {feeder v v' : String} {feederAddr : AccAddr} {addr : ValAddr}
    (hfeeder : bech32.accAddressFromBech32 feeder = .ok feederAddr) (hne : v ≠ v')
    (hv : bech32.valAddressFromBech32 v = .ok addr)
    (hv' : bech32.valAddressFromBech32 v' = .ok addr) (height : ℤ) :
    ¬ OnePerValidator bech32 (guardRun bech32
      [freePrevote feeder height v, freePrevote feeder height v']).accepted := by
  have hfirst : newSpammingPreventionDecorator.lastSubmittedHeight .prevote v ≠ some height := by
    intro h
    cases h
  have hsecond : (newSpammingPreventionDecorator.record v height .prevote).lastSubmittedHeight
      .prevote v' ≠ some height := by
    rw [lastSubmittedHeight_record, if_neg (fun h => hne h.2.symm)]
    intro h
    cases h
  have hrun : (guardRun bech32
      [freePrevote feeder height v, freePrevote feeder height v']).accepted =
        [freePrevote feeder height v, freePrevote feeder height v'] := by
    unfold guardRun
    rw [List.foldl_cons, List.foldl_cons, List.foldl_nil, step_freePrevote hfeeder hv hfirst,
      step_freePrevote hfeeder hv' hsecond]
    rfl
  have hat : validatorsAt .prevote height
      [freePrevote feeder height v, freePrevote feeder height v'] = [v, v'] := by
    simp [validatorsAt, validatorsOf, freePrevote, submission, isOracleTx]
  intro hone
  have hcount := hone .prevote height addr
  rw [hrun, hat] at hcount
  simp [hv, hv'] at hcount

/-- For every sequence of calls at heights that do not decrease the limit holds, if
    free messages of one kind and height that name the same operator spell it
    alike.  And if an operator has two spellings, there is a sequence of two calls
    that breaks it. -/
theorem one_per_validator_spelled_alike (bech32 : Bech32) :
    (∀ calls : List SpamCall,
      calls.Pairwise (fun call call' => call.height ≤ call'.height) →
      SpelledAlike bech32 (calls.filter SpamCall.isFirstCheck) →
      OnePerValidator bech32 (guardRun bech32 calls).accepted) ∧
    ∀ feeder feederAddr v v' addr, bech32.accAddressFromBech32 feeder = .ok feederAddr → v ≠ v' →
      bech32.valAddressFromBech32 v = .ok addr → bech32.valAddressFromBech32 v' = .ok addr →
      ∀ height, ¬ OnePerValidator bech32 (guardRun bech32
        [freePrevote feeder height v, freePrevote feeder height v']).accepted := by
  refine ⟨?_, ?_⟩
  · intro calls hmono halike
    apply (onePerValidator_iff_accepted bech32 hmono).mpr
    -- what was accepted is among the calls
    refine halike.mono (fun call hcall => ?_)
    rcases mem_accepted hcall with hnone | hcall
    · cases hnone
    · exact hcall
  · intro feeder feederAddr v v' addr hfeeder hne hv hv' height
    exact two_spellings_pass hfeeder hne hv hv' height

/-! ### A small mempool, for examples -/

/-- The codec of one operator, whose address may be written in either case. -/
def eitherCase : Bech32 where
  accAddressFromBech32 := fun s =>
    if s = "terra1vynex3pr" then .ok "a" else .error "decoding bech32 failed"
  valAddressFromBech32 := fun s =>
    if s = "terravaloper1vy3vsmy0" ∨ s = "TERRAVALOPER1VY3VSMY0" then .ok "a"
    else .error "decoding bech32 failed"
  accAddressString := fun _ => "terra1vynex3pr"
  valAddressString := fun _ => "terravaloper1vy3vsmy0"

/-- A prevote of the operator in a transaction of its own. -/
def prevoteAt : ℤ → String → SpamCall := freePrevote "terra1vynex3pr"

/-- Two prevotes at height 7 and one at height 8, spelled alike: the second is
    rejected. -/
def alikeCalls : List SpamCall :=
  [prevoteAt 7 "terravaloper1vy3vsmy0", prevoteAt 7 "terravaloper1vy3vsmy0",
    prevoteAt 8 "terravaloper1vy3vsmy0"]

theorem one_per_validator_alike :
    (guardRun eitherCase alikeCalls).accepted.length = 2 ∧
      OnePerValidator eitherCase (guardRun eitherCase alikeCalls).accepted := by
  refine ⟨by decide +kernel,
    (one_per_validator_spelled_alike eitherCase).1 alikeCalls (by decide) ?_⟩
  have hspelled : ∀ kind height, ∀ v ∈ validatorsAt kind height
      (alikeCalls.filter SpamCall.isFirstCheck), v = "terravaloper1vy3vsmy0" := by
    intro kind height v hv
    have hall : ∀ kind, (alikeCalls.filter SpamCall.isFirstCheck).all (fun call =>
        (validatorsOf kind call.msgs).all (fun v => v = "terravaloper1vy3vsmy0")) = true := by
      intro kind
      cases kind <;> decide +kernel
    obtain ⟨call, hcall, hv⟩ := List.mem_flatMap.mp hv
    split at hv
    · have := List.all_eq_true.mp (List.all_eq_true.mp (hall kind) call hcall) v hv
      exact of_decide_eq_true this
    · cases hv
  intro kind height v hv v' hv' _
  rw [hspelled kind height v hv, hspelled kind height v' hv']

/-- A prevote at height 7 in lower case, and one in upper case. -/
def twoCases : List SpamCall :=
  [prevoteAt 7 "terravaloper1vy3vsmy0", prevoteAt 7 "TERRAVALOPER1VY3VSMY0"]

/-- Both pass. -/
theorem one_per_validator_fails :
    twoCases.Pairwise (fun call call' => call.height ≤ call'.height) ∧
      (∀ call ∈ twoCases, call.isFirstCheck = true ∧ isOracleTx call.msgs = true) ∧
      ¬ OnePerValidator eitherCase (guardRun eitherCase twoCases).accepted := by
  refine ⟨by decide, by decide, ?_⟩
  intro hone
  have hcount := hone .prevote 7 "a"
  have htwo : (validatorsAt .prevote 7 (guardRun eitherCase twoCases).accepted).countP
      (fun v => eitherCase.valAddressFromBech32 v = .ok "a") = 2 := by decide +kernel
  omega

end TerraClassic.Ante
