import TerraClassic.Ante.Fee

/-! # The minimum initial deposit of a proposal

    `MinInitialDepositDecorator` of `custom/auth/ante/min_initial_deposit.go`: a
    governance proposal starts with at least the share `MinInitialDepositRatio` of
    the first coin of `MinDeposit`, in `uluna`.

    The decorator looks at the messages of the transaction itself.  A proposal may
    also come inside an `authz.MsgExec`, to any depth, and there nobody looks at
    its deposit; `FilterMsgAndComputeTax`, which faces the same trees, goes into
    them.

    `min_deposit_iff`: in a transaction that is accepted every proposal has the
    deposit exactly when those inside of its `MsgExec`s do.
-/

namespace TerraClassic.Ante.MinInitialDeposit

open SdkError (orPanic orPanic_eq_ok)

/-! ### The coins of a deposit -/

/-- `Coins.Find`: a binary search, whatever the order of the coins is. -/
def findCoin (denom : Denom) (coins : List Coin) : Option Coin :=
  match h : coins[coins.length / 2]? with
  | none => none
  | some coin =>
    if denom < coin.denom then findCoin denom (coins.take (coins.length / 2))
    else if denom = coin.denom then some coin
    else findCoin denom (coins.drop (coins.length / 2 + 1))
termination_by coins.length
decreasing_by
  all_goals
    obtain ⟨hlt, _⟩ := List.getElem?_eq_some_iff.mp h
    simp only [List.length_take, List.length_drop]
    omega

/-- `Coins.AmountOf`. -/
def amountOf (coins : List Coin) (denom : Denom) : ℤ :=
  ((findCoin denom coins).map Coin.amount).getD 0

/-- `Coins.IsAllGTE`. -/
def isAllGTE (coins coinsB : List Coin) : Bool :=
  if coinsB.length = 0 then true
  else if coins.length = 0 then false
  else coinsB.all (fun coinB => !(amountOf coins coinB.denom < coinB.amount))

/-! ### The decorator -/

/-- The messages that the decorator tells apart, and `authz.MsgExec`. -/
inductive GovMsg where
  | submitProposalV1beta1 (initialDeposit : List Coin)
  | submitProposalV1 (initialDeposit : List Coin)
  | exec (msgs : List GovMsg)
  | other (typeURL : String)

/-- What the decorator reads of governance and of the treasury. -/
structure DepositParams where
  minDeposit : List Coin
  minInitialDepositRatio : Dec

/-- The registered errors the decorator returns. -/
inductive DepositErrorKind where
  | unauthorized
  deriving DecidableEq, Repr

abbrev DepositError : Type := SdkError DepositErrorKind

/-- `IsMsgSubmitProposal`. -/
def isMsgSubmitProposal : GovMsg → Bool
  | .submitProposalV1beta1 _ => true
  | .submitProposalV1 _ => true
  | _ => false

/-- `GetInitialDeposit` of the two proposals. -/
def getInitialDeposit : GovMsg → Option (List Coin)
  | .submitProposalV1beta1 initialDeposit => some initialDeposit
  | .submitProposalV1 initialDeposit => some initialDeposit
  | _ => none

/-- The required amount.  Without a minimum deposit the index panics, and so does
    a product out of its bit bound. -/
def requiredAmount (p : DepositParams) : Option ℤ := do
  let first ← p.minDeposit.head?
  let product ← (Dec.ofInt first.amount).mul p.minInitialDepositRatio
  return product.truncateInt

/-- The text of the rejection. -/
def notEnough (required got : List Coin) : String :=
  "not enough initial deposit provided. Expected \"" ++ coinsString required ++
    "\"; got \"" ++ coinsString got ++ "\""

/-- `HandleCheckMinInitialDeposit`. -/
def handleCheckMinInitialDeposit (p : DepositParams) (msg : GovMsg) : Except DepositError Unit :=
  match getInitialDeposit msg with
  | none => .error (.plain "could not dereference msg as MsgSubmitProposal")
  | some initialDepositCoins => do
    let requiredAmount ← orPanic (requiredAmount p)
    let coin ← orPanic (Coins.newCoin microLunaDenom requiredAmount)
    -- `NewCoins` drops a zero coin, and then nothing is required
    let requiredDepositCoins := coinsList (Coins.ofCoin coin.denom coin.amount)
    if !isAllGTE initialDepositCoins requiredDepositCoins then
      .error (.plain (notEnough requiredDepositCoins initialDepositCoins))
    else .ok ()

/-- `Wrapf(ErrUnauthorized, ..)` of an error; a panic goes through. -/
def wrapUnauthorized : DepositError → DepositError
  | .plain text => .wrap .unauthorized text
  | err => err

/-- The loop of `AnteHandle`. -/
def checkMsgs (p : DepositParams) : List GovMsg → Except DepositError Unit
  | [] => .ok ()
  | msg :: rest =>
    -- a `MsgExec` is skipped with what it carries
    if !isMsgSubmitProposal msg then checkMsgs p rest
    else do
      (handleCheckMinInitialDeposit p msg).mapError wrapUnauthorized
      checkMsgs p rest

/-- `AnteHandle` up to the call of the next decorator. -/
def anteHandle (p : DepositParams) (simulate : Bool) (msgs : List GovMsg) :
    Except DepositError Unit :=
  if simulate then .ok () else checkMsgs p msgs

/-! ### What a transaction carries -/

mutual

/-- The deposits of the proposals of a message, at any depth. -/
def carried : GovMsg → List (List Coin)
  | .submitProposalV1beta1 initialDeposit => [initialDeposit]
  | .submitProposalV1 initialDeposit => [initialDeposit]
  | .exec msgs => carriedAll msgs
  | .other _ => []

/-- The deposits of the proposals of a list of messages. -/
def carriedAll : List GovMsg → List (List Coin)
  | [] => []
  | msg :: rest => carried msg ++ carriedAll rest

end

/-- The deposits of the proposals inside of the `MsgExec`s of a transaction. -/
def carriedInExec : List GovMsg → List (List Coin)
  | [] => []
  | .exec msgs :: rest => carriedAll msgs ++ carriedInExec rest
  | _ :: rest => carriedInExec rest

/-- The deposit holds the required amount of `uluna`. -/
def Suffices (p : DepositParams) (deposit : List Coin) : Prop :=
  ∀ required, requiredAmount p = some required → required ≤ feeAmount deposit microLunaDenom

/-! ### The search in a valid deposit -/

section

variable {coins : List Coin}

/-- The coins around the one in the middle. -/
theorem split_at {m : ℕ} {coin : Coin} (h : coins[m]? = some coin) :
    coins = coins.take m ++ coin :: coins.drop (m + 1) := by
  obtain ⟨hlt, rfl⟩ := List.getElem?_eq_some_iff.mp h
  rw [← List.drop_eq_getElem_cons hlt, List.take_append_drop]

/-- In a sorted list nothing before a coin has its denom or a later one. -/
theorem find?_before {before after : List Coin} {coin : Coin} {denom : Denom}
    (hsorted : (before ++ coin :: after).Pairwise (fun coin coin' => coin.denom < coin'.denom))
    (hle : coin.denom ≤ denom) : before.find? (fun c => c.denom = denom) = none := by
  obtain ⟨_, _, hlt⟩ := List.pairwise_append.mp hsorted
  rw [List.find?_eq_none]
  intro c hc
  simpa using ((hlt c hc coin List.mem_cons_self).trans_le hle).ne

/-- Nor has anything from a coin on an earlier one. -/
theorem find?_from {before after : List Coin} {coin : Coin} {denom : Denom}
    (hsorted : (before ++ coin :: after).Pairwise (fun coin coin' => coin.denom < coin'.denom))
    (hlt : denom < coin.denom) : (coin :: after).find? (fun c => c.denom = denom) = none := by
  obtain ⟨_, hafter, _⟩ := List.pairwise_append.mp hsorted
  rw [List.find?_eq_none]
  intro c hc
  have hle : coin.denom ≤ c.denom := by
    rcases List.mem_cons.mp hc with rfl | hc
    · exact le_rfl
    · exact ((List.pairwise_cons.mp hafter).1 c hc).le
  simpa using (hlt.trans_le hle).ne'

/-- In a sorted list the search finds what is there. -/
theorem findCoin_of_sorted {denom : Denom}
    (hsorted : coins.Pairwise (fun coin coin' => coin.denom < coin'.denom)) :
    findCoin denom coins = coins.find? (fun coin => coin.denom = denom) := by
  fun_induction findCoin denom coins with
  | case1 coins hnone =>
    have hlen : coins.length = 0 := by
      have := List.getElem?_eq_none_iff.mp hnone
      omega
    rw [List.length_eq_zero_iff.mp hlen]
    rfl
  | case2 coins coin hget hlt ih =>
    have hsplit := split_at hget
    rw [hsplit] at hsorted
    rw [ih (List.pairwise_append.mp hsorted).1]
    conv_rhs => rw [hsplit]
    rw [List.find?_append, find?_from hsorted hlt, Option.or_none]
  | case3 coins coin hget hnlt heq =>
    have hsplit := split_at hget
    rw [hsplit] at hsorted
    conv_rhs => rw [hsplit]
    rw [List.find?_append, find?_before hsorted heq.ge, Option.none_or, List.find?_cons_of_pos]
    exact decide_eq_true heq.symm
  | case4 coins coin hget hnlt hne ih =>
    have hsplit := split_at hget
    rw [hsplit] at hsorted
    have hgt : coin.denom < denom := lt_of_le_of_ne (not_lt.mp hnlt) (Ne.symm hne)
    rw [ih (List.pairwise_cons.mp (List.pairwise_append.mp hsorted).2.1).2]
    conv_rhs => rw [hsplit]
    rw [List.find?_append, find?_before hsorted hgt.le, Option.none_or, List.find?_cons_of_neg]
    simpa using hgt.ne

/-- The amount of a denom in a sorted list is that of the one coin that has it. -/
theorem feeAmount_of_sorted (denom : Denom)
    (hsorted : coins.Pairwise (fun coin coin' => coin.denom < coin'.denom)) :
    feeAmount coins denom =
      ((coins.find? (fun coin => coin.denom = denom)).map Coin.amount).getD 0 := by
  induction coins with
  | nil => rfl
  | cons coin rest ih =>
    obtain ⟨hfirst, hrest⟩ := List.pairwise_cons.mp hsorted
    unfold feeAmount at ih ⊢
    by_cases hdenom : coin.denom = denom
    · have hnone : rest.filter (fun c => c.denom = denom) = [] := by
        rw [List.filter_eq_nil_iff]
        intro c hc
        simpa using (hdenom ▸ hfirst c hc).ne'
      simp [hdenom, hnone]
    · simp only [hdenom, decide_false, Bool.false_eq_true, not_false_eq_true,
        List.filter_cons_of_neg, List.find?_cons_of_neg]
      exact ih hrest

variable {validDenom : Denom → Bool}

theorem amountOf_of_valid (hvalid : feeIsValid validDenom coins = true) (denom : Denom) :
    amountOf coins denom = feeAmount coins denom := by
  unfold feeIsValid at hvalid
  have hsorted := of_decide_eq_true ((Bool.and_eq_true _ _).mp hvalid).2
  unfold amountOf
  rw [findCoin_of_sorted hsorted, feeAmount_of_sorted denom hsorted]

theorem feeAmount_nonneg (hvalid : feeIsValid validDenom coins = true) (denom : Denom) :
    0 ≤ feeAmount coins denom := by
  unfold feeIsValid at hvalid
  have hpos := List.all_eq_true.mp ((Bool.and_eq_true _ _).mp hvalid).1
  apply List.sum_nonneg
  intro amount hamount
  obtain ⟨coin, hcoin, rfl⟩ := List.mem_map.mp hamount
  have := hpos coin (List.mem_of_mem_filter hcoin)
  exact (of_decide_eq_true ((Bool.and_eq_true _ _).mp this).2).le

end

/-! ### The check -/

section

variable {p : DepositParams} {validDenom : Denom → Bool} {msg : GovMsg} {msgs : List GovMsg}

/-- `IsAllGTE` against the one required coin, for a valid deposit. -/
theorem isAllGTE_required {deposit : List Coin} (hvalid : feeIsValid validDenom deposit = true)
    {required : ℤ} (hnonneg : 0 ≤ required) :
    isAllGTE deposit (coinsList (Coins.ofCoin microLunaDenom required)) = true ↔
      required ≤ feeAmount deposit microLunaDenom := by
  unfold isAllGTE
  by_cases hzero : required = 0
  · have hempty : coinsList (Coins.ofCoin microLunaDenom required) = [] := by
      unfold Coins.ofCoin
      rw [if_pos hzero]
      rfl
    rw [hempty, hzero]
    exact ⟨fun _ => feeAmount_nonneg hvalid _, fun _ => rfl⟩
  · have hone : coinsList (Coins.ofCoin microLunaDenom required) =
        [⟨microLunaDenom, required⟩] := by
      unfold Coins.ofCoin
      rw [if_neg hzero]
      rfl
    rw [hone, if_neg (by simp)]
    by_cases hlen : deposit.length = 0
    · rw [if_pos hlen, List.length_eq_zero_iff.mp hlen]
      constructor
      · intro h
        cases h
      · intro h
        exact absurd (le_antisymm h hnonneg) hzero
    · rw [if_neg hlen]
      simp [amountOf_of_valid hvalid]

/-- A proposal with a valid deposit passes when the required amount exists, is a
    coin, and is there. -/
theorem handleCheckMinInitialDeposit_ok_iff {deposit : List Coin}
    (hdeposit : getInitialDeposit msg = some deposit)
    (hvalid : feeIsValid validDenom deposit = true) :
    handleCheckMinInitialDeposit p msg = .ok () ↔
      ∃ required, requiredAmount p = some required ∧ 0 ≤ required ∧
        required ≤ feeAmount deposit microLunaDenom := by
  have hdenom : Coins.validateDenom microLunaDenom = true := by decide +kernel
  unfold handleCheckMinInitialDeposit
  simp only [hdeposit]
  constructor
  · intro h
    obtain ⟨required, hrequired, h⟩ := Run.bind_eq_ok.mp h
    obtain ⟨coin, hcoin, h⟩ := Run.bind_eq_ok.mp h
    have hcoin := orPanic_eq_ok.mp hcoin
    unfold Coins.newCoin at hcoin
    split at hcoin
    · next hnew =>
      cases hcoin
      refine ⟨required, orPanic_eq_ok.mp hrequired, hnew.2, ?_⟩
      split at h
      · cases h
      · next hall =>
        rw [← isAllGTE_required hvalid hnew.2]
        simpa using hall
    · cases hcoin
  · rintro ⟨required, hrequired, hnonneg, hle⟩
    have hall := (isAllGTE_required hvalid hnonneg).mpr hle
    rw [hrequired]
    show (orPanic (Coins.newCoin microLunaDenom required) >>= _) = _
    unfold Coins.newCoin
    rw [if_pos ⟨hdenom, hnonneg⟩]
    show (if (!isAllGTE deposit (coinsList (Coins.ofCoin microLunaDenom required))) = true
      then _ else _) = _
    rw [hall]
    rfl

/-- The loop passes when every proposal of the transaction itself does. -/
theorem checkMsgs_ok_iff :
    checkMsgs p msgs = .ok () ↔ ∀ msg ∈ msgs, isMsgSubmitProposal msg = true →
      handleCheckMinInitialDeposit p msg = .ok () := by
  induction msgs with
  | nil => exact ⟨fun _ => nofun, fun _ => rfl⟩
  | cons msg rest ih =>
    rw [List.forall_mem_cons, ← ih, checkMsgs]
    cases hproposal : isMsgSubmitProposal msg with
    | false => simp
    | true =>
      simp only [Bool.not_true, Bool.false_eq_true, if_false, forall_const]
      constructor
      · intro h
        obtain ⟨_, hfirst, hrest⟩ := Run.bind_eq_ok.mp h
        exact ⟨SdkError.mapError_eq_ok.mp hfirst, hrest⟩
      · rintro ⟨hfirst, hrest⟩
        exact Run.bind_eq_ok.mpr ⟨(), SdkError.mapError_eq_ok.mpr hfirst, hrest⟩

/-- What a transaction carries is in a proposal of its own or in a `MsgExec`. -/
theorem mem_carriedAll {deposit : List Coin} :
    deposit ∈ carriedAll msgs ↔
      (∃ msg ∈ msgs, getInitialDeposit msg = some deposit) ∨ deposit ∈ carriedInExec msgs := by
  induction msgs with
  | nil => simp [carriedAll, carriedInExec]
  | cons msg rest ih =>
    rw [carriedAll, List.mem_append, ih]
    cases msg with
    | submitProposalV1beta1 initialDeposit =>
      simp [carried, carriedInExec, getInitialDeposit, or_assoc, eq_comm]
    | submitProposalV1 initialDeposit =>
      simp [carried, carriedInExec, getInitialDeposit, or_assoc, eq_comm]
    | exec inner => simp [carried, carriedInExec, getInitialDeposit, or_left_comm]
    | other typeURL => simp [carried, carriedInExec, getInitialDeposit]

theorem isMsgSubmitProposal_of_deposit {deposit : List Coin}
    (h : getInitialDeposit msg = some deposit) : isMsgSubmitProposal msg = true := by
  cases msg with
  | submitProposalV1beta1 initialDeposit => rfl
  | submitProposalV1 initialDeposit => rfl
  | exec inner => cases h
  | other typeURL => cases h

end

/-- The proposals of the transaction itself have passed `ValidateBasic`: their deposits
    are valid coins. -/
def ValidDeposits (validDenom : Denom → Bool) (msgs : List GovMsg) : Prop :=
  ∀ msg ∈ msgs, ∀ deposit, getInitialDeposit msg = some deposit →
    feeIsValid validDenom deposit = true

/-- For every transaction that is accepted outside of simulation: all the proposals
    it carries, at any depth, have the deposit exactly when those inside of its
    `MsgExec`s do. -/
theorem min_deposit_iff (p : DepositParams) (validDenom : Denom → Bool) (msgs : List GovMsg)
    (hvalid : ValidDeposits validDenom msgs) (haccepted : anteHandle p false msgs = .ok ()) :
    (∀ deposit ∈ carriedAll msgs, Suffices p deposit) ↔
      ∀ deposit ∈ carriedInExec msgs, Suffices p deposit := by
  constructor
  · intro h deposit hmem
    exact h deposit (mem_carriedAll.mpr (Or.inr hmem))
  · intro h deposit hmem
    rcases mem_carriedAll.mp hmem with ⟨msg, hmsg, hdeposit⟩ | hmem
    · -- a proposal of the transaction itself was checked
      have hchecked := checkMsgs_ok_iff.mp haccepted msg hmsg
        (isMsgSubmitProposal_of_deposit hdeposit)
      obtain ⟨required, hrequired, _, hle⟩ :=
        (handleCheckMinInitialDeposit_ok_iff hdeposit (hvalid msg hmsg deposit hdeposit)).mp
          hchecked
      intro required' hrequired'
      rw [hrequired] at hrequired'
      obtain rfl := Option.some.inj hrequired'
      exact hle
    · exact h deposit hmem

/-! ### A fifth of a million -/

/-- A minimum deposit of a million, a fifth of which comes with the proposal. -/
def fifthOfMillion : DepositParams where
  minDeposit := [⟨"uluna", 1000000⟩]
  minInitialDepositRatio := Dec.withPrec 2 1

theorem min_deposit_two_levels :
    let msgs : List GovMsg := [.submitProposalV1beta1 [⟨"uluna", 200000⟩],
      .exec [.other "/cosmos.bank.v1beta1.MsgSend",
        .exec [.submitProposalV1 [⟨"uluna", 300000⟩, ⟨"uusd", 1⟩]]]]
    anteHandle fifthOfMillion false msgs = .ok () ∧
      ∀ deposit ∈ carriedAll msgs, Suffices fifthOfMillion deposit := by
  intro msgs
  have hrequired : requiredAmount fifthOfMillion = some 200000 := by decide +kernel
  have hvalid : ValidDeposits Coins.validateDenom msgs := by
    intro msg hmsg deposit hdeposit
    simp only [msgs, List.mem_cons, List.not_mem_nil, or_false] at hmsg
    rcases hmsg with rfl | rfl
    · cases hdeposit
      decide +kernel
    · cases hdeposit
  have haccepted : anteHandle fifthOfMillion false msgs = .ok () := by
    refine checkMsgs_ok_iff.mpr (fun msg hmsg hproposal => ?_)
    simp only [msgs, List.mem_cons, List.not_mem_nil, or_false] at hmsg
    rcases hmsg with rfl | rfl
    · refine (handleCheckMinInitialDeposit_ok_iff rfl (hvalid _ List.mem_cons_self _ rfl)).mpr ?_
      exact ⟨200000, hrequired, by decide, by decide +kernel⟩
    · cases hproposal
  refine ⟨haccepted, (min_deposit_iff fifthOfMillion Coins.validateDenom msgs hvalid haccepted).mpr
    ?_⟩
  intro deposit hmem required hsome
  rw [hrequired] at hsome
  obtain rfl := Option.some.inj hsome
  have hdeposit : deposit = [⟨"uluna", 300000⟩, ⟨"uusd", 1⟩] := by
    simpa [msgs, carriedInExec, carriedAll, carried] using hmem
  rw [hdeposit]
  decide +kernel

/-- Half of the required deposit is rejected in a transaction and accepted in a
    `MsgExec`. -/
theorem exec_carries_half :
    let proposal : GovMsg := .submitProposalV1 [⟨"uluna", 100000⟩]
    requiredAmount fifthOfMillion = some 200000 ∧
      anteHandle fifthOfMillion false [proposal] ≠ .ok () ∧
      anteHandle fifthOfMillion false [.exec [proposal]] = .ok () ∧
      ¬ ∀ deposit ∈ carriedAll [.exec [proposal]], Suffices fifthOfMillion deposit := by
  intro proposal
  have hrequired : requiredAmount fifthOfMillion = some 200000 := by decide +kernel
  refine ⟨hrequired, ?_, rfl, ?_⟩
  · intro haccepted
    have hchecked := checkMsgs_ok_iff.mp haccepted proposal List.mem_cons_self rfl
    have hvalid : feeIsValid Coins.validateDenom [⟨"uluna", 100000⟩] = true := by decide +kernel
    obtain ⟨required, hsome, _, hle⟩ := (handleCheckMinInitialDeposit_ok_iff rfl hvalid).mp hchecked
    rw [hrequired] at hsome
    obtain rfl := Option.some.inj hsome
    revert hle
    decide +kernel
  · intro h
    have hle := h [⟨"uluna", 100000⟩] (by simp [carriedAll, carried, proposal]) 200000 hrequired
    revert hle
    decide +kernel

end TerraClassic.Ante.MinInitialDeposit
