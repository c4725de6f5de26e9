import TerraClassic.Dyncomm.Keeper

/-! # Transactions and the dyncomm decorators

    The ante decorator rejects a transaction with an edit below the stored
    minimum, the post decorator writes the operator's rate to the store as the
    new target.  Both look at the messages of the transaction itself and
    go into no `authz.MsgExec`, and both use the address as the message spells it.

    * `Sdk`: the message servers of staking and authz, which are not part of
      this repository.  They decide by a state `W` of their own; the fields that
      are propositions are the documented facts about the messages they accept.
    * `Choice`: a commission rate that a message sets.
    * `Effects`: all that a list of messages can do to the staking records, with
      the choices it makes.  Everything later is derived from `deliverTx_effects`.
-/

namespace TerraClassic.Dyncomm

/-! ### Messages -/

/-- `stakingtypes.MsgEditValidator`. -/
structure MsgEditValidator where
  validatorAddress : String
  description : String
  /-- `nil` leaves the commission as it is. -/
  commissionRate : Option Dec
  minSelfDelegation : Option ℤ
  deriving DecidableEq, Repr

/-- `stakingtypes.MsgCreateValidator`. -/
structure MsgCreateValidator where
  validatorAddress : String
  description : String
  rate : Dec
  maxRate : Dec
  maxChangeRate : Dec
  minSelfDelegation : ℤ
  pubkey : String
  value : Coin
  deriving DecidableEq, Repr

/-- A message: one of staking's two, a wrapper, or anything else. -/
inductive Msg where
  | editValidator (msg : MsgEditValidator)
  | createValidator (msg : MsgCreateValidator)
  | exec (grantee : AccAddr) (msgs : List Msg)
  | other (payload : String)

/-! ### The ante decorator -/

/-- `ErrUnauthorized`: "commission for the operator must be at least the minimum". -/
inductive AnteError where
  | unauthorized (operator : String) (dynMinRate : Dec)
  deriving DecidableEq, Repr

namespace Ante

/-- `ProcessEditValidator` of the ante decorator. -/
def processEditValidator (rates : Rates) (msg : MsgEditValidator) : Except AnteError Unit :=
  match msg.commissionRate with
  | none => .ok ()
  | some newIntendedRate =>
    let dynMinRate := getDynCommissionRate rates msg.validatorAddress
    if newIntendedRate < dynMinRate then .error (.unauthorized msg.validatorAddress dynMinRate)
    else .ok ()

/-- `FilterMsgsAndProcessMsgs` of the ante decorator. -/
def filterMsgsAndProcessMsgs (rates : Rates) : List Msg → Except AnteError Unit
  | [] => .ok ()
  | .editValidator msg :: rest => do
    processEditValidator rates msg
    filterMsgsAndProcessMsgs rates rest
  -- a `MsgExec` among them: what it carries is not looked at
  | _ :: rest => filterMsgsAndProcessMsgs rates rest

/-- `AnteHandle` of the ante decorator. -/
def anteHandle (rates : Rates) (simulate : Bool) (msgs : List Msg) : Except AnteError Unit :=
  if simulate then .ok () else filterMsgsAndProcessMsgs rates msgs

end Ante

/-! ### The post decorator -/

namespace Post

/-- `ProcessEditValidator` of the post decorator. -/
def processEditValidator (rates : Rates) (msg : MsgEditValidator) : Rates :=
  match msg.commissionRate with
  | none => rates
  | some newIntendedRate => setTargetCommissionRate rates msg.validatorAddress newIntendedRate

/-- `ProcessCreateValidator`. -/
def processCreateValidator (rates : Rates) (msg : MsgCreateValidator) : Rates :=
  setTargetCommissionRate rates msg.validatorAddress msg.rate

/-- `FilterMsgsAndProcessMsgs` of the post decorator. -/
def filterMsgsAndProcessMsgs (rates : Rates) (msgs : List Msg) : Rates :=
  msgs.foldl (fun rates msg =>
    match msg with
    | .editValidator msg => processEditValidator rates msg
    | .createValidator msg => processCreateValidator rates msg
    -- here too a `MsgExec` is passed over
    | _ => rates) rates

/-- `AnteHandle` of the post decorator. -/
def anteHandle (rates : Rates) (simulate isCheckTx : Bool) (msgs : List Msg) : Rates :=
  if simulate then rates
  else if isCheckTx then rates
  else filterMsgsAndProcessMsgs rates msgs

end Post

/-! ### The rest of the chain -/

/-- What other code does to the staking state. -/
inductive StakingChange where
  | tokens (v : ValAddr) (tokens : ℤ)
  | bonded (v : ValAddr) (bonded : Bool)
  | removed (v : ValAddr)
  | lastTotalPower (power : ℤ)
  | minCommissionRate (rate : Dec)
  | blockTime (time : ℤ)
  deriving DecidableEq, Repr

/-- Change one validator, if it is there. -/
def Staking.modify (st : Staking) (v : ValAddr) (f : Validator → Validator) : Staking :=
  match st.validators.get v with
  | some val => { st with validators := st.validators.set v (f val) }
  | none => st

/-- Staking's own parameter check keeps its minimum rate between zero and one. -/
def Staking.apply (st : Staking) : StakingChange → Staking
  | .tokens v tokens => st.modify v (fun val => { val with tokens := tokens })
  | .bonded v bonded => st.modify v (fun val => { val with bonded := bonded })
  | .removed v => { st with validators := st.validators.erase v }
  | .lastTotalPower power => { st with lastTotalPower := power }
  | .minCommissionRate rate =>
    if 0 ≤ rate.i ∧ rate ≤ Dec.one then { st with minCommissionRate := rate } else st
  | .blockTime time => { st with blockTime := time }

/-- What was parsed can be written and parsed again. -/
def RoundTrip (bech32 : Bech32) : Prop :=
  ∀ address v, bech32.valAddressFromBech32 address = .ok v →
    bech32.valAddressFromBech32 (bech32.valAddressString v) = .ok v

/-- The code around dyncomm, with a state `W` of its own.  Each function returns
    the new state of that code, or `none` if it refuses. -/
structure Sdk (W : Type) where
  bech32 : Bech32
  /-- Staking's checks of an edit of a validator. -/
  editValidator : Staking → W → Validator → MsgEditValidator → Option W
  /-- Staking's checks of a new validator. -/
  createValidator : Staking → W → MsgCreateValidator → Option W
  /-- Whether authz lets a grantee send a message for its signer. -/
  accept : Staking → W → AccAddr → Msg → Option W
  /-- Every other message. -/
  other : Staking → W → String → Option (W × List StakingChange)
  codec : RoundTrip bech32
  edit_le_maxRate : ∀ {st w val msg w' rate}, editValidator st w val msg = some w' →
    msg.commissionRate = some rate → rate ≤ val.commission.maxRate
  create_bounds : ∀ {st w msg w'}, createValidator st w msg = some w' →
    0 ≤ msg.rate.i ∧ msg.rate ≤ msg.maxRate ∧ msg.maxRate ≤ Dec.one

variable {W : Type}

/-! ### Executing messages -/

/-- Staking's `EditValidator`. -/
def editValidator (sdk : Sdk W) (st : Staking) (w : W) (msg : MsgEditValidator) :
    Option (Staking × W) := do
  let v ← (sdk.bech32.valAddressFromBech32 msg.validatorAddress).toOption
  let val ← st.validators.get v
  let w ← sdk.editValidator st w val msg
  match msg.commissionRate with
  | none => return (st, w)
  | some rate =>
    let commission := { val.commission with rate := rate, updateTime := st.blockTime }
    return ({ st with
      validators := st.validators.set v { val with commission := commission } }, w)

/-- Staking's `CreateValidator`. -/
def createValidator (sdk : Sdk W) (st : Staking) (w : W) (msg : MsgCreateValidator) :
    Option (Staking × W) := do
  let v ← (sdk.bech32.valAddressFromBech32 msg.validatorAddress).toOption
  match st.validators.get v with
  | some _ => none
  | none =>
    let w ← sdk.createValidator st w msg
    let commission := ⟨msg.rate, msg.maxRate, msg.maxChangeRate, st.blockTime⟩
    return ({ st with
      -- a new validator is not bonded before the end of the block
      validators := st.validators.set v ⟨msg.value.amount, false, commission⟩ }, w)

mutual

/-- The handler of a message. -/
def execMsg (sdk : Sdk W) (s : Staking × W) : Msg → Option (Staking × W)
  | .editValidator msg => editValidator sdk s.1 s.2 msg
  | .createValidator msg => createValidator sdk s.1 s.2 msg
  | .exec grantee msgs => dispatchActions sdk grantee s msgs
  | .other payload => do
    let (w, changes) ← sdk.other s.1 s.2 payload
    return (changes.foldl Staking.apply s.1, w)

/-- Authz's `DispatchActions`. -/
def dispatchActions (sdk : Sdk W) (grantee : AccAddr) (s : Staking × W) :
    List Msg → Option (Staking × W)
  | [] => some s
  | msg :: rest => do
    let w ← sdk.accept s.1 s.2 grantee msg
    let s ← execMsg sdk (s.1, w) msg
    dispatchActions sdk grantee s rest

end

/-- The whole chain. -/
structure Chain (W : Type) where
  state : State
  world : W
  deriving DecidableEq

/-- A transaction in a block: the ante decorator, the messages in order, the post
    decorator.  `none` when one of them fails; nothing is written then. -/
def deliverTx (sdk : Sdk W) (c : Chain W) (tx : List Msg) : Option (Chain W) :=
  match Ante.anteHandle c.state.rates false tx with
  | .error _ => none
  | .ok () => do
    let (staking, world) ← tx.foldlM (execMsg sdk) (c.state.staking, c.world)
    -- no message writes to the records, so these are the ones the ante decorator read
    let rates := Post.anteHandle c.state.rates false false tx
    return ⟨{ c.state with staking := staking, rates := rates }, world⟩

/-! ### The rates that messages set -/

/-- A commission rate set by a message.  A create also sets the maximum rate. -/
structure Choice where
  spelling : String
  rate : Dec
  maxRate : Option Dec
  topLevel : Bool
  deriving DecidableEq, Repr

mutual

/-- The choices of a message, in the order they are executed. -/
def choicesOf (topLevel : Bool) : Msg → List Choice
  | .editValidator msg =>
    match msg.commissionRate with
    | some rate => [⟨msg.validatorAddress, rate, none, topLevel⟩]
    | none => []
  | .createValidator msg => [⟨msg.validatorAddress, msg.rate, some msg.maxRate, topLevel⟩]
  | .exec _ msgs => choicesInside msgs
  | .other _ => []

/-- The choices inside a `MsgExec`. -/
def choicesInside : List Msg → List Choice
  | [] => []
  | msg :: rest => choicesOf false msg ++ choicesInside rest

end

/-- The choices of a transaction. -/
def choices (tx : List Msg) : List Choice := tx.flatMap (choicesOf true)

/-- The choice is about the validator `v`. -/
def Choice.isFor (bech32 : Bech32) (v : ValAddr) (c : Choice) : Bool :=
  bech32.valAddressFromBech32 c.spelling = .ok v

/-- The decorators see the choice under the validator's own address string. -/
def Choice.Seen (bech32 : Bech32) (v : ValAddr) (c : Choice) : Prop :=
  c.topLevel = true ∧ c.spelling = bech32.valAddressString v

instance (bech32 : Bech32) (v : ValAddr) (c : Choice) : Decidable (c.Seen bech32 v) :=
  inferInstanceAs (Decidable (_ ∧ _))

/-- The last choice for a validator. -/
def lastChoice (bech32 : Bech32) (v : ValAddr) (cs : List Choice) : Option Choice :=
  cs.reverse.find? (Choice.isFor bech32 v)

end TerraClassic.Dyncomm
