import TerraClassic.Ante.Fee
import TerraClassic.Market.Swap

/-! # Messages that contracts dispatch

    A contract's message comes to `CustomMessenger` (`wasmbinding`), which takes
    the Terra messages `swap` and `swap_send` to the market itself and leaves
    every other message to the handler chain of `custom/wasm/keeper`.  There
    `SDKMessageHandler` encodes it into messages of the SDK, and for each of
    them takes the tax from the contract and runs its handler.

    The encoders, the router and the handlers are those of the SDK and of wasmd;
    they are parameters, as is the part of the state that only they know.
-/

namespace TerraClassic.Wasm

open Ante (Msg)

/-! ### State and keepers -/

/-- The part of the state that taxes and swaps touch, and all the rest. -/
structure State (W : Type) where
  bank : BankState
  taxProceeds : Coins
  terraPoolDelta : Dec
  world : W

/-- `bindings.Swap`. -/
structure Swap where
  offerCoin : Coin
  askDenom : Denom
  deriving DecidableEq, Repr

/-- `bindings.SwapSend`. -/
structure SwapSend where
  toAddress : String
  offerCoin : Coin
  askDenom : Denom
  deriving DecidableEq, Repr

/-- `bindings.TerraMsg`. -/
structure TerraMsg where
  swap : Option Swap
  swapSend : Option SwapSend
  deriving DecidableEq, Repr

/-- `wasmvmtypes.CosmosMsg`: a custom message is JSON, the others belong to wasmd. -/
inductive CosmosMsg (ω : Type) where
  | custom (json : String)
  | wasm (msg : ω)

/-- What a dispatch can fail with. -/
inductive WasmError where
  | unknownMsg
  | unsupportedRequest (kind : String)
  | terraMsg (err : String)
  | market (context : List String) (err : Market.MarketError)
  | plain (err : String)
  | tax (err : Ante.FeeError)
  | unauthorized (text : String)
  | unknownRequest
  | panicked
  deriving DecidableEq, Repr

/-- The keepers of the handlers, and what they call of the SDK and of wasmd. -/
structure Keepers (W ω : Type) where
  ante : State W → Ante.Keepers
  market : State W → Market.Keeper
  bech32 : Bech32
  /-- `json.Unmarshal`. -/
  unmarshal : String → Except String TerraMsg
  /-- `Encode` of the message encoders. -/
  encode : State W → AccAddr → ω → Except WasmError (List Msg)
  validateBasic : Msg → Except String Unit
  getSigners : Msg → List AccAddr
  /-- `router.Handler(msg)`. -/
  router : Msg → Option (State W → Except String (State W))
  /-- The raw IBC packet handler and the burn handler, behind the SDK handler. -/
  rawHandlers : State W → AccAddr → ω → Except WasmError (State W)

variable {W ω : Type}

/-- A message of the SDK that a contract ran: the state it was taxed in, and the
    state its handler started from. -/
structure Taxing (W : Type) where
  msg : Msg
  before : State W
  after : State W

/-! ### The SDK message handler -/

/-- The tax in `SDKMessageHandler.DispatchMsg`: from the contract to the fee
    collector.  A contract without an account makes `DeductFees` panic. -/
def chargeTax (k : Keepers W ω) (s : State W) (contractAddr : AccAddr) (msg : Msg) :
    Except WasmError (State W) :=
  match Ante.filterMsgAndComputeTax (k.ante s).treasury [msg] with
  | none => .error .panicked
  | some taxes =>
    if taxes.isZero then .ok s
    else if !(k.ante s).accountExists contractAddr then .error .panicked
    else do
      let bank ← (Ante.deductFees (k.ante s) s.bank contractAddr
        (Ante.coinsList taxes)).mapError .tax
      return { s with bank := bank }

/-- `handleSdkMessage`. -/
def handleSdkMessage (k : Keepers W ω) (s : State W) (contractAddr : AccAddr) (msg : Msg) :
    Except WasmError (State W) := do
  (k.validateBasic msg).mapError .plain
  -- a contract signs for itself only
  if (k.getSigners msg).any (fun acct => acct ≠ contractAddr) then
    throw (.unauthorized "contract doesn't have permission")
  match k.router msg with
  | some handler => (handler s).mapError .plain
  | none => throw .unknownRequest

/-- One message of the loop in `SDKMessageHandler.DispatchMsg`. -/
def dispatchSdkMsg (k : Keepers W ω) (contractAddr : AccAddr)
    (acc : State W × List (Taxing W)) (msg : Msg) :
    Except WasmError (State W × List (Taxing W)) := do
  let charged ← chargeTax k acc.1 contractAddr msg
  let s ← handleSdkMessage k charged contractAddr msg
  return (s, acc.2 ++ [⟨msg, acc.1, charged⟩])

/-- The handler chain: a message that the encoders do not know goes on to the
    raw handlers. -/
def dispatchWasmMsg (k : Keepers W ω) (s : State W) (contractAddr : AccAddr) (msg : ω) :
    Except WasmError (State W × List (Taxing W)) :=
  match k.encode s contractAddr msg with
  | .error .unknownMsg => (k.rawHandlers s contractAddr msg).map (fun s => (s, []))
  | .error err => .error err
  | .ok sdkMsgs => sdkMsgs.foldlM (dispatchSdkMsg k contractAddr) (s, [])

/-! ### The custom messenger -/

/-- `MsgSwap`, which `FilterMsgAndComputeTax` has no case for. -/
def swapTypeURL : String := "/terra.market.v1beta1.MsgSwap"

/-- `PerformSwap`. -/
def performSwap (k : Keepers W ω) (s : State W) (contractAddr : AccAddr) (msg : Swap) :
    Except WasmError (State W) := do
  let msgSwap : Market.MsgSwap :=
    ⟨k.bech32.accAddressString contractAddr, msg.offerCoin, msg.askDenom⟩
  (msgSwap.validateBasic k.bech32).mapError (.market ["failed validating MsgSwap"])
  let (m, _) ← (Market.swap k.bech32 (k.market s) ⟨s.terraPoolDelta, s.bank⟩ msgSwap).mapError
    (.market ["swapping"])
  return { s with bank := m.bank, terraPoolDelta := m.terraPoolDelta }

/-- The `MsgSwapSend` of a `swap_send`. -/
def msgSwapSend (k : Keepers W ω) (contractAddr toAddr : AccAddr) (msg : SwapSend) :
    Market.MsgSwapSend :=
  ⟨k.bech32.accAddressString contractAddr, k.bech32.accAddressString toAddr, msg.offerCoin,
    msg.askDenom⟩

/-- `PerformSwapSend`, with the message it ran. -/
def performSwapSend (k : Keepers W ω) (s : State W) (contractAddr : AccAddr) (msg : SwapSend) :
    Except WasmError (State W × Market.MsgSwapSend) := do
  let toAddr ← (k.bech32.accAddressFromBech32 msg.toAddress).mapError .plain
  let msgSwapSend := msgSwapSend k contractAddr toAddr msg
  (msgSwapSend.validateBasic k.bech32).mapError (.market ["failed validating MsgSwapSend"])
  let (m, _) ← (Market.swapSend k.bech32 (k.market s) ⟨s.terraPoolDelta, s.bank⟩
    msgSwapSend).mapError (.market ["swapping and sending"])
  return ({ s with bank := m.bank, terraPoolDelta := m.terraPoolDelta }, msgSwapSend)

/-- The error of a custom message, with the two wraps around it. -/
def wrapSwap (context : String) : WasmError → WasmError
  | .market inner err => .market ("swap msg failed" :: context :: inner) err
  | err => err

/-- `CustomMessenger.DispatchMsg`: the state after, and the messages of the SDK
    that were run with the states around their tax. -/
def dispatchMsg (k : Keepers W ω) (s : State W) (contractAddr : AccAddr) :
    CosmosMsg ω → Except WasmError (State W × List (Taxing W))
  | .custom json =>
    match k.unmarshal json with
    | .error err => .error (.terraMsg err)
    | .ok contractMsg =>
      match contractMsg.swap, contractMsg.swapSend with
      -- the market is called directly: no tax is taken, the state around it is the same
      | some swap, _ => do
        let s' ← (performSwap k s contractAddr swap).mapError (wrapSwap "perform swap")
        return (s', [⟨.other swapTypeURL, s, s⟩])
      | none, some swapSend => do
        let (s', msg) ← (performSwapSend k s contractAddr swapSend).mapError
          (wrapSwap "perform swap send")
        return (s', [⟨.swapSend msg, s, s⟩])
      -- JSON with neither of the two fields
      | none, none => .error (.unsupportedRequest "unknown terra msg variant")
  | .wasm msg => dispatchWasmMsg k s contractAddr msg

end TerraClassic.Wasm
