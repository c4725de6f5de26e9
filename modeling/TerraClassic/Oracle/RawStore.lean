import TerraClassic.Oracle.Params
import Mathlib.Data.List.Lex

/-! # The oracle's key-value store, byte by byte

    The keeper functions of `keeper.go` over one map from byte strings to values.
    Six families of keys share the map, told apart by their first byte; denoms follow
    it as they are, addresses with their length in front.  An iterator gets the denom
    or the address back by slicing the key.

    Values are kept as the messages that the protobuf codec writes and reads; a value
    of another message does not unmarshal, which panics.  A panic is `none`.
-/

namespace TerraClassic.Oracle.Raw

/-! ### Bytes and addresses -/

abbrev Byte : Type := Fin 256

instance Byte.neZero : NeZero 256 := ⟨by decide⟩

/-- A byte string: a Go string, or a slice of bytes. -/
abbrev Bytes : Type := List Byte

/-- The bytes of a string constant or of a text field. -/
def utf8 (s : String) : Bytes := s.toUTF8.data.toList.map (fun b => ⟨b.toNat, b.toNat_lt⟩)

theorem utf8_injective : Function.Injective utf8 := by
  intro s t h
  unfold utf8 at h
  have hbytes : s.toUTF8.data.toList = t.toUTF8.data.toList := by
    refine List.map_injective_iff.mpr ?_ h
    intro b c hbc
    exact UInt8.toNat_inj.mp (congrArg Fin.val hbc)
  apply String.toByteArray_inj.mp
  exact ByteArray.ext (Array.toList_inj.mp hbytes)

/-- `VerifyAddressFormat`: one to 255 bytes. -/
def IsAddress (bz : Bytes) : Prop := 1 ≤ bz.length ∧ bz.length ≤ 255

instance (bz : Bytes) : Decidable (IsAddress bz) := inferInstanceAs (Decidable (_ ∧ _))

/-- The bech32 codec.  What it decodes passes `VerifyAddressFormat`, and what it
    encodes it decodes again. -/
structure AddressCodec where
  accAddressFromBech32 : String → Except String Bytes
  valAddressFromBech32 : String → Except String Bytes
  accAddressString : Bytes → String
  valAddressString : Bytes → String
  acc_isAddress : ∀ {s bz}, accAddressFromBech32 s = .ok bz → IsAddress bz
  val_isAddress : ∀ {s bz}, valAddressFromBech32 s = .ok bz → IsAddress bz
  acc_roundTrip : ∀ {bz}, IsAddress bz → accAddressFromBech32 (accAddressString bz) = .ok bz
  val_roundTrip : ∀ {bz}, IsAddress bz → valAddressFromBech32 (valAddressString bz) = .ok bz

/-! ### Keys -/

/-- `address.MustLengthPrefix`. -/
def mustLengthPrefix (bz : Bytes) : Option Bytes :=
  -- an empty address gets no length byte
  if bz.length = 0 then some bz
  else if bz.length > 255 then none
  else some (Fin.ofNat 256 bz.length :: bz)

/-- `GetExchangeRateKey`. -/
def getExchangeRateKey (denom : Bytes) : Bytes := 0x01 :: denom

/-- `GetFeederDelegationKey`. -/
def getFeederDelegationKey (v : Bytes) : Option Bytes := (mustLengthPrefix v).map (0x02 :: ·)

/-- `GetMissCounterKey`. -/
def getMissCounterKey (v : Bytes) : Option Bytes := (mustLengthPrefix v).map (0x03 :: ·)

/-- `GetAggregateExchangeRatePrevoteKey`. -/
def getAggregateExchangeRatePrevoteKey (v : Bytes) : Option Bytes :=
  (mustLengthPrefix v).map (0x04 :: ·)

/-- `GetAggregateExchangeRateVoteKey`. -/
def getAggregateExchangeRateVoteKey (v : Bytes) : Option Bytes :=
  (mustLengthPrefix v).map (0x05 :: ·)

/-- `GetTobinTaxKey`. -/
def getTobinTaxKey (d : Bytes) : Bytes := 0x06 :: d

/-- `key[n:]`, which panics on a shorter key. -/
def sliceFrom (n : ℕ) (key : Bytes) : Option Bytes :=
  if n ≤ key.length then some (key.drop n) else none

/-! ### Values -/

/-- `types.AggregateExchangeRatePrevote` as it is stored. -/
structure AggregateExchangeRatePrevote where
  hash : String
  voter : String
  submitBlock : UInt64
  deriving DecidableEq

/-- `types.AggregateExchangeRateVote` as it is stored. -/
structure AggregateExchangeRateVote where
  exchangeRateTuples : List ExchangeRateTuple
  voter : String
  deriving DecidableEq

/-- The messages of the store. -/
inductive Value where
  /-- `sdk.DecProto`. -/
  | dec (d : Dec)
  /-- The bytes of an address. -/
  | address (bz : Bytes)
  /-- `gogotypes.UInt64Value`. -/
  | uint64 (n : UInt64)
  | prevote (p : AggregateExchangeRatePrevote)
  | vote (v : AggregateExchangeRateVote)
  deriving DecidableEq

def Value.asDec : Value → Option Dec
  | .dec d => some d
  | _ => none

def Value.asAddress : Value → Option Bytes
  | .address bz => some bz
  | _ => none

def Value.asUint64 : Value → Option UInt64
  | .uint64 n => some n
  | _ => none

def Value.asPrevote : Value → Option AggregateExchangeRatePrevote
  | .prevote p => some p
  | _ => none

def Value.asVote : Value → Option AggregateExchangeRateVote
  | .vote v => some v
  | _ => none

/-! ### The keeper -/

/-- The key-value store of the oracle. -/
abbrev KVStore : Type := SortedMap Bytes Value

/-- `sdk.KVStorePrefixIterator` for a prefix of one byte. -/
def prefixIterator (kv : KVStore) (first : Byte) : List (Bytes × Value) :=
  kv.entries.filter (fun e => e.1.head? = some first)

/-- The iterators: slice each key and unmarshal each value under a prefix. -/
def iterate {V : Type} (first : Byte) (offset : ℕ) (unmarshal : Value → Option V) (kv : KVStore) :
    Option (List (Bytes × V)) :=
  -- the callbacks of `ExportGenesis` never ask to stop
  (prefixIterator kv first).mapM (fun e => do
    let key ← sliceFrom offset e.1
    let value ← unmarshal e.2
    return (key, value))

/-- `IterateLunaExchangeRates`. -/
def iterateLunaExchangeRates : KVStore → Option (List (Bytes × Dec)) := iterate 0x01 1 Value.asDec

/-- `IterateFeederDelegations`. -/
def iterateFeederDelegations : KVStore → Option (List (Bytes × Bytes)) :=
  iterate 0x02 2 Value.asAddress

/-- `IterateMissCounters`. -/
def iterateMissCounters : KVStore → Option (List (Bytes × UInt64)) :=
  iterate 0x03 2 Value.asUint64

/-- `IterateAggregateExchangeRatePrevotes`. -/
def iterateAggregateExchangeRatePrevotes :
    KVStore → Option (List (Bytes × AggregateExchangeRatePrevote)) :=
  iterate 0x04 2 Value.asPrevote

/-- `IterateAggregateExchangeRateVotes`. -/
def iterateAggregateExchangeRateVotes :
    KVStore → Option (List (Bytes × AggregateExchangeRateVote)) :=
  iterate 0x05 2 Value.asVote

/-- `IterateTobinTaxes`; `ExtractDenomFromTobinTaxKey` slices off the first byte. -/
def iterateTobinTaxes : KVStore → Option (List (Bytes × Dec)) := iterate 0x06 1 Value.asDec

/-- `SetLunaExchangeRate`. -/
def setLunaExchangeRate (kv : KVStore) (denom : Bytes) (exchangeRate : Dec) : KVStore :=
  kv.set (getExchangeRateKey denom) (.dec exchangeRate)

/-- `DeleteLunaExchangeRate`. -/
def deleteLunaExchangeRate (kv : KVStore) (denom : Bytes) : KVStore :=
  kv.erase (getExchangeRateKey denom)

/-- `SetFeederDelegation`. -/
def setFeederDelegation (kv : KVStore) (operator delegatedFeeder : Bytes) : Option KVStore := do
  let key ← getFeederDelegationKey operator
  return kv.set key (.address delegatedFeeder)

/-- `SetMissCounter`. -/
def setMissCounter (kv : KVStore) (operator : Bytes) (missCounter : UInt64) : Option KVStore := do
  let key ← getMissCounterKey operator
  return kv.set key (.uint64 missCounter)

/-- `DeleteMissCounter`. -/
def deleteMissCounter (kv : KVStore) (operator : Bytes) : Option KVStore := do
  let key ← getMissCounterKey operator
  return kv.erase key

/-- `SetAggregateExchangeRatePrevote`. -/
def setAggregateExchangeRatePrevote (kv : KVStore) (voter : Bytes)
    (prevote : AggregateExchangeRatePrevote) : Option KVStore := do
  let key ← getAggregateExchangeRatePrevoteKey voter
  return kv.set key (.prevote prevote)

/-- `DeleteAggregateExchangeRatePrevote`. -/
def deleteAggregateExchangeRatePrevote (kv : KVStore) (voter : Bytes) : Option KVStore := do
  let key ← getAggregateExchangeRatePrevoteKey voter
  return kv.erase key

/-- `SetAggregateExchangeRateVote`. -/
def setAggregateExchangeRateVote (kv : KVStore) (voter : Bytes)
    (vote : AggregateExchangeRateVote) : Option KVStore := do
  let key ← getAggregateExchangeRateVoteKey voter
  return kv.set key (.vote vote)

/-- `DeleteAggregateExchangeRateVote`. -/
def deleteAggregateExchangeRateVote (kv : KVStore) (voter : Bytes) : Option KVStore := do
  let key ← getAggregateExchangeRateVoteKey voter
  return kv.erase key

/-- `SetTobinTax`. -/
def setTobinTax (kv : KVStore) (denom : Bytes) (tobinTax : Dec) : KVStore :=
  kv.set (getTobinTaxKey denom) (.dec tobinTax)

/-- `ClearTobinTaxes`. -/
def clearTobinTaxes (kv : KVStore) : KVStore :=
  (prefixIterator kv 0x06).foldl (fun kv e => kv.erase e.1) kv

end TerraClassic.Oracle.Raw
