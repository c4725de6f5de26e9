import TerraClassic.Lib.Reorder
import TerraClassic.Oracle.RawStore

/-! # Export and import of the oracle

    `ExportGenesis` iterates over the six families of keys; `InitGenesis` writes what
    it finds in the file under keys that it makes again: from the denom, from the
    parsed address text, and for prevotes and votes from the parsed `Voter` of the
    value itself.  In every reachable store each entry is written back under its own
    key (`EntryOk`), so the store is rebuilt entry by entry.

    A state is reachable if keeper writes lead to it from `InitGenesis` of any file.
    All writes of the handlers and the end blocker are among them.
-/

namespace TerraClassic.Oracle.Raw

/-! ### The genesis file -/

/-- `types.FeederDelegation`. -/
structure FeederDelegation where
  feederAddress : String
  validatorAddress : String
  deriving DecidableEq

/-- `types.MissCounter`. -/
structure MissCounter where
  validatorAddress : String
  missCounter : UInt64
  deriving DecidableEq

/-- `types.GenesisState`.  Exchange rates and tobin taxes are pairs with the denom. -/
structure GenesisState where
  params : Params
  feederDelegations : List FeederDelegation
  exchangeRates : List (Bytes × Dec)
  missCounters : List MissCounter
  aggregateExchangeRatePrevotes : List AggregateExchangeRatePrevote
  aggregateExchangeRateVotes : List AggregateExchangeRateVote
  tobinTaxes : List (Bytes × Dec)
  deriving DecidableEq

/-- The module's state: its store, and its parameters in the parameter store. -/
structure State where
  kv : KVStore
  params : Params
  deriving DecidableEq

/-- `ExportGenesis`. -/
def exportGenesis (codec : AddressCodec) (s : State) : Option GenesisState := do
  let feederDelegations ← iterateFeederDelegations s.kv
  let exchangeRates ← iterateLunaExchangeRates s.kv
  let missCounters ← iterateMissCounters s.kv
  let prevotes ← iterateAggregateExchangeRatePrevotes s.kv
  let votes ← iterateAggregateExchangeRateVotes s.kv
  let tobinTaxes ← iterateTobinTaxes s.kv
  return {
    params := s.params
    feederDelegations := feederDelegations.map (fun e =>
      ⟨codec.accAddressString e.2, codec.valAddressString e.1⟩)
    exchangeRates := exchangeRates
    missCounters := missCounters.map (fun e => ⟨codec.valAddressString e.1, e.2⟩)
    -- the address in the key is not written
    aggregateExchangeRatePrevotes := prevotes.map Prod.snd
    aggregateExchangeRateVotes := votes.map Prod.snd
    tobinTaxes := tobinTaxes }

/-- One round of the loops of `InitGenesis`, for each list of the file. -/
def importFeederDelegation (codec : AddressCodec) (kv : KVStore) (d : FeederDelegation) :
    Option KVStore := do
  let voter ← (codec.valAddressFromBech32 d.validatorAddress).toOption
  let feeder ← (codec.accAddressFromBech32 d.feederAddress).toOption
  setFeederDelegation kv voter feeder

def importExchangeRate (kv : KVStore) (ex : Bytes × Dec) : Option KVStore :=
  some (setLunaExchangeRate kv ex.1 ex.2)

def importMissCounter (codec : AddressCodec) (kv : KVStore) (mc : MissCounter) :
    Option KVStore := do
  let operator ← (codec.valAddressFromBech32 mc.validatorAddress).toOption
  setMissCounter kv operator mc.missCounter

def importPrevote (codec : AddressCodec) (kv : KVStore) (ap : AggregateExchangeRatePrevote) :
    Option KVStore := do
  let valAddr ← (codec.valAddressFromBech32 ap.voter).toOption
  setAggregateExchangeRatePrevote kv valAddr ap

def importVote (codec : AddressCodec) (kv : KVStore) (av : AggregateExchangeRateVote) :
    Option KVStore := do
  let valAddr ← (codec.valAddressFromBech32 av.voter).toOption
  setAggregateExchangeRateVote kv valAddr av

def importTobinTax (kv : KVStore) (tt : Bytes × Dec) : Option KVStore :=
  some (setTobinTax kv tt.1 tt.2)

/-- The tobin taxes of the file, or those of the whitelist when it has none. -/
def genesisTobinTaxes (data : GenesisState) : List (Bytes × Dec) :=
  if data.tobinTaxes.length > 0 then data.tobinTaxes
  else data.params.whitelist.map (fun item => (utf8 item.name, item.tobinTax))

/-- `InitGenesis` on an empty store.  `SetParams` panics on a value that its validator
    refuses; the module account exists, as `NewKeeper` has checked. -/
def initGenesis (codec : AddressCodec) (data : GenesisState) : Option State := do
  let kv ← data.feederDelegations.foldlM (importFeederDelegation codec) ∅
  let kv ← data.exchangeRates.foldlM importExchangeRate kv
  let kv ← data.missCounters.foldlM (importMissCounter codec) kv
  let kv ← data.aggregateExchangeRatePrevotes.foldlM (importPrevote codec) kv
  let kv ← data.aggregateExchangeRateVotes.foldlM (importVote codec) kv
  let kv ← (genesisTobinTaxes data).foldlM importTobinTax kv
  match data.params.checkPairs with
  | .error _ => none
  | .ok () => return ⟨kv, data.params⟩

/-! ### Entries that are written back under their own key -/

/-- The key of an address in a family. -/
def addressKey (first : Byte) (v : Bytes) : Bytes := first :: Fin.ofNat 256 v.length :: v

/-- What the entries of a reachable store look like. -/
inductive EntryOk (codec : AddressCodec) : Bytes → Value → Prop where
  | exchangeRate (denom : Bytes) (rate : Dec) : EntryOk codec (getExchangeRateKey denom) (.dec rate)
  | feederDelegation {v feeder : Bytes} (hv : IsAddress v) (hfeeder : IsAddress feeder) :
      EntryOk codec (addressKey 0x02 v) (.address feeder)
  | missCounter {v : Bytes} (hv : IsAddress v) (n : UInt64) :
      EntryOk codec (addressKey 0x03 v) (.uint64 n)
  | prevote {v : Bytes} {p : AggregateExchangeRatePrevote}
      (hvoter : codec.valAddressFromBech32 p.voter = .ok v) :
      EntryOk codec (addressKey 0x04 v) (.prevote p)
  | vote {v : Bytes} {w : AggregateExchangeRateVote}
      (hvoter : codec.valAddressFromBech32 w.voter = .ok v) :
      EntryOk codec (addressKey 0x05 v) (.vote w)
  | tobinTax (denom : Bytes) (tax : Dec) : EntryOk codec (getTobinTaxKey denom) (.dec tax)

/-- Every entry of the store is one of these. -/
def EntriesOk (codec : AddressCodec) (kv : KVStore) : Prop :=
  ∀ key value, kv.get key = some value → EntryOk codec key value

theorem mustLengthPrefix_of_isAddress {v : Bytes} (hv : IsAddress v) :
    mustLengthPrefix v = some (Fin.ofNat 256 v.length :: v) := by
  obtain ⟨hmin, hmax⟩ := hv
  unfold mustLengthPrefix
  rw [if_neg (by omega), if_neg (by omega)]

theorem EntriesOk.set {codec : AddressCodec} {kv : KVStore} (h : EntriesOk codec kv) {key : Bytes}
    {value : Value} (hentry : EntryOk codec key value) : EntriesOk codec (kv.set key value) := by
  intro key' value' hget
  rw [SortedMap.get_set] at hget
  split at hget
  · next heq =>
    cases hget
    exact heq ▸ hentry
  · exact h key' value' hget

theorem EntriesOk.erase {codec : AddressCodec} {kv : KVStore} (h : EntriesOk codec kv)
    (key : Bytes) : EntriesOk codec (kv.erase key) := by
  intro key' value' hget
  rw [SortedMap.get_erase] at hget
  split at hget
  · cases hget
  · exact h key' value' hget

theorem entriesOk_empty (codec : AddressCodec) : EntriesOk codec ∅ := by
  intro key value hget
  cases hget

/-! ### The writes of the keeper -/

section Writes

variable {codec : AddressCodec} {kv kv' : KVStore}

-- with addresses in the allowed range the keys are never refused

theorem setFeederDelegation_of_isAddress {v : Bytes} (hv : IsAddress v) (feeder : Bytes) :
    setFeederDelegation kv v feeder = some (kv.set (addressKey 0x02 v) (.address feeder)) := by
  unfold setFeederDelegation getFeederDelegationKey
  rw [mustLengthPrefix_of_isAddress hv]
  rfl

theorem setMissCounter_of_isAddress {v : Bytes} (hv : IsAddress v) (n : UInt64) :
    setMissCounter kv v n = some (kv.set (addressKey 0x03 v) (.uint64 n)) := by
  unfold setMissCounter getMissCounterKey
  rw [mustLengthPrefix_of_isAddress hv]
  rfl

theorem setPrevote_of_isAddress {v : Bytes} (hv : IsAddress v) (p : AggregateExchangeRatePrevote) :
    setAggregateExchangeRatePrevote kv v p = some (kv.set (addressKey 0x04 v) (.prevote p)) := by
  unfold setAggregateExchangeRatePrevote getAggregateExchangeRatePrevoteKey
  rw [mustLengthPrefix_of_isAddress hv]
  rfl

theorem setVote_of_isAddress {v : Bytes} (hv : IsAddress v) (w : AggregateExchangeRateVote) :
    setAggregateExchangeRateVote kv v w = some (kv.set (addressKey 0x05 v) (.vote w)) := by
  unfold setAggregateExchangeRateVote getAggregateExchangeRateVoteKey
  rw [mustLengthPrefix_of_isAddress hv]
  rfl

theorem entriesOk_setFeederDelegation (h : EntriesOk codec kv) {v feeder : Bytes}
    (hv : IsAddress v) (hfeeder : IsAddress feeder)
    (hset : setFeederDelegation kv v feeder = some kv') : EntriesOk codec kv' := by
  rw [setFeederDelegation_of_isAddress hv] at hset
  cases hset
  exact h.set (.feederDelegation hv hfeeder)

theorem entriesOk_setMissCounter (h : EntriesOk codec kv) {v : Bytes} {n : UInt64}
    (hv : IsAddress v) (hset : setMissCounter kv v n = some kv') : EntriesOk codec kv' := by
  rw [setMissCounter_of_isAddress hv] at hset
  cases hset
  exact h.set (.missCounter hv n)

theorem entriesOk_setPrevote (h : EntriesOk codec kv) {v : Bytes}
    {p : AggregateExchangeRatePrevote} (hvoter : codec.valAddressFromBech32 p.voter = .ok v)
    (hset : setAggregateExchangeRatePrevote kv v p = some kv') : EntriesOk codec kv' := by
  rw [setPrevote_of_isAddress (codec.val_isAddress hvoter)] at hset
  cases hset
  exact h.set (.prevote hvoter)

theorem entriesOk_setVote (h : EntriesOk codec kv) {v : Bytes} {w : AggregateExchangeRateVote}
    (hvoter : codec.valAddressFromBech32 w.voter = .ok v)
    (hset : setAggregateExchangeRateVote kv v w = some kv') : EntriesOk codec kv' := by
  rw [setVote_of_isAddress (codec.val_isAddress hvoter)] at hset
  cases hset
  exact h.set (.vote hvoter)

theorem entriesOk_clearTobinTaxes (h : EntriesOk codec kv) :
    EntriesOk codec (clearTobinTaxes kv) := by
  unfold clearTobinTaxes
  generalize prefixIterator kv 0x06 = l
  induction l generalizing kv with
  | nil => exact h
  | cons e rest ih => exact ih (h.erase e.1)

end Writes

/-! ### Runs of writes -/

/-- A write, with the arguments that the handlers and the end blocker pass on: addresses
    are parsed from texts, and a new prevote or vote has the text of its address as
    `Voter`. -/
inductive Write where
  | exchangeRate (denom : Bytes) (rate : Dec)
  | deleteExchangeRate (denom : Bytes)
  | feederDelegation (operator delegate : String)
  | missCounter (operator : String) (missCounter : UInt64)
  | deleteMissCounter (operator : Bytes)
  | prevote (validator hash : String) (submitBlock : UInt64)
  | deletePrevote (voter : Bytes)
  | vote (validator : String) (tuples : List ExchangeRateTuple)
  | deleteVote (voter : Bytes)
  | tobinTax (denom : Bytes) (tobinTax : Dec)
  | clearTobinTaxes
  | param (change : ParamChange)

/-- The new store; `none` when an address does not parse. -/
def writeStore (codec : AddressCodec) (kv : KVStore) : Write → Option KVStore
  | .exchangeRate denom rate => some (setLunaExchangeRate kv denom rate)
  | .deleteExchangeRate denom => some (deleteLunaExchangeRate kv denom)
  | .feederDelegation operator delegate => do
    let operatorAddr ← (codec.valAddressFromBech32 operator).toOption
    let delegateAddr ← (codec.accAddressFromBech32 delegate).toOption
    setFeederDelegation kv operatorAddr delegateAddr
  | .missCounter operator missCounter => do
    let operatorAddr ← (codec.valAddressFromBech32 operator).toOption
    setMissCounter kv operatorAddr missCounter
  | .deleteMissCounter operator => deleteMissCounter kv operator
  | .prevote validator hash submitBlock => do
    let valAddr ← (codec.valAddressFromBech32 validator).toOption
    setAggregateExchangeRatePrevote kv valAddr ⟨hash, codec.valAddressString valAddr, submitBlock⟩
  | .deletePrevote voter => deleteAggregateExchangeRatePrevote kv voter
  | .vote validator tuples => do
    let valAddr ← (codec.valAddressFromBech32 validator).toOption
    setAggregateExchangeRateVote kv valAddr ⟨tuples, codec.valAddressString valAddr⟩
  | .deleteVote voter => deleteAggregateExchangeRateVote kv voter
  | .tobinTax denom tobinTax => some (setTobinTax kv denom tobinTax)
  | .clearTobinTaxes => some (clearTobinTaxes kv)
  | .param _ => some kv

def write (codec : AddressCodec) (s : State) (w : Write) : Option State := do
  let kv ← writeStore codec s.kv w
  match w with
  | .param change =>
    let params ← s.params.update change
    return ⟨kv, params⟩
  | _ => return { s with kv := kv }

theorem entriesOk_writeStore {codec : AddressCodec} {kv kv' : KVStore} {w : Write}
    (h : writeStore codec kv w = some kv') (hkv : EntriesOk codec kv) : EntriesOk codec kv' := by
  cases w with
  | exchangeRate denom rate =>
    cases h
    exact hkv.set (.exchangeRate denom rate)
  | deleteExchangeRate denom =>
    cases h
    exact hkv.erase _
  | feederDelegation operator delegate =>
    obtain ⟨v, hv, h⟩ := Option.bind_eq_some_iff.mp h
    obtain ⟨feeder, hfeeder, h⟩ := Option.bind_eq_some_iff.mp h
    exact entriesOk_setFeederDelegation hkv (codec.val_isAddress (Run.eq_ok_of_toOption hv))
      (codec.acc_isAddress (Run.eq_ok_of_toOption hfeeder)) h
  | missCounter operator missCounter =>
    obtain ⟨v, hv, h⟩ := Option.bind_eq_some_iff.mp h
    exact entriesOk_setMissCounter hkv (codec.val_isAddress (Run.eq_ok_of_toOption hv)) h
  | deleteMissCounter operator =>
    obtain ⟨key, _, h⟩ := Option.bind_eq_some_iff.mp h
    cases h
    exact hkv.erase key
  | prevote validator hash submitBlock =>
    obtain ⟨v, hv, h⟩ := Option.bind_eq_some_iff.mp h
    exact entriesOk_setPrevote hkv
      (codec.val_roundTrip (codec.val_isAddress (Run.eq_ok_of_toOption hv))) h
  | deletePrevote voter =>
    obtain ⟨key, _, h⟩ := Option.bind_eq_some_iff.mp h
    cases h
    exact hkv.erase key
  | vote validator tuples =>
    obtain ⟨v, hv, h⟩ := Option.bind_eq_some_iff.mp h
    exact entriesOk_setVote hkv
      (codec.val_roundTrip (codec.val_isAddress (Run.eq_ok_of_toOption hv))) h
  | deleteVote voter =>
    obtain ⟨key, _, h⟩ := Option.bind_eq_some_iff.mp h
    cases h
    exact hkv.erase key
  | tobinTax denom tobinTax =>
    cases h
    exact hkv.set (.tobinTax denom tobinTax)
  | clearTobinTaxes =>
    cases h
    exact entriesOk_clearTobinTaxes hkv
  | param change =>
    cases h
    exact hkv

/-- The invariant of reachable states. -/
structure Reachable (codec : AddressCodec) (s : State) : Prop where
  entries : EntriesOk codec s.kv
  params : s.params.checkPairs = .ok ()

theorem reachable_write {codec : AddressCodec} {s s' : State} {w : Write}
    (h : write codec s w = some s') (hs : Reachable codec s) : Reachable codec s' := by
  obtain ⟨kv, hkv, h⟩ := Option.bind_eq_some_iff.mp h
  have hentries := entriesOk_writeStore hkv hs.entries
  cases w with
  | param change =>
    obtain ⟨params, hupdate, h⟩ := Option.bind_eq_some_iff.mp h
    cases h
    exact ⟨hentries, update_checkPairs hupdate hs.params⟩
  | _ =>
    cases h
    exact ⟨hentries, hs.params⟩

theorem reachable_initGenesis {codec : AddressCodec} {data : GenesisState} {s : State}
    (h : initGenesis codec data = some s) : Reachable codec s := by
  unfold initGenesis at h
  obtain ⟨kv₁, h₁, h⟩ := Option.bind_eq_some_iff.mp h
  obtain ⟨kv₂, h₂, h⟩ := Option.bind_eq_some_iff.mp h
  obtain ⟨kv₃, h₃, h⟩ := Option.bind_eq_some_iff.mp h
  obtain ⟨kv₄, h₄, h⟩ := Option.bind_eq_some_iff.mp h
  obtain ⟨kv₅, h₅, h⟩ := Option.bind_eq_some_iff.mp h
  obtain ⟨kv₆, h₆, h⟩ := Option.bind_eq_some_iff.mp h
  -- the invariant goes through the six loops, one after another
  have hok₁ : EntriesOk codec kv₁ := by
    refine Run.run_invariant ?_ h₁ (entriesOk_empty codec)
    intro kv d kv' hd hkv
    obtain ⟨v, hv, hd⟩ := Option.bind_eq_some_iff.mp hd
    obtain ⟨feeder, hfeeder, hd⟩ := Option.bind_eq_some_iff.mp hd
    exact entriesOk_setFeederDelegation hkv (codec.val_isAddress (Run.eq_ok_of_toOption hv))
      (codec.acc_isAddress (Run.eq_ok_of_toOption hfeeder)) hd
  have hok₂ : EntriesOk codec kv₂ := by
    refine Run.run_invariant ?_ h₂ hok₁
    intro kv ex kv' hex hkv
    cases hex
    exact hkv.set (.exchangeRate ex.1 ex.2)
  have hok₃ : EntriesOk codec kv₃ := by
    refine Run.run_invariant ?_ h₃ hok₂
    intro kv mc kv' hmc hkv
    obtain ⟨v, hv, hmc⟩ := Option.bind_eq_some_iff.mp hmc
    exact entriesOk_setMissCounter hkv (codec.val_isAddress (Run.eq_ok_of_toOption hv)) hmc
  have hok₄ : EntriesOk codec kv₄ := by
    refine Run.run_invariant ?_ h₄ hok₃
    intro kv ap kv' hap hkv
    obtain ⟨v, hv, hap⟩ := Option.bind_eq_some_iff.mp hap
    -- the key is parsed from the `Voter` of the file, whatever text that is
    exact entriesOk_setPrevote hkv (Run.eq_ok_of_toOption hv) hap
  have hok₅ : EntriesOk codec kv₅ := by
    refine Run.run_invariant ?_ h₅ hok₄
    intro kv av kv' hav hkv
    obtain ⟨v, hv, hav⟩ := Option.bind_eq_some_iff.mp hav
    exact entriesOk_setVote hkv (Run.eq_ok_of_toOption hv) hav
  have hok₆ : EntriesOk codec kv₆ := by
    refine Run.run_invariant ?_ h₆ hok₅
    intro kv tt kv' htt hkv
    cases htt
    exact hkv.set (.tobinTax tt.1 tt.2)
  split at h
  · cases h
  · next hparams =>
    cases h
    exact ⟨hok₆, hparams⟩

/-! ### The round trip -/

section RoundTrip

variable {codec : AddressCodec} {kv : KVStore}

theorem mem_prefixIterator (hkv : EntriesOk codec kv) {first : Byte} {e : Bytes × Value}
    (he : e ∈ prefixIterator kv first) : EntryOk codec e.1 e.2 ∧ e.1.head? = some first := by
  obtain ⟨hmem, hfirst⟩ := List.mem_filter.mp he
  exact ⟨hkv e.1 e.2 (SortedMap.mem_entries.mp hmem), by simpa using hfirst⟩

/-- The entries of a family, written again. -/
def writeFamily (kv acc : KVStore) (first : Byte) : KVStore :=
  (prefixIterator kv first).foldl (fun acc e => acc.set e.1 e.2) acc

/-- A family whose entries are each written back under their own key: the list of the
    file, imported, writes the family again. -/
theorem export_import_family {V ι : Type} {first : Byte} {offset : ℕ}
    {unmarshal : Value → Option V} {toFile : Bytes × V → ι} {load : KVStore → ι → Option KVStore}
    (h : ∀ e ∈ prefixIterator kv first, ∃ key value, sliceFrom offset e.1 = some key ∧
      unmarshal e.2 = some value ∧ ∀ acc, load acc (toFile (key, value)) = some (acc.set e.1 e.2))
    (acc : KVStore) :
    ∃ items, iterate first offset unmarshal kv = some items ∧
      (items.map toFile).foldlM load acc = some (writeFamily kv acc first) := by
  simp only [List.foldlM_map]
  apply Reorder.mapM_foldlM_eq
  intro e he
  obtain ⟨key, value, hkey, hvalue, hload⟩ := h e he
  refine ⟨(key, value), ?_, hload⟩
  rw [hkey, hvalue]
  rfl

theorem sliceFrom_addressKey (first : Byte) (v : Bytes) :
    sliceFrom 2 (addressKey first v) = some v := by
  unfold sliceFrom addressKey
  rw [if_pos (by simp)]
  rfl

theorem sliceFrom_denomKey (first : Byte) (denom : Bytes) :
    sliceFrom 1 (first :: denom) = some denom := by
  unfold sliceFrom
  rw [if_pos (by simp)]
  rfl

theorem feederDelegation_family (hkv : EntriesOk codec kv) (acc : KVStore) :
    ∃ items, iterateFeederDelegations kv = some items ∧
      (items.map (fun e => (⟨codec.accAddressString e.2, codec.valAddressString e.1⟩ :
        FeederDelegation))).foldlM (importFeederDelegation codec) acc =
        some (writeFamily kv acc 0x02) := by
  apply export_import_family
  rintro ⟨key, value⟩ he
  obtain ⟨hentry, hfirst⟩ := mem_prefixIterator hkv he
  cases hentry with
  | @feederDelegation v feeder hv hfeeder =>
    refine ⟨v, feeder, sliceFrom_addressKey _ v, rfl, ?_⟩
    intro acc
    unfold importFeederDelegation
    rw [codec.val_roundTrip hv, codec.acc_roundTrip hfeeder]
    exact setFeederDelegation_of_isAddress hv feeder
  | _ => cases hfirst

theorem exchangeRate_family (hkv : EntriesOk codec kv) (acc : KVStore) :
    ∃ items, iterateLunaExchangeRates kv = some items ∧
      (items.map id).foldlM importExchangeRate acc = some (writeFamily kv acc 0x01) := by
  apply export_import_family
  rintro ⟨key, value⟩ he
  obtain ⟨hentry, hfirst⟩ := mem_prefixIterator hkv he
  cases hentry with
  | exchangeRate denom rate => exact ⟨denom, rate, sliceFrom_denomKey _ denom, rfl, fun _ => rfl⟩
  | _ => cases hfirst

theorem missCounter_family (hkv : EntriesOk codec kv) (acc : KVStore) :
    ∃ items, iterateMissCounters kv = some items ∧
      (items.map (fun e => (⟨codec.valAddressString e.1, e.2⟩ : MissCounter))).foldlM
        (importMissCounter codec) acc = some (writeFamily kv acc 0x03) := by
  apply export_import_family
  rintro ⟨key, value⟩ he
  obtain ⟨hentry, hfirst⟩ := mem_prefixIterator hkv he
  cases hentry with
  | @missCounter v hv n =>
    refine ⟨v, n, sliceFrom_addressKey _ v, rfl, ?_⟩
    intro acc
    unfold importMissCounter
    rw [codec.val_roundTrip hv]
    exact setMissCounter_of_isAddress hv n
  | _ => cases hfirst

theorem prevote_family (hkv : EntriesOk codec kv) (acc : KVStore) :
    ∃ items, iterateAggregateExchangeRatePrevotes kv = some items ∧
      (items.map Prod.snd).foldlM (importPrevote codec) acc =
        some (writeFamily kv acc 0x04) := by
  apply export_import_family
  rintro ⟨key, value⟩ he
  obtain ⟨hentry, hfirst⟩ := mem_prefixIterator hkv he
  cases hentry with
  | @prevote v p hvoter =>
    refine ⟨v, p, sliceFrom_addressKey _ v, rfl, ?_⟩
    intro acc
    -- the key is made again from the text in the value
    unfold importPrevote
    rw [hvoter]
    exact setPrevote_of_isAddress (codec.val_isAddress hvoter) p
  | _ => cases hfirst

theorem vote_family (hkv : EntriesOk codec kv) (acc : KVStore) :
    ∃ items, iterateAggregateExchangeRateVotes kv = some items ∧
      (items.map Prod.snd).foldlM (importVote codec) acc = some (writeFamily kv acc 0x05) := by
  apply export_import_family
  rintro ⟨key, value⟩ he
  obtain ⟨hentry, hfirst⟩ := mem_prefixIterator hkv he
  cases hentry with
  | @vote v w hvoter =>
    refine ⟨v, w, sliceFrom_addressKey _ v, rfl, ?_⟩
    intro acc
    unfold importVote
    rw [hvoter]
    exact setVote_of_isAddress (codec.val_isAddress hvoter) w
  | _ => cases hfirst

theorem tobinTax_family (hkv : EntriesOk codec kv) (acc : KVStore) :
    ∃ items, iterateTobinTaxes kv = some items ∧
      (items.map id).foldlM importTobinTax acc = some (writeFamily kv acc 0x06) := by
  apply export_import_family
  rintro ⟨key, value⟩ he
  obtain ⟨hentry, hfirst⟩ := mem_prefixIterator hkv he
  cases hentry with
  | tobinTax denom tax => exact ⟨denom, tax, sliceFrom_denomKey _ denom, rfl, fun _ => rfl⟩
  | _ => cases hfirst

/-- An iteration that returns has one result per entry. -/
theorem iterate_ne_nil {V : Type} {first : Byte} {offset : ℕ} {unmarshal : Value → Option V}
    {items : List (Bytes × V)} (h : iterate first offset unmarshal kv = some items)
    (hkv : prefixIterator kv first ≠ []) : items ≠ [] := by
  unfold iterate at h
  cases hl : prefixIterator kv first with
  | nil => exact absurd hl hkv
  | cons e rest =>
    rw [hl, List.mapM_cons] at h
    obtain ⟨item, _, h⟩ := Option.bind_eq_some_iff.mp h
    obtain ⟨others, _, h⟩ := Option.bind_eq_some_iff.mp h
    cases h
    exact List.cons_ne_nil item others

/-- The families, in the order in which `InitGenesis` writes them. -/
def families : List Byte := [0x02, 0x01, 0x03, 0x04, 0x05, 0x06]

/-- The families together are the store. -/
theorem families_perm (hkv : EntriesOk codec kv) :
    (families.flatMap (prefixIterator kv)).Perm kv.entries := by
  -- no key of a reachable store starts with another byte
  have hcover : ∀ e ∈ kv.entries, e.1.head? ∈ families.map some := by
    intro e he
    have hentry := hkv e.1 e.2 (SortedMap.mem_entries.mp he)
    generalize e.1 = key at hentry
    generalize e.2 = value at hentry
    cases hentry <;> simp [families, addressKey, getExchangeRateKey, getTobinTaxKey]
  have hperm := Reorder.flatMap_filter_perm kv.entries_nodup (fun e => e.1.head?)
    (by decide) hcover
  rw [List.flatMap_map] at hperm
  exact hperm

/-- The six families, written again one after another, are the store. -/
theorem writeFamilies (hkv : EntriesOk codec kv) : families.foldl (writeFamily kv) ∅ = kv := by
  have hperm := SortedMap.foldl_set_entries kv (families_perm hkv)
  rw [List.foldl_flatMap] at hperm
  exact hperm

/-- A state that satisfies the invariant is rebuilt from its file. -/
theorem exportGenesis_initGenesis {s : State} (hs : Reachable codec s)
    (htargets : prefixIterator s.kv 0x06 ≠ []) :
    (exportGenesis codec s).bind (initGenesis codec) = some s := by
  obtain ⟨kv, params⟩ := s
  have hkv : EntriesOk codec kv := hs.entries
  -- each family is loaded into the store with the families before it
  obtain ⟨delegations, h₁, hload₁⟩ := feederDelegation_family hkv ∅
  obtain ⟨rates, h₂, hload₂⟩ := exchangeRate_family hkv (writeFamily kv ∅ 0x02)
  obtain ⟨counters, h₃, hload₃⟩ :=
    missCounter_family hkv ([0x02, 0x01].foldl (writeFamily kv) ∅)
  obtain ⟨prevotes, h₄, hload₄⟩ :=
    prevote_family hkv ([0x02, 0x01, 0x03].foldl (writeFamily kv) ∅)
  obtain ⟨votes, h₅, hload₅⟩ :=
    vote_family hkv ([0x02, 0x01, 0x03, 0x04].foldl (writeFamily kv) ∅)
  obtain ⟨taxes, h₆, hload₆⟩ :=
    tobinTax_family hkv ([0x02, 0x01, 0x03, 0x04, 0x05].foldl (writeFamily kv) ∅)
  have htaxes : taxes ≠ [] := iterate_ne_nil h₆ htargets
  have hexport : exportGenesis codec ⟨kv, params⟩ = some {
      params := params
      feederDelegations := delegations.map (fun e =>
        ⟨codec.accAddressString e.2, codec.valAddressString e.1⟩)
      exchangeRates := rates
      missCounters := counters.map (fun e => ⟨codec.valAddressString e.1, e.2⟩)
      aggregateExchangeRatePrevotes := prevotes.map Prod.snd
      aggregateExchangeRateVotes := votes.map Prod.snd
      tobinTaxes := taxes } := by
    unfold exportGenesis
    rw [h₁, h₂, h₃, h₄, h₅, h₆]
    rfl
  rw [List.map_id] at hload₂ hload₆
  rw [hexport, Option.bind_some]
  unfold initGenesis genesisTobinTaxes
  -- without a tobin tax in the file the import would take the whitelist's instead
  rw [if_pos (List.length_pos_iff.mpr htaxes)]
  refine Option.bind_eq_some_iff.mpr ⟨_, hload₁, ?_⟩
  refine Option.bind_eq_some_iff.mpr ⟨_, hload₂, ?_⟩
  refine Option.bind_eq_some_iff.mpr ⟨_, hload₃, ?_⟩
  refine Option.bind_eq_some_iff.mpr ⟨_, hload₄, ?_⟩
  refine Option.bind_eq_some_iff.mpr ⟨_, hload₅, ?_⟩
  refine Option.bind_eq_some_iff.mpr ⟨_, hload₆, ?_⟩
  have hparams : params.checkPairs = .ok () := hs.params
  have hstore : writeFamily kv ([0x02, 0x01, 0x03, 0x04, 0x05].foldl (writeFamily kv) ∅) 0x06 =
    kv := writeFamilies hkv
  rw [hstore]
  simp only [hparams]
  rfl

end RoundTrip

theorem reachable_run {codec : AddressCodec} {data : GenesisState} {start s : State}
    {writes : List Write} (hinit : initGenesis codec data = some start)
    (hrun : Run.run (write codec) writes start = some s) : Reachable codec s :=
  Run.run_invariant (fun _ _ _ => reachable_write) hrun (reachable_initGenesis hinit)

/-- From any genesis file and after any writes: as long as there is a vote target, the
    exported file rebuilds the same store and the same parameters. -/
theorem genesis_round_trip {codec : AddressCodec} {data : GenesisState} {start s : State}
    {writes : List Write} (hinit : initGenesis codec data = some start)
    (hrun : Run.run (write codec) writes start = some s)
    (htargets : prefixIterator s.kv 0x06 ≠ []) :
    (exportGenesis codec s).bind (initGenesis codec) = some s :=
  exportGenesis_initGenesis (reachable_run hinit hrun) htargets

def sampleText (known : String) (bz : Bytes) : String :=
  if bz = [0x61] then known else String.ofList (' ' :: bz.map (fun b => Char.ofNat b.val))

def sampleBytes (text : List Char) : Bytes := text.map (fun c => Fin.ofNat 256 c.toNat)

def sampleParse (known s : String) : Except String Bytes :=
  if s = known then .ok [0x61]
  else match s.toList with
  | ' ' :: rest =>
    if IsAddress (sampleBytes rest) then .ok (sampleBytes rest)
    else .error "decoding bech32 failed"
  | _ => .error "decoding bech32 failed"

theorem sampleParse_isAddress {known s : String} {bz : Bytes}
    (h : sampleParse known s = .ok bz) : IsAddress bz := by
  unfold sampleParse at h
  split at h
  · cases h
    decide
  · split at h
    · split at h
      · next haddress =>
        cases h
        exact haddress
      · cases h
    · cases h

theorem sampleParse_sampleText {known : String} (hknown : known.toList.head? ≠ some ' ')
    {bz : Bytes} (hbz : IsAddress bz) : sampleParse known (sampleText known bz) = .ok bz := by
  unfold sampleText
  split
  · next hone => simp [sampleParse, hone]
  · have hne : String.ofList (' ' :: bz.map (fun b => Char.ofNat b.val)) ≠ known := by
      rintro rfl
      simp at hknown
    have hbyte : ∀ b : Byte, Fin.ofNat 256 (Char.ofNat b.val).toNat = b := by decide +kernel
    have hbytes : sampleBytes (bz.map (fun b => Char.ofNat b.val)) = bz := by
      unfold sampleBytes
      rw [List.map_map]
      exact (List.map_congr_left (fun b _ => hbyte b)).trans (List.map_id bz)
    unfold sampleParse
    rw [if_neg hne, String.toList_ofList]
    simp only [hbytes]
    rw [if_pos hbz]

/-- A codec that is bech32 on the address of the one byte 0x61. -/
def sampleCodec : AddressCodec where
  accAddressFromBech32 := sampleParse "terra1vynex3pr"
  valAddressFromBech32 := sampleParse "terravaloper1vy3vsmy0"
  accAddressString := sampleText "terra1vynex3pr"
  valAddressString := sampleText "terravaloper1vy3vsmy0"
  acc_isAddress := sampleParse_isAddress
  val_isAddress := sampleParse_isAddress
  acc_roundTrip := sampleParse_sampleText (by decide)
  val_roundTrip := sampleParse_sampleText (by decide)

def sampleGenesis : GenesisState where
  params := defaultParams
  feederDelegations := [⟨"terra1vynex3pr", "terravaloper1vy3vsmy0"⟩]
  exchangeRates := [(utf8 "uusd", ⟨17⟩)]
  missCounters := [⟨"terravaloper1vy3vsmy0", 3⟩]
  aggregateExchangeRatePrevotes := []
  aggregateExchangeRateVotes := []
  tobinTaxes := [(utf8 "uusd", ⟨25⟩)]

/-- A prevote, then a vote in its place and a higher tobin tax. -/
def sampleWrites : List Write :=
  [.prevote "terravaloper1vy3vsmy0" "00" 7, .deletePrevote [0x61],
    .vote "terravaloper1vy3vsmy0" [⟨"uusd", ⟨17⟩⟩], .tobinTax (utf8 "uusd") ⟨30⟩]

theorem genesis_round_trip_after_vote :
    ∃ start s, initGenesis sampleCodec sampleGenesis = some start ∧
      Run.run (write sampleCodec) sampleWrites start = some s ∧
      prefixIterator s.kv 0x06 ≠ [] ∧
      (exportGenesis sampleCodec s).bind (initGenesis sampleCodec) = some s := by
  refine ⟨_, _, rfl, rfl, by decide +kernel, ?_⟩
  exact @genesis_round_trip sampleCodec sampleGenesis _ _ sampleWrites rfl rfl (by decide +kernel)

end TerraClassic.Oracle.Raw
