import TerraClassic.Lib.KeySpace
import TerraClassic.Oracle.Genesis

/-! # A fresh start at height zero

    Before an export for height zero, `prepForZeroHeightGenesis` goes through four families of
    the oracle's store: it deletes the exchange rates, the prevotes and the votes, whose
    heights would be ahead of the new chain, and sets the miss counters to zero.

    * `prepForZeroHeightGenesis_get`: what is left under each key.
    * `zero_height_restart`: from any reachable store the export succeeds, and the new
      chain starts with exactly what is left.
-/

namespace TerraClassic.Oracle.Raw

/-- The oracle part of `prepForZeroHeightGenesis`. -/
def prepForZeroHeightGenesis (kv : KVStore) : Option KVStore := do
  let rates ← iterateLunaExchangeRates kv
  let kv := rates.foldl (fun kv e => deleteLunaExchangeRate kv e.1) kv
  let missCounters ← iterateMissCounters kv
  let kv ← missCounters.foldlM (fun kv e => setMissCounter kv e.1 0) kv
  let prevotes ← iterateAggregateExchangeRatePrevotes kv
  let kv ← prevotes.foldlM (fun kv e => deleteAggregateExchangeRatePrevote kv e.1) kv
  let votes ← iterateAggregateExchangeRateVotes kv
  votes.foldlM (fun kv e => deleteAggregateExchangeRateVote kv e.1) kv

/-- `ExportAppStateAndValidators` at height zero and `InitGenesis` of the new chain. -/
def restart (codec : AddressCodec) (s : State) : Option State := do
  let kv ← prepForZeroHeightGenesis s.kv
  let data ← exportGenesis codec { s with kv := kv }
  initGenesis codec data

/-! ### One loop -/

section Loops

variable {codec : AddressCodec} {kv : KVStore}

/-- The keys of a family. -/
def familyKeys (kv : KVStore) (first : Byte) : List Bytes := (prefixIterator kv first).map Prod.fst

theorem mem_familyKeys {first : Byte} {key : Bytes} :
    key ∈ familyKeys kv first ↔ key.head? = some first ∧ (kv.get key).isSome := by
  unfold familyKeys prefixIterator
  rw [List.mem_map]
  constructor
  · rintro ⟨e, he, rfl⟩
    obtain ⟨hmem, hfirst⟩ := List.mem_filter.mp he
    refine ⟨by simpa using hfirst, ?_⟩
    rw [SortedMap.mem_entries.mp (show (e.1, e.2) ∈ kv.entries from hmem)]
    rfl
  · rintro ⟨hfirst, hsome⟩
    obtain ⟨value, hget⟩ := Option.isSome_iff_exists.mp hsome
    refine ⟨(key, value), List.mem_filter.mpr ⟨SortedMap.mem_entries.mpr hget, ?_⟩, rfl⟩
    simpa using hfirst

/-- A loop over a family that writes under the keys that it visits. -/
theorem loop_family {V : Type} {first : Byte} {offset : ℕ} {unmarshal : Value → Option V}
    {f : KVStore → Bytes → Option KVStore} {step : KVStore → Bytes → KVStore}
    (h : ∀ e ∈ prefixIterator kv first, ∃ key value, sliceFrom offset e.1 = some key ∧
      unmarshal e.2 = some value ∧ ∀ acc, f acc key = some (step acc e.1)) :
    ∃ items, iterate first offset unmarshal kv = some items ∧
      items.foldlM (fun acc e => f acc e.1) kv = some ((familyKeys kv first).foldl step kv) := by
  unfold familyKeys
  simp only [List.foldl_map]
  apply Reorder.mapM_foldlM_eq
  intro e he
  obtain ⟨key, value, hkey, hvalue, hstep⟩ := h e he
  refine ⟨(key, value), ?_, hstep⟩
  rw [hkey, hvalue]
  rfl

theorem foldl_erase_familyKeys (kv : KVStore) (first : Byte) :
    (familyKeys kv first).foldl .erase kv = KeySpace.clear kv first := by
  unfold familyKeys KeySpace.clear
  rw [List.foldl_map]
  rfl

/-- The store with every miss counter at zero. -/
def resetMissCounters (kv : KVStore) : KVStore :=
  (familyKeys kv 0x03).foldl (fun kv key => kv.set key (.uint64 0)) kv

theorem get_resetMissCounters (kv : KVStore) (key : Bytes) : (resetMissCounters kv).get key =
    if key.head? = some 0x03 then (kv.get key).map (fun _ => .uint64 0) else kv.get key := by
  unfold resetMissCounters
  rw [SortedMap.get_foldl_set (fun _ => Value.uint64 0)]
  by_cases hfirst : key.head? = some 0x03
  · rw [if_pos hfirst]
    cases hget : kv.get key with
    | none =>
      rw [if_neg]
      · rfl
      · intro hmem
        have hsome := (mem_familyKeys.mp hmem).2
        rw [hget] at hsome
        cases hsome
    | some value =>
      rw [if_pos (mem_familyKeys.mpr ⟨hfirst, by rw [hget]; rfl⟩)]
      rfl
  · rw [if_neg hfirst, if_neg (fun hmem => hfirst (mem_familyKeys.mp hmem).1)]

theorem entriesOk_clear (h : EntriesOk codec kv) (first : Byte) :
    EntriesOk codec (KeySpace.clear kv first) := by
  intro key value hget
  rw [KeySpace.get_clear] at hget
  split at hget
  · cases hget
  · exact h key value hget

theorem entriesOk_resetMissCounters (h : EntriesOk codec kv) :
    EntriesOk codec (resetMissCounters kv) := by
  intro key value hget
  rw [get_resetMissCounters] at hget
  split at hget
  · next hfirst =>
    obtain ⟨old, hold, rfl⟩ := Option.map_eq_some_iff.mp hget
    -- only a miss counter has this first byte
    cases h key old hold with
    | missCounter hv n => exact .missCounter hv 0
    | _ => cases hfirst
  · exact h key value hget

/-! ### The four loops -/

theorem deleteRates_loop (hkv : EntriesOk codec kv) :
    ∃ items, iterateLunaExchangeRates kv = some items ∧
      items.foldl (fun kv e => deleteLunaExchangeRate kv e.1) kv = KeySpace.clear kv 0x01 := by
  have hloop : ∃ items, iterateLunaExchangeRates kv = some items ∧
      items.foldlM (fun kv e => some (deleteLunaExchangeRate kv e.1)) kv =
        some (KeySpace.clear kv 0x01) := by
    rw [← foldl_erase_familyKeys]
    apply loop_family (f := fun kv denom => some (deleteLunaExchangeRate kv denom))
    rintro ⟨key, value⟩ he
    obtain ⟨hentry, hfirst⟩ := mem_prefixIterator hkv he
    cases hentry with
    | exchangeRate denom rate => exact ⟨denom, rate, sliceFrom_denomKey _ denom, rfl, fun _ => rfl⟩
    | _ => cases hfirst
  obtain ⟨items, hitems, hfold⟩ := hloop
  refine ⟨items, hitems, ?_⟩
  have hpure := List.foldlM_pure (m := Option) (f := fun kv e => deleteLunaExchangeRate kv e.1)
    (b := kv) (l := items)
  exact Option.some.inj (hpure.symm.trans hfold)

theorem resetMissCounters_loop (hkv : EntriesOk codec kv) :
    ∃ items, iterateMissCounters kv = some items ∧
      items.foldlM (fun kv e => setMissCounter kv e.1 0) kv = some (resetMissCounters kv) := by
  apply loop_family (f := fun kv operator => setMissCounter kv operator 0)
  rintro ⟨key, value⟩ he
  obtain ⟨hentry, hfirst⟩ := mem_prefixIterator hkv he
  cases hentry with
  | @missCounter v hv n =>
    exact ⟨v, n, sliceFrom_addressKey _ v, rfl, fun _ => setMissCounter_of_isAddress hv 0⟩
  | _ => cases hfirst

theorem deletePrevotes_loop (hkv : EntriesOk codec kv) :
    ∃ items, iterateAggregateExchangeRatePrevotes kv = some items ∧
      items.foldlM (fun kv e => deleteAggregateExchangeRatePrevote kv e.1) kv =
        some (KeySpace.clear kv 0x04) := by
  rw [← foldl_erase_familyKeys]
  apply loop_family (f := deleteAggregateExchangeRatePrevote)
  rintro ⟨key, value⟩ he
  obtain ⟨hentry, hfirst⟩ := mem_prefixIterator hkv he
  cases hentry with
  | @prevote v p hvoter =>
    refine ⟨v, p, sliceFrom_addressKey _ v, rfl, ?_⟩
    intro acc
    unfold deleteAggregateExchangeRatePrevote getAggregateExchangeRatePrevoteKey
    rw [mustLengthPrefix_of_isAddress (codec.val_isAddress hvoter)]
    rfl
  | _ => cases hfirst

theorem deleteVotes_loop (hkv : EntriesOk codec kv) :
    ∃ items, iterateAggregateExchangeRateVotes kv = some items ∧
      items.foldlM (fun kv e => deleteAggregateExchangeRateVote kv e.1) kv =
        some (KeySpace.clear kv 0x05) := by
  rw [← foldl_erase_familyKeys]
  apply loop_family (f := deleteAggregateExchangeRateVote)
  rintro ⟨key, value⟩ he
  obtain ⟨hentry, hfirst⟩ := mem_prefixIterator hkv he
  cases hentry with
  | @vote v w hvoter =>
    refine ⟨v, w, sliceFrom_addressKey _ v, rfl, ?_⟩
    intro acc
    unfold deleteAggregateExchangeRateVote getAggregateExchangeRateVoteKey
    rw [mustLengthPrefix_of_isAddress (codec.val_isAddress hvoter)]
    rfl
  | _ => cases hfirst

/-- What is left under a key: delegations and tobin taxes as they were, and miss counters at
    zero. -/
def leftAtZero (key : Bytes) (value : Option Value) : Option Value :=
  if key.head? = some 0x02 ∨ key.head? = some 0x06 then value
  else if key.head? = some 0x03 then value.map (fun _ => .uint64 0)
  else none

/-- The four loops on a reachable store. -/
theorem prepForZeroHeightGenesis_get (hkv : EntriesOk codec kv) :
    ∃ kv', prepForZeroHeightGenesis kv = some kv' ∧ EntriesOk codec kv' ∧
      ∀ key, kv'.get key = leftAtZero key (kv.get key) := by
  obtain ⟨rates, hrates, hfold₁⟩ := deleteRates_loop hkv
  have hkv₁ := entriesOk_clear hkv 0x01
  obtain ⟨counters, hcounters, hfold₂⟩ := resetMissCounters_loop hkv₁
  have hkv₂ := entriesOk_resetMissCounters hkv₁
  obtain ⟨prevotes, hprevotes, hfold₃⟩ := deletePrevotes_loop hkv₂
  have hkv₃ := entriesOk_clear hkv₂ 0x04
  obtain ⟨votes, hvotes, hfold₄⟩ := deleteVotes_loop hkv₃
  refine ⟨_, ?_, entriesOk_clear hkv₃ 0x05, ?_⟩
  · refine Option.bind_eq_some_iff.mpr ⟨rates, hrates, ?_⟩
    simp only [hfold₁]
    refine Option.bind_eq_some_iff.mpr ⟨counters, hcounters, ?_⟩
    refine Option.bind_eq_some_iff.mpr ⟨_, hfold₂, ?_⟩
    refine Option.bind_eq_some_iff.mpr ⟨prevotes, hprevotes, ?_⟩
    refine Option.bind_eq_some_iff.mpr ⟨_, hfold₃, ?_⟩
    exact Option.bind_eq_some_iff.mpr ⟨votes, hvotes, hfold₄⟩
  · intro key
    rw [KeySpace.get_clear, KeySpace.get_clear, get_resetMissCounters, KeySpace.get_clear]
    unfold leftAtZero
    cases hget : kv.get key with
    | none => simp
    | some value =>
      -- the first byte of the key decides
      cases hkv key value hget with
      | exchangeRate denom rate => rfl
      | feederDelegation hv hfeeder => rfl
      | missCounter hv n => rfl
      | prevote hvoter => rfl
      | vote hvoter => rfl
      | tobinTax denom tax => rfl

end Loops

/-- A vote target stays a vote target. -/
theorem targets_of_left {kv kv' : KVStore} (h : ∀ key, kv'.get key = leftAtZero key (kv.get key))
    (htargets : prefixIterator kv 0x06 ≠ []) : prefixIterator kv' 0x06 ≠ [] := by
  obtain ⟨e, he⟩ := List.exists_mem_of_ne_nil _ htargets
  obtain ⟨hfirst, hsome⟩ := mem_familyKeys.mp (List.mem_map_of_mem (f := Prod.fst) he)
  have hkey : e.1 ∈ familyKeys kv' 0x06 := by
    rw [mem_familyKeys, h]
    unfold leftAtZero
    rw [if_pos (.inr hfirst)]
    exact ⟨hfirst, hsome⟩
  intro hnil
  unfold familyKeys at hkey
  rw [hnil] at hkey
  cases hkey

/-- From any genesis file and after any writes: as long as there is a vote target, the chain can be
    started again at height zero, with the parameters, the delegations and the tobin taxes of
    before, with every miss counter at zero, and without any rate, prevote or vote.  A second
    restart changes nothing. -/
theorem zero_height_restart {codec : AddressCodec} {data : GenesisState} {start s : State}
    {writes : List Write} (hinit : initGenesis codec data = some start)
    (hrun : Run.run (write codec) writes start = some s)
    (htargets : prefixIterator s.kv 0x06 ≠ []) :
    ∃ s', restart codec s = some s' ∧ s'.params = s.params ∧
      (∀ key, s'.kv.get key = leftAtZero key (s.kv.get key)) ∧ restart codec s' = some s' := by
  -- one restart of a state that satisfies the invariant
  have hrestart : ∀ {s : State}, Reachable codec s → prefixIterator s.kv 0x06 ≠ [] →
      ∃ kv', restart codec s = some ⟨kv', s.params⟩ ∧ Reachable codec ⟨kv', s.params⟩ ∧
        prefixIterator kv' 0x06 ≠ [] ∧ ∀ key, kv'.get key = leftAtZero key (s.kv.get key) := by
    intro s hs htargets
    obtain ⟨kv', hprep, hkv', hleft⟩ := prepForZeroHeightGenesis_get hs.entries
    have hreachable : Reachable codec ⟨kv', s.params⟩ := ⟨hkv', hs.params⟩
    have htargets' := targets_of_left hleft htargets
    refine ⟨kv', ?_, hreachable, htargets', hleft⟩
    refine Option.bind_eq_some_iff.mpr ⟨kv', hprep, ?_⟩
    exact exportGenesis_initGenesis hreachable htargets'
  obtain ⟨kv', hfirst, hreachable, htargets', hleft⟩ := hrestart (reachable_run hinit hrun) htargets
  obtain ⟨kv'', hsecond, _, _, hleft'⟩ := hrestart hreachable htargets'
  have hsame : kv'' = kv' := by
    apply SortedMap.ext_get
    intro key
    have hleft' : kv''.get key = leftAtZero key (kv'.get key) := hleft' key
    rw [hleft', hleft]
    unfold leftAtZero
    split
    · rfl
    · split
      · rw [Option.map_map]
        rfl
      · rfl
  exact ⟨⟨kv', s.params⟩, hfirst, rfl, hleft, by rw [hsecond, hsame]⟩

theorem zero_height_restart_after_vote :
    ∃ start s s', initGenesis sampleCodec sampleGenesis = some start ∧
      Run.run (write sampleCodec) sampleWrites start = some s ∧
      restart sampleCodec s = some s' ∧ s'.params = s.params ∧
      s'.kv.get (addressKey 0x03 [0x61]) = some (.uint64 0) ∧
      s'.kv.get (addressKey 0x05 [0x61]) = none := by
  obtain ⟨s', hrestart, hparams, hleft, _⟩ := @zero_height_restart sampleCodec sampleGenesis _ _
    sampleWrites rfl rfl (by decide +kernel)
  refine ⟨_, _, s', rfl, rfl, hrestart, hparams, ?_, ?_⟩
  · rw [hleft]
    decide +kernel
  · rw [hleft]
    decide +kernel

end TerraClassic.Oracle.Raw
