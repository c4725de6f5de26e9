import TerraClassic.Treasury.Levers

/-! # Export and import of the treasury

    The store has one more family of keys than the genesis file has fields: the
    addresses that are exempt from the burn tax.  They are written by governance
    proposals and read by the ante handler, and they are lost when the state is
    exported and imported (`treasury_round_trip_iff`).  Everything else comes back, the
    indicators up to the last closed epoch.
-/

namespace TerraClassic.Treasury

/-! ### The burn tax exemption list -/

/-- The whole treasury store. -/
structure State where
  store : Store
  burnTaxExemptionList : SortedMap String Unit

/-- `AddBurnTaxExemptionAddress`; an address that does not parse panics. -/
def addBurnTaxExemptionAddress (bech32 : Bech32) (exempt : SortedMap String Unit)
    (address : String) : Option (SortedMap String Unit) :=
  match bech32.accAddressFromBech32 address with
  | .error _ => none
  | .ok _ => some (exempt.set address ())

/-- `RemoveBurnTaxExemptionAddress`; the outer failure is the panic, the inner one the
    error of an address that is not on the list. -/
def removeBurnTaxExemptionAddress (bech32 : Bech32) (exempt : SortedMap String Unit)
    (address : String) : Option (Except String (SortedMap String Unit)) :=
  match bech32.accAddressFromBech32 address with
  | .error _ => none
  | .ok _ =>
    if (exempt.get address).isNone then some (.error ("address = " ++ address))
    else some (.ok (exempt.erase address))

/-- `HasBurnTaxExemptionAddress`: all of them are on the list. -/
def hasBurnTaxExemptionAddress (s : State) (addresses : List String) : Bool :=
  addresses.all (fun address => (s.burnTaxExemptionList.get address).isSome)

/-- `HandleAddBurnTaxExemptionAddressProposal`. -/
def handleAddBurnTaxExemptionAddressProposal (bech32 : Bech32) (addresses : List String)
    (s : State) : Option State := do
  let exempt ← addresses.foldlM (addBurnTaxExemptionAddress bech32) s.burnTaxExemptionList
  return { s with burnTaxExemptionList := exempt }

/-- The loop of `HandleRemoveBurnTaxExemptionAddressProposal`. -/
def removeAll (bech32 : Bech32) :
    List String → SortedMap String Unit → Option (Except String (SortedMap String Unit))
  | [], exempt => some (.ok exempt)
  | address :: rest, exempt =>
    match removeBurnTaxExemptionAddress bech32 exempt address with
    | none => none
    | some (.error err) => some (.error err)
    | some (.ok exempt) => removeAll bech32 rest exempt

/-- `HandleRemoveBurnTaxExemptionAddressProposal`.  Governance drops the writes of a
    proposal that fails. -/
def handleRemoveBurnTaxExemptionAddressProposal (bech32 : Bech32) (addresses : List String)
    (s : State) : Option State := do
  match ← removeAll bech32 addresses s.burnTaxExemptionList with
  | .error _ => return s
  | .ok exempt => return { s with burnTaxExemptionList := exempt }

/-! ### Tax proceeds -/

/-- `RecordEpochTaxProceeds`. -/
def recordEpochTaxProceeds (delta : Coins) (st : Store) : Option Store := do
  let proceeds ← addTaxProceeds st.taxProceeds delta
  return { st with taxProceeds := proceeds }

/-! ### The genesis file -/

/-- The epochs that the loop of `ExportGenesis` visits: those that have ended, the
    current one in its last block. -/
def closedEpochs (height : BlockHeight) : List ℕ :=
  (List.range ((getEpoch height).toNat + 1)).filter (fun e =>
    (e : ℤ) < getEpoch height ||
      ((e : ℤ) = getEpoch height && isPeriodLastBlock height blocksPerWeek = some true))

/-- `ExportGenesis`. -/
def exportGenesis (height : BlockHeight) (s : State) : GenesisState where
  params := s.store.params
  taxRate := getTaxRate s.store
  rewardWeight := getRewardWeight s.store
  taxCaps := s.store.taxCaps.entries
  taxProceeds := s.store.taxProceeds
  epochInitialIssuance := s.store.epochInitialIssuance
  epochStates := (closedEpochs height).map (fun e =>
    ⟨UInt64.ofNat e, getTR s.store e, getSR s.store e, getTSL s.store e⟩)

/-- `InitGenesis` on an empty store; `SetParams` panics on parameters that do not pass. -/
def importGenesis (validDenom : Denom → Bool) (k : Keepers) (bank : Bank) (data : GenesisState) :
    Option State :=
  match data.params.checkPairs validDenom with
  | .error _ => none
  | .ok () => some ⟨initGenesis k bank data, ∅⟩

/-- Everything that an import has to restore. -/
structure Restored (height : BlockHeight) (s s' : State) : Prop where
  params : s'.store.params = s.store.params
  taxRate : getTaxRate s'.store = getTaxRate s.store
  rewardWeight : getRewardWeight s'.store = getRewardWeight s.store
  taxCaps : s'.store.taxCaps = s.store.taxCaps
  taxProceeds : s'.store.taxProceeds = s.store.taxProceeds
  epochInitialIssuance : s'.store.epochInitialIssuance = s.store.epochInitialIssuance
  indicators : ∀ e : ℕ, (e : ℤ) < getEpoch height ∨
      (e : ℤ) = getEpoch height ∧ isPeriodLastBlock height blocksPerWeek = some true →
    getTR s'.store e = getTR s.store e ∧ getSR s'.store e = getSR s.store e ∧
      getTSL s'.store e = getTSL s.store e
  exemptions : ∀ addresses,
    hasBurnTaxExemptionAddress s' addresses = hasBurnTaxExemptionAddress s addresses

/-! ### The indicators -/

theorem mem_closedEpochs {height : BlockHeight} {e : ℕ} :
    e ∈ closedEpochs height ↔ (e : ℤ) < getEpoch height ∨
      (e : ℤ) = getEpoch height ∧ isPeriodLastBlock height blocksPerWeek = some true := by
  unfold closedEpochs
  rw [List.mem_filter, List.mem_range]
  constructor
  · intro h
    simpa using h.2
  · intro h
    refine ⟨by omega, by simpa using h⟩

/-- The key an epoch is imported under is the epoch. -/
theorem toInt64_ofNat {e : ℕ} (h : e < 2 ^ 63) : toInt64 (UInt64.ofNat e).toNat = e := by
  have hnat : (UInt64.ofNat e).toNat = e := UInt64.toNat_ofNat_of_lt (by norm_num at h ⊢; omega)
  rw [hnat]
  exact toInt64_of_lt (by omega) (by omega)

/-- An indicator that is written for the closed epochs reads as it did. -/
theorem getD_imported {V : Type} (height : BlockHeight) (f : ℤ → V) (default : V) {e : ℕ}
    (he : e ∈ closedEpochs height) :
    ((closedEpochs height).foldl (fun m e => m.set (toInt64 (UInt64.ofNat e).toNat) (f e))
      (∅ : SortedMap ℤ V)).getD e default = f e := by
  have hkey : ∀ e ∈ closedEpochs height, toInt64 (UInt64.ofNat e).toNat = e := by
    intro e he
    have hlt := getEpoch_succ_lt height
    have hmem := mem_closedEpochs.mp he
    exact toInt64_ofNat (by omega)
  -- the file has epochs as `uint64`, the import casts them back
  have hfold : (closedEpochs height).foldl
      (fun m e => m.set (toInt64 (UInt64.ofNat e).toNat) (f e)) (∅ : SortedMap ℤ V) =
      ((closedEpochs height).map (fun e : ℕ => (e : ℤ))).foldl (fun m e => m.set e (f e)) ∅ := by
    rw [List.foldl_map]
    apply List.foldl_ext
    intro m e he
    rw [hkey e he]
  unfold SortedMap.getD
  rw [hfold, SortedMap.get_foldl_set, if_pos (List.mem_map.mpr ⟨e, he, rfl⟩)]
  rfl

/-! ### One export and import -/

/-- The issuance after an import: the exported one, or the supply when that is zero. -/
theorem initGenesis_issuance (k : Keepers) (bank : Bank) (data : GenesisState) (st : Store) :
    (initGenesis k bank data).epochInitialIssuance =
      if data.epochInitialIssuance.isZero then
        (recordEpochInitialIssuance k bank st).epochInitialIssuance
      else data.epochInitialIssuance := by
  unfold initGenesis
  split
  · rfl
  · rfl

/-- What the issuance does not touch. -/
theorem initGenesis_rest (k : Keepers) (bank : Bank) (data : GenesisState) :
    (initGenesis k bank data).params = data.params ∧
    getTaxRate (initGenesis k bank data) = data.taxRate ∧
    getRewardWeight (initGenesis k bank data) = data.rewardWeight ∧
    (initGenesis k bank data).taxCaps = data.taxCaps.foldl (fun caps e => caps.set e.1 e.2) ∅ ∧
    (initGenesis k bank data).taxProceeds = data.taxProceeds ∧
    (initGenesis k bank data).tr =
      data.epochStates.foldl (fun m e => m.set (toInt64 e.epoch.toNat) e.taxReward) ∅ ∧
    (initGenesis k bank data).sr =
      data.epochStates.foldl (fun m e => m.set (toInt64 e.epoch.toNat) e.seigniorageReward) ∅ ∧
    (initGenesis k bank data).tsl =
      data.epochStates.foldl (fun m e => m.set (toInt64 e.epoch.toNat) e.totalStakedLuna) ∅ := by
  unfold initGenesis
  split
  · exact ⟨rfl, rfl, rfl, rfl, rfl, rfl, rfl, rfl⟩
  · exact ⟨rfl, rfl, rfl, rfl, rfl, rfl, rfl, rfl⟩

theorem hasBurnTaxExemptionAddress_empty_iff {s : State} {store : Store} :
    (∀ addresses, hasBurnTaxExemptionAddress ⟨store, ∅⟩ addresses =
      hasBurnTaxExemptionAddress s addresses) ↔ s.burnTaxExemptionList = ∅ := by
  constructor
  · intro h
    apply SortedMap.ext_get
    intro address
    -- a list of one address asks for one key
    have hone := h [address]
    simp only [hasBurnTaxExemptionAddress, List.all_cons, List.all_nil, SortedMap.get_empty,
      Option.isSome_none, Bool.and_true] at hone
    rw [SortedMap.get_empty]
    exact Option.isNone_iff_eq_none.mp (by simpa using hone.symm)
  · intro h addresses
    unfold hasBurnTaxExemptionAddress
    rw [h]

theorem restored_iff (k : Keepers) (bank : Bank) (height : BlockHeight) (s : State) :
    Restored height s ⟨initGenesis k bank (exportGenesis height s), ∅⟩ ↔
      s.burnTaxExemptionList = ∅ ∧
      (s.store.epochInitialIssuance.isZero = true →
        (recordEpochInitialIssuance k bank s.store).epochInitialIssuance =
          s.store.epochInitialIssuance) := by
  have hissuance := initGenesis_issuance k bank (exportGenesis height s) s.store
  obtain ⟨hparams, hrate, hweight, hcaps, hproceeds, htr, hsr, htsl⟩ :=
    initGenesis_rest k bank (exportGenesis height s)
  constructor
  · intro h
    refine ⟨hasBurnTaxExemptionAddress_empty_iff.mp h.exemptions, ?_⟩
    intro hzero
    have hthis := h.epochInitialIssuance
    rw [show (exportGenesis height s).epochInitialIssuance = s.store.epochInitialIssuance from rfl,
      if_pos hzero] at hissuance
    rw [← hissuance]
    exact hthis
  · rintro ⟨hexempt, hzero⟩
    refine ⟨hparams, hrate, hweight, ?_, hproceeds, ?_, ?_,
      hasBurnTaxExemptionAddress_empty_iff.mpr hexempt⟩
    · rw [hcaps]
      exact SortedMap.foldl_set_entries s.store.taxCaps (List.Perm.refl _)
    · rw [hissuance]
      show (if s.store.epochInitialIssuance.isZero = true then _ else _) = _
      split
      · next h => exact hzero h
      · rfl
    · intro e he
      have he := mem_closedEpochs.mpr he
      refine ⟨?_, ?_, ?_⟩
      · show (initGenesis k bank (exportGenesis height s)).tr.getD e _ = _
        rw [htr, exportGenesis, List.foldl_map]
        exact getD_imported height (getTR s.store) _ he
      · show (initGenesis k bank (exportGenesis height s)).sr.getD e _ = _
        rw [hsr, exportGenesis, List.foldl_map]
        exact getD_imported height (getSR s.store) _ he
      · show (initGenesis k bank (exportGenesis height s)).tsl.getD e _ = _
        rw [htsl, exportGenesis, List.foldl_map]
        exact getD_imported height (getTSL s.store) _ he

/-! ### Runs -/

inductive Event where
  | endBlock (k : Keepers) (height : BlockHeight) (bank : Bank)
  /-- The taxes of a transaction. -/
  | taxes (delta : Coins)
  | addExemptions (addresses : List String)
  | removeExemptions (addresses : List String)
  /-- A parameter change, which the parameter store checks. -/
  | params (params : Params)

/-- One event; a panic halts the chain. -/
def advance (bech32 : Bech32) (validDenom : Denom → Bool) (s : State) : Event → Option State
  | .endBlock k height bank => do
    let (_, store) ← endBlocker k height bank s.store
    return { s with store := store }
  | .taxes delta => do
    let store ← recordEpochTaxProceeds delta s.store
    return { s with store := store }
  | .addExemptions addresses => handleAddBurnTaxExemptionAddressProposal bech32 addresses s
  | .removeExemptions addresses => handleRemoveBurnTaxExemptionAddressProposal bech32 addresses s
  | .params params =>
    match params.checkPairs validDenom with
    | .ok () => some { s with store := { s.store with params := params } }
    | .error _ => some s

theorem endBlocker_params {k : Keepers} {height : BlockHeight} {bank : Bank} {st : Store}
    {out : Bank × Store} (h : endBlocker k height bank st = some out) :
    out.2.params = st.params := by
  have hlevers := endBlocker_levers h
  by_cases hupdates : updates height st.params
  · exact (hlevers.1 hupdates).params
  · exact (hlevers.2 hupdates).params

/-- Along a run the parameters pass the checks of the parameter store. -/
theorem advance_params {bech32 : Bech32} {validDenom : Denom → Bool} {s s' : State} {e : Event}
    (h : advance bech32 validDenom s e = some s')
    (hs : s.store.params.checkPairs validDenom = .ok ()) :
    s'.store.params.checkPairs validDenom = .ok () := by
  cases e with
  | endBlock k height bank =>
    obtain ⟨⟨bank', store⟩, hend, h⟩ := Option.bind_eq_some_iff.mp h
    rw [← Option.some.inj h]
    show store.params.checkPairs validDenom = _
    rw [endBlocker_params hend]
    exact hs
  | taxes delta =>
    obtain ⟨store, hrecord, h⟩ := Option.bind_eq_some_iff.mp h
    rw [← Option.some.inj h]
    obtain ⟨proceeds, _, hrecord⟩ := Option.bind_eq_some_iff.mp hrecord
    rw [← Option.some.inj hrecord]
    exact hs
  | addExemptions addresses =>
    obtain ⟨exempt, _, h⟩ := Option.bind_eq_some_iff.mp h
    rw [← Option.some.inj h]
    exact hs
  | removeExemptions addresses =>
    obtain ⟨result, _, h⟩ := Option.bind_eq_some_iff.mp h
    cases result with
    | error err =>
      -- a failed proposal leaves the state as it was
      rw [← Option.some.inj h]
      exact hs
    | ok exempt =>
      rw [← Option.some.inj h]
      exact hs
  | params params =>
    simp only [advance] at h
    split at h
    · next hok =>
      rw [← Option.some.inj h]
      exact hok
    · rw [← Option.some.inj h]
      exact hs

theorem importGenesis_eq_some {validDenom : Denom → Bool} {k : Keepers} {bank : Bank}
    {data : GenesisState} {s : State} (h : importGenesis validDenom k bank data = some s) :
    data.params.checkPairs validDenom = .ok () ∧ s.store.params = data.params := by
  unfold importGenesis at h
  split at h
  · cases h
  · next hok =>
    rw [← Option.some.inj h]
    exact ⟨hok, (initGenesis_rest k bank data).1⟩

/-- In every reachable state, at any height: an export and import returns, and it
    restores the state exactly when no address is exempt from the burn tax (and the
    issuance, where all of it is zero, is the supply that the import records). -/
theorem treasury_round_trip_iff (bech32 : Bech32) (validDenom : Denom → Bool) (k₀ : Keepers)
    (bank₀ : Bank) (data : GenesisState) (start : State)
    (hstart : importGenesis validDenom k₀ bank₀ data = some start) (events : List Event)
    (s : State) (hrun : Run.run (advance bech32 validDenom) events start = some s) (k : Keepers)
    (bank : Bank) (height : BlockHeight) :
    ∃ s', importGenesis validDenom k bank (exportGenesis height s) = some s' ∧
      (Restored height s s' ↔ s.burnTaxExemptionList = ∅ ∧
        (s.store.epochInitialIssuance.isZero = true →
          (recordEpochInitialIssuance k bank s.store).epochInitialIssuance =
            s.store.epochInitialIssuance)) := by
  obtain ⟨hok, hparams⟩ := importGenesis_eq_some hstart
  have hs : s.store.params.checkPairs validDenom = .ok () := Run.run_invariant
    (I := fun s => s.store.params.checkPairs validDenom = .ok ())
    (fun _ _ _ hstep hinv => advance_params hstep hinv) hrun (by rw [hparams]; exact hok)
  refine ⟨⟨initGenesis k bank (exportGenesis height s), ∅⟩, ?_, restored_iff k bank height s⟩
  unfold importGenesis
  rw [show (exportGenesis height s).params = s.store.params from rfl, hs]

/-! ### On a small chain -/

/-- A codec that knows one account. -/
def oneAccount : Bech32 where
  accAddressFromBech32 := fun s =>
    if s = "terra1vynex3pr" then .ok "a" else .error "decoding bech32 failed"
  valAddressFromBech32 := fun _ => .error "decoding bech32 failed"
  accAddressString := fun _ => "terra1vynex3pr"
  valAddressString := fun _ => ""

/-- The small chain from the default genesis through some events. -/
def smallAdvance (events : List Event) : Option State :=
  (importGenesis (fun _ => true) smallKeepers smallBank defaultGenesis).bind
    (Run.run (advance oneAccount (fun _ => true)) events)

/-- The last block of the first week. -/
def weekEnds : BlockHeight := ⟨100799, by norm_num⟩

/-- Without exemptions the state of the first week comes back. -/
theorem treasury_round_trip_week :
    ∃ s s', smallAdvance [.taxes (Coins.ofCoin "uusd" 7),
        .endBlock smallKeepers weekEnds smallBank] = some s ∧
      importGenesis (fun _ => true) smallKeepers smallBank (exportGenesis weekEnds s) = some s' ∧
      Restored weekEnds s s' := by
  have hshape : (smallAdvance [.taxes (Coins.ofCoin "uusd" 7),
      .endBlock smallKeepers weekEnds smallBank]).map (fun s =>
        (s.burnTaxExemptionList, s.store.epochInitialIssuance.isZero)) = some (∅, false) := by
    decide +kernel
  obtain ⟨s, hs, hempty⟩ := Option.map_eq_some_iff.mp hshape
  obtain ⟨hexempt, hzero⟩ := Prod.mk.inj hempty
  obtain ⟨start, hstart, hrun⟩ := Option.bind_eq_some_iff.mp hs
  obtain ⟨s', hs', hiff⟩ := treasury_round_trip_iff oneAccount (fun _ => true) smallKeepers
    smallBank defaultGenesis start hstart _ s hrun smallKeepers smallBank weekEnds
  refine ⟨s, s', hs, hs', hiff.mpr ⟨hexempt, ?_⟩⟩
  intro h
  rw [hzero] at h
  cases h

/-- An address is made exempt, and is not after an export and import. -/
theorem treasury_round_trip_fails :
    (smallAdvance [.addExemptions ["terra1vynex3pr"]]).map (fun s =>
      (s.store.epochInitialIssuance.isZero, hasBurnTaxExemptionAddress s ["terra1vynex3pr"])) =
        some (false, true) ∧
    ((smallAdvance [.addExemptions ["terra1vynex3pr"]]).bind (fun s =>
      importGenesis (fun _ => true) smallKeepers smallBank (exportGenesis weekEnds s))).map
        (fun s => hasBurnTaxExemptionAddress s ["terra1vynex3pr"]) = some false := by
  refine ⟨by decide +kernel, by decide +kernel⟩

end TerraClassic.Treasury
