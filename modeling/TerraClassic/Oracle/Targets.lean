import TerraClassic.Oracle.Rates

/-! # Vote targets and the whitelist

    `ApplyWhitelist` compares the whitelist with the vote targets that
    `PickReferenceTerra` has left, not with the stored ones.  A stored target
    whose ballot failed is missing from that map, and when the rest happens to
    equal the whitelist no update is made.
-/

namespace TerraClassic.Oracle

variable {sched : Schedule} {k : Keepers} {params : Params} {height : BlockHeight} {st : Store}

/-- The tobin tax that the whitelist gives a denom. -/
def whitelisted (whitelist : List DenomItem) (d : Denom) : Option Dec :=
  (whitelist.find? (fun item => item.name = d)).map DenomItem.tobinTax

/-- A target that received votes, but not enough power. -/
def ballotFailed (k : Keepers) (params : Params) (st : Store) (d : Denom) : Bool :=
  (st.tobinTaxes.get d).isSome && ballotOf (startClaims k.staking) st.votes d ≠ [] &&
    !passes (requiredPower k params) (ballotOf (startClaims k.staking) st.votes d)

/-! ### Applying the whitelist -/

theorem whitelisted_of_mem {whitelist : List DenomItem}
    (hnd : (whitelist.map DenomItem.name).Nodup) {item : DenomItem} (h : item ∈ whitelist) :
    whitelisted whitelist item.name = some item.tobinTax := by
  unfold whitelisted
  induction whitelist with
  | nil => cases h
  | cons x rest ih =>
    obtain ⟨hx, hrest⟩ := List.nodup_cons.mp hnd
    rcases List.mem_cons.mp h with rfl | h
    · simp
    · have hne : x.name ≠ item.name := by
        intro heq
        exact hx (List.mem_map.mpr ⟨item, h, heq.symm⟩)
      simpa [hne] using ih hrest h

theorem whitelisted_isSome_iff (whitelist : List DenomItem) (d : Denom) :
    (whitelisted whitelist d).isSome ↔ d ∈ whitelist.map DenomItem.name := by
  unfold whitelisted
  rw [Option.isSome_map, List.find?_isSome, List.mem_map]
  simp

theorem applyItem_tobinTaxes {s s' : TargetState} {item : DenomItem}
    (h : applyItem s item = some s') :
    s'.tobinTaxes = s.tobinTaxes.set item.name item.tobinTax := by
  unfold applyItem at h
  simp only at h
  split at h
  · obtain ⟨metadata, _, h⟩ := Option.bind_eq_some_iff.mp h
    rw [← Option.some.inj h]
  · rw [← Option.some.inj h]

/-- The loop of `ApplyWhitelist` stores the whitelist over what was there. -/
theorem foldlM_applyItem_get {whitelist : List DenomItem}
    (hnd : (whitelist.map DenomItem.name).Nodup) {s s' : TargetState}
    (h : whitelist.foldlM applyItem s = some s') (d : Denom) :
    s'.tobinTaxes.get d =
      if (whitelisted whitelist d).isSome then whitelisted whitelist d
      else s.tobinTaxes.get d := by
  induction whitelist generalizing s with
  | nil =>
    obtain rfl := Option.some.inj h
    rfl
  | cons x rest ih =>
    obtain ⟨hx, hrest⟩ := List.nodup_cons.mp hnd
    rw [List.foldlM_cons] at h
    obtain ⟨t, ht, h⟩ := Option.bind_eq_some_iff.mp h
    rw [ih hrest h, applyItem_tobinTaxes ht]
    by_cases hd : x.name = d
    -- a name occurs once, so no later item overwrites it
    · have hnone : ¬ (whitelisted rest d).isSome := by
        rw [whitelisted_isSome_iff, ← hd]
        exact hx
      rw [if_neg hnone, ← hd, SortedMap.get_set_self]
      simp [whitelisted]
    · have hd' : d ≠ x.name := fun heq => hd heq.symm
      rw [SortedMap.get_set_ne _ _ hd']
      have hsame : whitelisted (x :: rest) d = whitelisted rest d := by
        simp [whitelisted, hd]
      rw [hsame]

/-- No update is made exactly when the given targets are the whitelist. -/
theorem updateRequired_eq_false_iff {whitelist : List DenomItem}
    (hnd : (whitelist.map DenomItem.name).Nodup) (targets : SortedMap Denom Dec) :
    updateRequired whitelist targets = false ↔ ∀ d, targets.get d = whitelisted whitelist d := by
  have hsize : targets.size = targets.keys.length := by
    unfold SortedMap.size SortedMap.keys
    rw [List.length_map]
  have hmem : ∀ d, d ∈ targets.keys ↔ (targets.get d).isSome := fun d => SortedMap.mem_keys
  unfold updateRequired
  constructor
  · intro h
    split at h
    · cases h
    · next hlen =>
      have hlen' : targets.keys.length = (whitelist.map DenomItem.name).length := by
        rw [List.length_map, ← hsize]
        exact not_not.mp hlen
      have hitem : ∀ item ∈ whitelist, targets.get item.name = some item.tobinTax := by
        intro item hi
        have := List.any_eq_false.mp h item hi
        simpa using this
      have hsub : whitelist.map DenomItem.name ⊆ targets.keys := by
        intro d hd
        obtain ⟨item, hi, rfl⟩ := List.mem_map.mp hd
        rw [hmem, hitem item hi]
        rfl
      -- the code compares sizes and looks up each item; with distinct names that is
      -- equality
      have hperm := (List.subperm_of_subset hnd hsub).perm_of_length_le (by omega)
      intro d
      by_cases hd : d ∈ whitelist.map DenomItem.name
      · obtain ⟨item, hi, rfl⟩ := List.mem_map.mp hd
        rw [hitem item hi, whitelisted_of_mem hnd hi]
      · have h₁ : targets.get d = none := by
          rw [← Option.not_isSome_iff_eq_none, ← hmem]
          exact fun hc => hd (hperm.symm.subset hc)
        have h₂ : whitelisted whitelist d = none := by
          rw [← Option.not_isSome_iff_eq_none, whitelisted_isSome_iff]
          exact hd
        rw [h₁, h₂]
  · intro h
    have hperm : targets.keys.Perm (whitelist.map DenomItem.name) := by
      rw [List.perm_ext_iff_of_nodup targets.keys_nodup hnd]
      intro d
      rw [hmem, h d, whitelisted_isSome_iff]
    have hlen : targets.size = whitelist.length := by
      rw [hsize, hperm.length_eq, List.length_map]
    rw [if_neg (not_not.mpr hlen), List.any_eq_false]
    intro item hi
    rw [h item.name, whitelisted_of_mem hnd hi]
    simp

/-- What `PickReferenceTerra` leaves of a target. -/
theorem targetsLeft_get (k : Keepers) (params : Params) (st : Store) (d : Denom) :
    (targetsLeft k st (requiredPower k params)).get d =
      if ballotFailed k params st d then none else st.tobinTaxes.get d := by
  unfold targetsLeft leftTargets ballotFailed
  rw [SortedMap.get_filter, collectVotes_get]
  cases ht : st.tobinTaxes.get d with
  | none => simp
  | some t =>
    by_cases hb : ballotOf (startClaims k.staking) st.votes d = []
    · simp [hb, Option.filter]
    · cases hp : passes (requiredPower k params) (ballotOf (startClaims k.staking) st.votes d) <;>
        simp [hb, hp, Option.filter]

/-- The targets after the end of a vote period. -/
theorem endBlocker_tobinTaxes {o : Outcome}
    (hlast : isPeriodLastBlock height params.votePeriod = some true)
    (h : endBlocker sched k params height st = some o) :
    ∃ targets, applyWhitelist params.whitelist (targetsLeft k st (requiredPower k params))
        ⟨st.tobinTaxes, k.bank.metadata⟩ = some targets ∧
      o.store.tobinTaxes = targets.tobinTaxes := by
  obtain ⟨o', ho', hcase⟩ := endBlocker_last hlast h
  obtain ⟨threshold, tallied, reward, targets, hthr, _, _, htargets, rfl⟩ :=
    endVotePeriod_eq_some ho'
  obtain rfl := thresholdVotes_eq_some hthr
  refine ⟨targets, htargets, ?_⟩
  rcases hcase with ⟨_, rfl⟩ | ⟨_, slashes, rfl⟩
  · rfl
  · rfl

/-- The targets equal the whitelist after a vote period, unless some target
    had a failed ballot and the others are exactly the whitelist. -/
theorem targets_eq_whitelist_iff {o : Outcome}
    (hnd : (params.whitelist.map DenomItem.name).Nodup)
    (hlast : isPeriodLastBlock height params.votePeriod = some true)
    (h : endBlocker sched k params height st = some o) :
    (∀ d, o.store.tobinTaxes.get d = whitelisted params.whitelist d) ↔
      ¬ ((∃ d, ballotFailed k params st d = true) ∧
        ∀ d, (if ballotFailed k params st d then none else st.tobinTaxes.get d) =
          whitelisted params.whitelist d) := by
  obtain ⟨targets, htargets, hstore⟩ := endBlocker_tobinTaxes hlast h
  rw [hstore]
  simp only [← targetsLeft_get]
  rw [← updateRequired_eq_false_iff hnd (targetsLeft k st (requiredPower k params))]
  unfold applyWhitelist at htargets
  cases hup : updateRequired params.whitelist (targetsLeft k st (requiredPower k params)) with
  | true =>
    -- the whitelist is written over an empty store
    rw [hup, if_pos rfl] at htargets
    refine ⟨fun _ hc => Bool.noConfusion hc.2, fun _ d => ?_⟩
    rw [foldlM_applyItem_get hnd htargets d]
    split
    · rfl
    · next hnone => exact (Option.not_isSome_iff_eq_none.mp hnone).symm
  | false =>
    rw [hup, if_neg Bool.false_ne_true] at htargets
    rw [← Option.some.inj htargets]
    have hleft := (updateRequired_eq_false_iff hnd _).mp hup
    simp only [targetsLeft_get] at hleft
    constructor
    · rintro hall ⟨⟨d, hd⟩, _⟩
      have htarget : (st.tobinTaxes.get d).isSome = true := by
        unfold ballotFailed at hd
        simp only [Bool.and_eq_true] at hd
        exact hd.1.1
      have := hleft d
      rw [if_pos hd, ← hall d] at this
      rw [← this] at htarget
      cases htarget
    · intro hnot d
      have hnf : ballotFailed k params st d = false := by
        cases hd : ballotFailed k params st d with
        | false => rfl
        | true => exact absurd ⟨⟨d, hd⟩, rfl⟩ hnot
      rw [← hleft d, hnf, if_neg Bool.false_ne_true]

/-- `uusd` has left the whitelist and its only vote abstains: it stays a target. -/
theorem targets_eq_whitelist_fails :
    ∃ o, endBlocker Schedule.inOrder smallKeepers
        { smallParams with whitelist := [⟨"ukrw", Dec.zero⟩] } ⟨4, by decide⟩
        (smallStore [("a", [⟨"ukrw", Dec.ofInt 2⟩]), ("b", [⟨"ukrw", Dec.ofInt 2⟩]),
          ("c", [⟨"uusd", Dec.zero⟩])]) = some o ∧
      isPeriodLastBlock ⟨4, by decide⟩ smallParams.votePeriod = some true ∧
      ¬ ∀ d, o.store.tobinTaxes.get d = whitelisted [⟨"ukrw", Dec.zero⟩] d := by
  have hrun : (endBlocker Schedule.inOrder smallKeepers
      { smallParams with whitelist := [⟨"ukrw", Dec.zero⟩] } ⟨4, by decide⟩
      (smallStore [("a", [⟨"ukrw", Dec.ofInt 2⟩]), ("b", [⟨"ukrw", Dec.ofInt 2⟩]),
        ("c", [⟨"uusd", Dec.zero⟩])])).map (fun o => o.store.tobinTaxes.get "uusd") =
      some (some Dec.zero) := by decide +kernel
  obtain ⟨o, ho, huusd⟩ := Option.map_eq_some_iff.mp hrun
  refine ⟨o, ho, by decide, ?_⟩
  intro hall
  have := hall "uusd"
  rw [huusd] at this
  revert this
  decide

/-- With no vote on `uusd` the target is dropped. -/
theorem targets_eq_whitelist_unvoted :
    ∃ o, endBlocker Schedule.inOrder smallKeepers
        { smallParams with whitelist := [⟨"ukrw", Dec.zero⟩] } ⟨4, by decide⟩
        (smallStore [("a", [⟨"ukrw", Dec.ofInt 2⟩]), ("b", [⟨"ukrw", Dec.ofInt 2⟩])]) = some o ∧
      ∀ d, o.store.tobinTaxes.get d = whitelisted [⟨"ukrw", Dec.zero⟩] d := by
  have hsome : (endBlocker Schedule.inOrder smallKeepers
      { smallParams with whitelist := [⟨"ukrw", Dec.zero⟩] } ⟨4, by decide⟩
      (smallStore [("a", [⟨"ukrw", Dec.ofInt 2⟩]), ("b", [⟨"ukrw", Dec.ofInt 2⟩])])).isSome := by
    decide +kernel
  obtain ⟨o, ho⟩ := Option.isSome_iff_exists.mp hsome
  refine ⟨o, ho, (targets_eq_whitelist_iff (by decide) (by decide) ho).mpr ?_⟩
  rintro ⟨_, hall⟩
  exact absurd (hall "uusd") (by decide +kernel)

end TerraClassic.Oracle
