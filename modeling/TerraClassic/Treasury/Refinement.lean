import TerraClassic.Lib.Simulation
import TerraClassic.Treasury.RawStore

/-! # The byte-keyed treasury refines the treasury of records

    The bottom level is the key-value store of `RawStore`, the upper one the record `State`
    that the safety results are about.  `Represents` relates them family by family: under
    its first byte each family of keys holds one field of the record.

    * `Represents.write`: a write under one first byte only has to be checked for its own
      family.
    * `advance_refines`: an event is matched, whether it returns or panics.
    * `treasury_store_refines`: so is every run from genesis, and afterwards each getter and
      iterator answers from the record.
-/

namespace TerraClassic.Treasury.Raw

open Oracle.Raw (Byte Bytes utf8 utf8_injective)
open KeySpace (Holds Frame frame_set frame_erase frame_clear)

/-! ### Encodings -/

/-- The values of an `int64`. -/
def int64s : Set ℤ := {n | -2 ^ 63 ≤ n ∧ n < 2 ^ 63}

theorem putUint64_injOn : Set.InjOn putUint64 int64s := by
  intro n hn n' hn' h
  have hn : -2 ^ 63 ≤ n ∧ n < 2 ^ 63 := hn
  have hn' : -2 ^ 63 ≤ n' ∧ n' < 2 ^ 63 := hn'
  have hlt : ∀ m : ℤ, toUint64 m < 256 ^ 8 := by
    intro m
    unfold toUint64
    omega
  have hmod := KeySpace.leBytes_injective (hlt n) (hlt n') h
  unfold toUint64 at hmod
  omega

theorem toInt64_mem (x : ℤ) : toInt64 x ∈ int64s := by
  have hle := Int.le_bmod (x := x) (m := 2 ^ 64) (by norm_num)
  have hlt := toInt64_lt x
  show -2 ^ 63 ≤ toInt64 x ∧ toInt64 x < 2 ^ 63
  unfold toInt64 at *
  omega

theorem getEpoch_mem (height : BlockHeight) : getEpoch height ∈ int64s := by
  have hnonneg := getEpoch_nonneg height
  have hlt := getEpoch_succ_lt height
  show -2 ^ 63 ≤ getEpoch height ∧ getEpoch height < 2 ^ 63
  omega

/-! ### The relation -/

/-- The families of keys. -/
inductive Family where
  | taxRate
  | rewardWeight
  | taxCap
  | taxProceeds
  | epochInitialIssuance
  | tr
  | sr
  | tsl
  | exemption
  deriving DecidableEq

/-- The first byte of a family. -/
def Family.first : Family → Byte
  | .taxRate => 0x01
  | .rewardWeight => 0x02
  | .taxCap => 0x03
  | .taxProceeds => 0x04
  | .epochInitialIssuance => 0x05
  | .tr => 0x06
  | .sr => 0x07
  | .tsl => 0x08
  | .exemption => 0x20

/-- What the store holds under a family is what the record has. -/
def Family.Represents (kv : KVStore) (s : Treasury.State) : Family → Prop
  | .taxRate => kv.get taxRateKey = s.store.taxRate.map .dec
  | .rewardWeight => kv.get rewardWeightKey = s.store.rewardWeight.map .dec
  | .taxCap => Holds kv 0x03 Set.univ utf8 .int s.store.taxCaps
  | .taxProceeds => peekEpochTaxProceeds kv = some s.store.taxProceeds
  | .epochInitialIssuance => getEpochInitialIssuance kv = some s.store.epochInitialIssuance
  | .tr => Holds kv 0x06 int64s putUint64 .dec s.store.tr
  | .sr => Holds kv 0x07 int64s putUint64 .dec s.store.sr
  | .tsl => Holds kv 0x08 int64s putUint64 .int s.store.tsl
  | .exemption => Holds kv 0x20 Set.univ utf8 (fun _ => .bytes [0x01]) s.burnTaxExemptionList

/-- The store holds the record. -/
def Represents (kv : KVStore) (s : Treasury.State) : Prop := ∀ f : Family, f.Represents kv s

/-- A write under another first byte. -/
theorem Family.Represents.frame {f : Family} {first : Byte} {kv kv' : KVStore}
    {s : Treasury.State} (h : f.Represents kv s) (hne : f.first ≠ first)
    (hframe : Frame first kv kv') : f.Represents kv' s := by
  have hkey : kv'.get [f.first] = kv.get [f.first] :=
    hframe _ (fun heq => hne (Option.some.inj heq))
  cases f with
  | taxRate => exact hkey.trans h
  | rewardWeight => exact hkey.trans h
  | taxCap => exact Holds.frame h hframe hne
  | taxProceeds =>
    show read kv' taxProceedsKey _ _ = _
    unfold read
    rw [show kv'.get taxProceedsKey = kv.get taxProceedsKey from hkey]
    exact h
  | epochInitialIssuance =>
    show read kv' epochInitialIssuanceKey _ _ = _
    unfold read
    rw [show kv'.get epochInitialIssuanceKey = kv.get epochInitialIssuanceKey from hkey]
    exact h
  | tr => exact Holds.frame h hframe hne
  | sr => exact Holds.frame h hframe hne
  | tsl => exact Holds.frame h hframe hne
  | exemption => exact Holds.frame h hframe hne

theorem Family.first_injective : Function.Injective Family.first := by
  intro f g h
  cases f <;> cases g <;> first | rfl | exact absurd h (by decide)

/-- A write under one first byte, matched by an update of the record that leaves the other
    fields alone. -/
theorem Represents.write {kv kv' : KVStore} {s s' : Treasury.State} (h : Represents kv s)
    (w : Family) (hframe : Frame w.first kv kv')
    (hsame : ∀ f : Family, f ≠ w → f.Represents kv' s → f.Represents kv' s')
    (hw : w.Represents kv' s') : Represents kv' s' := by
  refine KeySpace.forall_family_of_frame Family.first_injective
    (fun f kv s => f.Represents kv s) ?_ h w hframe hsame hw
  intro f symbol kv kv' s hne hframe hf
  exact hf.frame hne hframe

theorem represents_empty (params : Params) :
    Represents ∅ ⟨⟨params, none, none, ∅, ∅, ∅, ∅, ∅, ∅⟩, ∅⟩ := by
  intro f
  cases f with
  | taxRate => rfl
  | rewardWeight => rfl
  | taxCap => exact Holds.empty
  | taxProceeds => rfl
  | epochInitialIssuance => rfl
  | tr => exact Holds.empty
  | sr => exact Holds.empty
  | tsl => exact Holds.empty
  | exemption => exact Holds.empty

/-- The parameters are in another store. -/
theorem represents_params {kv : KVStore} {s : Treasury.State} (h : Represents kv s)
    (params : Params) : Represents kv { s with store := { s.store with params := params } } := by
  intro f
  have hf := h f
  cases f <;> exact hf

/-! ### Getters -/

section Getters

variable {kv : KVStore} {s : Treasury.State}

theorem getTaxRate_eq (h : Represents kv s) :
    getTaxRate kv = some (Treasury.getTaxRate s.store) := by
  have hget : kv.get taxRateKey = s.store.taxRate.map .dec := h .taxRate
  unfold getTaxRate read Treasury.getTaxRate
  rw [hget]
  cases s.store.taxRate <;> rfl

theorem getRewardWeight_eq (h : Represents kv s) :
    getRewardWeight kv = some (Treasury.getRewardWeight s.store) := by
  have hget : kv.get rewardWeightKey = s.store.rewardWeight.map .dec := h .rewardWeight
  unfold getRewardWeight read Treasury.getRewardWeight
  rw [hget]
  cases s.store.rewardWeight <;> rfl

/-- A read of one entry of a family. -/
theorem read_eq {K W : Type} [LinearOrder K] {first : Byte} {D : Set K} {encode : K → Bytes}
    {wrap : W → Value} {unwrap : Value → Option W} {m : SortedMap K W}
    (h : Holds kv first D encode wrap m) (hinj : Set.InjOn encode D)
    (hunwrap : ∀ w, unwrap (wrap w) = some w) {k : K} (hk : k ∈ D) (missing : W) :
    read kv (first :: encode k) unwrap missing = some (m.getD k missing) := by
  unfold read SortedMap.getD
  rw [h.get hinj hk]
  cases m.get k with
  | none => rfl
  | some w => exact hunwrap w

theorem getTaxCap_eq {raw : State} (h : Represents raw.kv s)
    (hparams : raw.params = s.store.params) (denom : Denom) :
    getTaxCap raw denom =
      some (s.store.taxCaps.getD denom s.store.params.taxPolicy.cap.amount) := by
  unfold getTaxCap
  rw [hparams]
  exact read_eq (h .taxCap) utf8_injective.injOn (fun _ => rfl) (Set.mem_univ denom) _

theorem getTR_eq (h : Represents kv s) {epoch : ℤ} (he : epoch ∈ int64s) :
    getTR kv epoch = some (Treasury.getTR s.store epoch) :=
  read_eq (h .tr) putUint64_injOn (fun _ => rfl) he _

theorem getSR_eq (h : Represents kv s) {epoch : ℤ} (he : epoch ∈ int64s) :
    getSR kv epoch = some (Treasury.getSR s.store epoch) :=
  read_eq (h .sr) putUint64_injOn (fun _ => rfl) he _

theorem getTSL_eq (h : Represents kv s) {epoch : ℤ} (he : epoch ∈ int64s) :
    getTSL kv epoch = some (Treasury.getTSL s.store epoch) :=
  read_eq (h .tsl) putUint64_injOn (fun _ => rfl) he _

theorem peekEpochSeigniorage_eq (h : Represents kv s) (bank : Bank) :
    peekEpochSeigniorage bank kv = some (Treasury.peekEpochSeigniorage bank s.store) := by
  have hissuance : getEpochInitialIssuance kv = _ := h .epochInitialIssuance
  unfold peekEpochSeigniorage
  rw [hissuance]
  rfl

/-- The mark of an address is there exactly when the record lists it. -/
theorem exemption_isSome (h : Represents kv s) (address : String) :
    (kv.get (exemptionKey address)).isSome = (s.burnTaxExemptionList.get address).isSome := by
  have hholds : Holds kv 0x20 Set.univ utf8 _ s.burnTaxExemptionList := h .exemption
  unfold exemptionKey
  rw [hholds.get utf8_injective.injOn (Set.mem_univ address), Option.isSome_map]

theorem hasBurnTaxExemptionAddress_eq (h : Represents kv s) (addresses : List String) :
    hasBurnTaxExemptionAddress kv addresses =
      Treasury.hasBurnTaxExemptionAddress s addresses :=
  congrArg addresses.all (funext (exemption_isSome h))

end Getters

/-! ### Writes -/

section Writes

variable {kv : KVStore} {s : Treasury.State}

theorem represents_setTaxRate (h : Represents kv s) (taxRate : Dec) :
    Represents (setTaxRate kv taxRate)
      { s with store := { s.store with taxRate := some taxRate } } := by
  refine h.write .taxRate (frame_set kv 0x01 [] _) ?_ (SortedMap.get_set_self _ _ _)
  intro f hf
  cases f <;> first | exact id | exact absurd rfl hf

theorem represents_setRewardWeight (h : Represents kv s) (rewardWeight : Dec) :
    Represents (setRewardWeight kv rewardWeight)
      { s with store := { s.store with rewardWeight := some rewardWeight } } := by
  refine h.write .rewardWeight (frame_set kv 0x02 [] _) ?_ (SortedMap.get_set_self _ _ _)
  intro f hf
  cases f <;> first | exact id | exact absurd rfl hf

theorem represents_setTaxCap (h : Represents kv s) (denom : Denom) (cap : ℤ) :
    Represents (setTaxCap kv denom cap)
      { s with store := { s.store with taxCaps := s.store.taxCaps.set denom cap } } := by
  have hholds : Holds kv 0x03 Set.univ utf8 _ s.store.taxCaps := h .taxCap
  refine h.write .taxCap (frame_set kv 0x03 _ _) ?_
    (hholds.set utf8_injective.injOn (Set.mem_univ denom) cap)
  intro f hf
  cases f <;> first | exact id | exact absurd rfl hf

theorem represents_setEpochTaxProceeds (h : Represents kv s) (taxProceeds : Coins) :
    Represents (setEpochTaxProceeds kv taxProceeds)
      { s with store := { s.store with taxProceeds := taxProceeds } } := by
  refine h.write .taxProceeds (frame_set kv 0x04 [] _) ?_ ?_
  · intro f hf
    cases f <;> first | exact id | exact absurd rfl hf
  · show read _ taxProceedsKey _ _ = _
    unfold read setEpochTaxProceeds
    rw [SortedMap.get_set_self]
    rfl

theorem represents_setEpochInitialIssuance (h : Represents kv s) (issuance : Coins) :
    Represents (setEpochInitialIssuance kv issuance)
      { s with store := { s.store with epochInitialIssuance := issuance } } := by
  refine h.write .epochInitialIssuance (frame_set kv 0x05 [] _) ?_ ?_
  · intro f hf
    cases f <;> first | exact id | exact absurd rfl hf
  · show read _ epochInitialIssuanceKey _ _ = _
    unfold read setEpochInitialIssuance
    rw [SortedMap.get_set_self]
    rfl

theorem represents_setTR (h : Represents kv s) {epoch : ℤ} (he : epoch ∈ int64s) (tr : Dec) :
    Represents (setTR kv epoch tr)
      { s with store := { s.store with tr := s.store.tr.set epoch tr } } := by
  have hholds : Holds kv 0x06 int64s putUint64 _ s.store.tr := h .tr
  refine h.write .tr (frame_set kv 0x06 _ _) ?_ (hholds.set putUint64_injOn he tr)
  intro f hf
  cases f <;> first | exact id | exact absurd rfl hf

theorem represents_setSR (h : Represents kv s) {epoch : ℤ} (he : epoch ∈ int64s) (sr : Dec) :
    Represents (setSR kv epoch sr)
      { s with store := { s.store with sr := s.store.sr.set epoch sr } } := by
  have hholds : Holds kv 0x07 int64s putUint64 _ s.store.sr := h .sr
  refine h.write .sr (frame_set kv 0x07 _ _) ?_ (hholds.set putUint64_injOn he sr)
  intro f hf
  cases f <;> first | exact id | exact absurd rfl hf

theorem represents_setTSL (h : Represents kv s) {epoch : ℤ} (he : epoch ∈ int64s) (tsl : ℤ) :
    Represents (setTSL kv epoch tsl)
      { s with store := { s.store with tsl := s.store.tsl.set epoch tsl } } := by
  have hholds : Holds kv 0x08 int64s putUint64 _ s.store.tsl := h .tsl
  refine h.write .tsl (frame_set kv 0x08 _ _) ?_ (hholds.set putUint64_injOn he tsl)
  intro f hf
  cases f <;> first | exact id | exact absurd rfl hf

theorem represents_setExemption (h : Represents kv s) (address : String) :
    Represents (kv.set (exemptionKey address) (.bytes [0x01]))
      { s with burnTaxExemptionList := s.burnTaxExemptionList.set address () } := by
  have hholds : Holds kv 0x20 Set.univ utf8 _ s.burnTaxExemptionList := h .exemption
  refine h.write .exemption (frame_set kv 0x20 _ _) ?_
    (hholds.set utf8_injective.injOn (Set.mem_univ address) ())
  intro f hf
  cases f <;> first | exact id | exact absurd rfl hf

theorem represents_eraseExemption (h : Represents kv s) (address : String) :
    Represents (kv.erase (exemptionKey address))
      { s with burnTaxExemptionList := s.burnTaxExemptionList.erase address } := by
  have hholds : Holds kv 0x20 Set.univ utf8 _ s.burnTaxExemptionList := h .exemption
  refine h.write .exemption (frame_erase kv 0x20 _) ?_
    (hholds.erase utf8_injective.injOn (Set.mem_univ address))
  intro f hf
  cases f <;> first | exact id | exact absurd rfl hf

theorem represents_clearTRs (h : Represents kv s) :
    Represents (clearTRs kv) { s with store := { s.store with tr := ∅ } } := by
  refine h.write .tr (frame_clear kv 0x06) ?_ (Holds.clear kv)
  intro f hf
  cases f <;> first | exact id | exact absurd rfl hf

theorem represents_clearSRs (h : Represents kv s) :
    Represents (clearSRs kv) { s with store := { s.store with sr := ∅ } } := by
  refine h.write .sr (frame_clear kv 0x07) ?_ (Holds.clear kv)
  intro f hf
  cases f <;> first | exact id | exact absurd rfl hf

theorem represents_clearTSLs (h : Represents kv s) :
    Represents (clearTSLs kv) { s with store := { s.store with tsl := ∅ } } := by
  refine h.write .tsl (frame_clear kv 0x08) ?_ (Holds.clear kv)
  intro f hf
  cases f <;> first | exact id | exact absurd rfl hf

end Writes

/-! ### Indicators and policies -/

theorem mem_visitedEpochs {curEpoch epochs i : ℤ} (h : i ∈ visitedEpochs curEpoch epochs) :
    0 ≤ i ∧ i ≤ curEpoch := by
  have hmem : ∃ n : ℕ, n < (curEpoch + 1).toNat ∧ i = (n : ℤ) := by
    simpa using (List.takeWhile_sublist _).subset h
  omega

/-- Sums of two indicators that agree where the loop goes. -/
theorem sumIndicator_congr {f g : ℤ → Option Dec} {curEpoch epochs : ℤ}
    (h : ∀ i ∈ visitedEpochs curEpoch epochs, f i = g i) :
    sumIndicator f curEpoch epochs = sumIndicator g curEpoch epochs := by
  unfold sumIndicator
  generalize visitedEpochs curEpoch epochs = l at h
  generalize Dec.zero = acc
  induction l generalizing acc with
  | nil => rfl
  | cons i rest ih =>
    rw [List.foldlM_cons, List.foldlM_cons, h i List.mem_cons_self]
    refine congrArg (Option.bind _) (funext fun sum => ?_)
    exact ih (fun j hj => h j (List.mem_cons_of_mem i hj)) sum

theorem rollingAverageIndicator_congr {f g : ℤ → Option Dec} {curEpoch epochs : ℤ}
    (h : ∀ i ∈ visitedEpochs curEpoch epochs, f i = g i) :
    rollingAverageIndicator f curEpoch epochs = rollingAverageIndicator g curEpoch epochs := by
  unfold rollingAverageIndicator
  rw [sumIndicator_congr h]

section Indicators

variable {kv : KVStore} {s : Treasury.State} {height : BlockHeight}

/-- The epochs of the loops are keys that do not collide. -/
theorem mem_int64s_of_visited {epochs i : ℤ} (h : i ∈ visitedEpochs (getEpoch height) epochs) :
    i ∈ int64s := by
  have hi := mem_visitedEpochs h
  have hlt := getEpoch_succ_lt height
  show -2 ^ 63 ≤ i ∧ i < 2 ^ 63
  omega

theorem trl_eq (h : Represents kv s) {epoch : ℤ} (he : epoch ∈ int64s) :
    trl kv epoch = some (Treasury.trl s.store epoch) := by
  unfold trl
  rw [getTR_eq h he, getTSL_eq h he]
  rfl

theorem mr_eq (h : Represents kv s) {epoch : ℤ} (he : epoch ∈ int64s) :
    mr kv epoch = Treasury.mr s.store epoch := by
  unfold mr
  rw [getTR_eq h he, getSR_eq h he]
  rfl

end Indicators

/-- The store after an operation of the keeper holds the record after it; the parameters and
    the exemption list are not touched. -/
def Refines (params : Params) (exempt : SortedMap String Unit) (kv : KVStore) (st : Store) :
    Prop :=
  Represents kv ⟨st, exempt⟩ ∧ st.params = params

section Operations

variable {kv : KVStore} {st : Store} {params : Params} {exempt : SortedMap String Unit}
  {height : BlockHeight} {k : Keepers} {bank : Bank}

theorem updateIndicators_refines (h : Refines params exempt kv st) :
    Option.Rel (Refines params exempt) (updateIndicators k bank height kv)
      (Treasury.updateIndicators k bank height st) := by
  obtain ⟨h, hparams⟩ := h
  have he := getEpoch_mem height
  have h₁ := represents_setTSL h he k.totalBondedTokens
  have hproceeds : peekEpochTaxProceeds (setTSL kv (getEpoch height) k.totalBondedTokens) =
      some st.taxProceeds := h₁ .taxProceeds
  unfold updateIndicators Treasury.updateIndicators
  refine Simulation.rel_bind_read hproceeds ?_
  refine Simulation.rel_bind_same fun taxRewards _ => ?_
  refine Simulation.rel_bind_same fun tr _ => ?_
  have h₂ := represents_setTR h₁ he tr
  have h₃ := represents_setEpochTaxProceeds h₂ ∅
  -- the seigniorage and the weight are read from the store as it is by now
  refine Simulation.rel_bind_read (peekEpochSeigniorage_eq h₃ bank) ?_
  refine Simulation.rel_bind_read (getRewardWeight_eq h₃) ?_
  refine Simulation.rel_bind_same fun amt _ => ?_
  refine Simulation.rel_bind_same fun reward _ => ?_
  refine Simulation.rel_bind_same fun sr _ => ?_
  exact .some ⟨represents_setSR h₃ he sr, hparams⟩

theorem updateTaxPolicy_refines (h : Refines params exempt kv st) :
    Option.Rel (Refines params exempt) (updateTaxPolicy height ⟨kv, params⟩)
      (Treasury.updateTaxPolicy height st) := by
  obtain ⟨h, rfl⟩ := h
  have htrl : ∀ epochs, ∀ i ∈ visitedEpochs (getEpoch height) epochs,
      trl kv i = some (Treasury.trl st i) := fun epochs i hi =>
    trl_eq h (mem_int64s_of_visited hi)
  unfold updateTaxPolicy Treasury.updateTaxPolicy
  simp only [rollingAverageIndicator_congr (htrl _)]
  refine Simulation.rel_bind_read (getTaxRate_eq h) ?_
  refine Simulation.rel_bind_same fun tlYear _ => ?_
  refine Simulation.rel_bind_same fun tlMonth _ => ?_
  refine Simulation.rel_bind_same fun newTaxRate _ => ?_
  refine Simulation.rel_bind_same fun clamped _ => ?_
  exact .some ⟨represents_setTaxRate h clamped, rfl⟩

theorem updateRewardPolicy_refines (h : Refines params exempt kv st) :
    Option.Rel (Refines params exempt) (updateRewardPolicy height ⟨kv, params⟩)
      (Treasury.updateRewardPolicy height st) := by
  obtain ⟨h, rfl⟩ := h
  have hsr : ∀ epochs, ∀ i ∈ visitedEpochs (getEpoch height) epochs,
      sr kv i = some (Treasury.getSR st i) := fun epochs i hi =>
    getSR_eq h (mem_int64s_of_visited hi)
  have hmr : ∀ epochs, ∀ i ∈ visitedEpochs (getEpoch height) epochs,
      mr kv i = Treasury.mr st i := fun epochs i hi => mr_eq h (mem_int64s_of_visited hi)
  unfold updateRewardPolicy Treasury.updateRewardPolicy
  simp only [sumIndicator_congr (hsr _), sumIndicator_congr (hmr _)]
  refine Simulation.rel_bind_read (getRewardWeight_eq h) ?_
  refine Simulation.rel_bind_same fun seigniorageSum _ => ?_
  refine Simulation.rel_bind_same fun totalSum _ => ?_
  refine Simulation.rel_bind_same fun newRewardWeight _ => ?_
  refine Simulation.rel_bind_same fun clamped _ => ?_
  exact .some ⟨represents_setRewardWeight h clamped, rfl⟩

/-- One denom of the loop, on the caps of the record. -/
theorem updateTaxCapOf_refines {taxPolicyCap : DecCoin} {taxCaps : SortedMap Denom ℤ}
    (h : Represents kv ⟨{ st with taxCaps := taxCaps }, exempt⟩) (m : Market.Keeper)
    (denom : Denom) :
    Option.Rel (fun kv taxCaps => Represents kv ⟨{ st with taxCaps := taxCaps }, exempt⟩)
      (updateTaxCapOf m taxPolicyCap kv denom)
      (Treasury.updateTaxCapOf m taxPolicyCap taxCaps denom) := by
  unfold updateTaxCapOf Treasury.updateTaxCapOf
  split
  · exact .some h
  · cases Market.computeInternalSwap m taxPolicyCap denom with
    | error err =>
      cases err with
      | panicked => exact .none
      | _ => exact .some h
    | ok newDecCap =>
      refine Simulation.rel_bind_same fun truncated _ => ?_
      exact .some (represents_setTaxCap h truncated.1.denom truncated.1.amount)

theorem updateTaxCap_refines (h : Refines params exempt kv st) :
    Option.Rel (Refines params exempt) (updateTaxCap k ⟨kv, params⟩)
      (Treasury.updateTaxCap k st) := by
  obtain ⟨h, rfl⟩ := h
  unfold updateTaxCap Treasury.updateTaxCap
  refine Simulation.rel_bind_same fun taxPolicyCap _ => ?_
  have hloop := Simulation.rel_foldlM (l := k.whitelist)
    (R := fun kv taxCaps => Represents kv ⟨{ st with taxCaps := taxCaps }, exempt⟩)
    (f := updateTaxCapOf k.market taxPolicyCap)
    (fun kv taxCaps denom _ h => updateTaxCapOf_refines h k.market denom) h
  exact Simulation.rel_bind_right hloop (fun kv taxCaps h => .some ⟨h, rfl⟩)

theorem updatePolicies_refines (h : Refines params exempt kv st) :
    Option.Rel (Refines params exempt) (updatePolicies k height ⟨kv, params⟩)
      (Treasury.updatePolicies k height st) := by
  unfold updatePolicies Treasury.updatePolicies
  rw [h.2]
  split
  · exact .some h
  · refine Simulation.rel_bind (updateTaxPolicy_refines h) fun kv₁ st₁ h₁ => ?_
    refine Simulation.rel_bind (updateRewardPolicy_refines h₁) fun kv₂ st₂ h₂ => ?_
    exact updateTaxCap_refines h₂

theorem recordEpochInitialIssuance_refines (h : Refines params exempt kv st) :
    Refines params exempt (recordEpochInitialIssuance k bank kv)
      (Treasury.recordEpochInitialIssuance k bank st) :=
  ⟨represents_setEpochInitialIssuance h.1 _, h.2⟩

theorem endBlocker_refines (h : Refines params exempt kv st) :
    Option.Rel (fun out out' => out.1 = out'.1 ∧ Refines params exempt out.2 out'.2)
      (endBlocker k height bank ⟨kv, params⟩) (Treasury.endBlocker k height bank st) := by
  unfold endBlocker Treasury.endBlocker
  refine Simulation.rel_bind_same fun weekEnds _ => ?_
  cases weekEnds with
  | false => exact .some ⟨rfl, h⟩
  | true =>
    refine Simulation.rel_bind (updateIndicators_refines h) fun kv₁ st₁ h₁ => ?_
    refine Simulation.rel_bind (updatePolicies_refines h₁) fun kv₂ st₂ h₂ => ?_
    exact .some ⟨rfl, recordEpochInitialIssuance_refines h₂⟩

theorem recordEpochTaxProceeds_refines (h : Refines params exempt kv st) (delta : Coins) :
    Option.Rel (Refines params exempt) (recordEpochTaxProceeds delta kv)
      (Treasury.recordEpochTaxProceeds delta st) := by
  have hproceeds : peekEpochTaxProceeds kv = some st.taxProceeds := h.1 .taxProceeds
  unfold recordEpochTaxProceeds Treasury.recordEpochTaxProceeds addTaxProceeds
  split
  · exact .some h
  · refine Simulation.rel_bind_read hproceeds ?_
    refine Simulation.rel_bind_same fun proceeds _ => ?_
    exact .some ⟨represents_setEpochTaxProceeds h.1 proceeds, h.2⟩

end Operations

/-! ### Exemptions -/

section Exemptions

variable {kv : KVStore} {s : Treasury.State} {bech32 : Bech32} {params : Params}

theorem addBurnTaxExemptionAddress_refines {st : Store} {exempt : SortedMap String Unit}
    (h : Represents kv ⟨st, exempt⟩) (address : String) :
    Option.Rel (fun kv exempt => Represents kv ⟨st, exempt⟩)
      (addBurnTaxExemptionAddress bech32 kv address)
      (Treasury.addBurnTaxExemptionAddress bech32 exempt address) := by
  unfold addBurnTaxExemptionAddress Treasury.addBurnTaxExemptionAddress
  cases bech32.accAddressFromBech32 address with
  | error err => exact .none
  | ok addr => exact .some (represents_setExemption h address)

/-- Both removals fail with the same text or return stores that match. -/
def RemovalRefines (st : Store) :
    Except String KVStore → Except String (SortedMap String Unit) → Prop
  | .ok kv, .ok exempt => Represents kv ⟨st, exempt⟩
  | .error err, .error err' => err = err'
  | _, _ => False

theorem removeAll_refines {st : Store} {exempt : SortedMap String Unit}
    (h : Represents kv ⟨st, exempt⟩) (addresses : List String) :
    Option.Rel (RemovalRefines st) (removeAll bech32 addresses kv)
      (Treasury.removeAll bech32 addresses exempt) := by
  induction addresses generalizing kv exempt with
  | nil => exact .some h
  | cons address rest ih =>
    unfold removeAll Treasury.removeAll removeBurnTaxExemptionAddress
      Treasury.removeBurnTaxExemptionAddress
    cases bech32.accAddressFromBech32 address with
    | error err => exact .none
    | ok addr =>
      have hlisted : (kv.get (exemptionKey address)).isNone = (exempt.get address).isNone := by
        rw [← Option.not_isSome, ← Option.not_isSome, exemption_isSome h]
      simp only [hlisted]
      cases hnone : (exempt.get address).isNone with
      | true => exact .some rfl
      | false => exact ih (represents_eraseExemption h address)

end Exemptions

/-! ### Runs -/

/-- The two levels are in step. -/
def InStep (raw : State) (s : Treasury.State) : Prop :=
  raw.params = s.store.params ∧ Represents raw.kv s

theorem Refines.inStep {kv : KVStore} {s : Treasury.State} {params : Params} {st : Store}
    (h : Refines params s.burnTaxExemptionList kv st) :
    InStep ⟨kv, params⟩ { s with store := st } := ⟨h.2.symm, h.1⟩

/-- An event is matched, whether it returns or panics. -/
theorem advance_refines (bech32 : Bech32) (validDenom : Denom → Bool) {raw : State}
    {s : Treasury.State} (event : Event) (h : InStep raw s) :
    Option.Rel InStep (advance bech32 validDenom raw event)
      (Treasury.advance bech32 validDenom s event) := by
  have href : Refines raw.params s.burnTaxExemptionList raw.kv s.store := ⟨h.2, h.1.symm⟩
  cases event with
  | endBlock k height bank =>
    refine Simulation.rel_bind (endBlocker_refines href) fun out out' hout => ?_
    exact .some hout.2.inStep
  | taxes delta =>
    refine Simulation.rel_bind (recordEpochTaxProceeds_refines href delta) fun kv st hst => ?_
    exact .some hst.inStep
  | addExemptions addresses =>
    have hloop := Simulation.rel_foldlM (l := addresses)
      (R := fun kv exempt => Represents kv ⟨s.store, exempt⟩)
      (f := addBurnTaxExemptionAddress bech32)
      (fun kv exempt address _ h => addBurnTaxExemptionAddress_refines h address) h.2
    exact Simulation.rel_bind hloop fun kv exempt hkv => .some ⟨h.1, hkv⟩
  | removeExemptions addresses =>
    refine Simulation.rel_bind (removeAll_refines h.2 addresses) fun out out' hout => ?_
    cases out with
    | error err =>
      cases out' with
      | error err' => exact .some h
      | ok exempt => exact hout.elim
    | ok kv =>
      cases out' with
      | error err' => exact hout.elim
      | ok exempt => exact .some ⟨h.1, hout⟩
  | params params =>
    simp only [advance, Treasury.advance]
    cases params.checkPairs validDenom with
    | error err => exact .some h
    | ok u => exact .some ⟨rfl, represents_params h.2 params⟩

/-- The loop over the epochs of the genesis file. -/
theorem importEpochStates_refines (l : List EpochState) {kv : KVStore} {st : Store}
    {exempt : SortedMap String Unit} (h : Represents kv ⟨st, exempt⟩) :
    Represents (l.foldl importEpochState kv)
      ⟨{ st with
        tr := l.foldl (fun m e => m.set (toInt64 e.epoch.toNat) e.taxReward) st.tr
        sr := l.foldl (fun m e => m.set (toInt64 e.epoch.toNat) e.seigniorageReward) st.sr
        tsl := l.foldl (fun m e => m.set (toInt64 e.epoch.toNat) e.totalStakedLuna) st.tsl },
        exempt⟩ := by
  induction l generalizing kv st with
  | nil => exact h
  | cons e rest ih =>
    have he := toInt64_mem e.epoch.toNat
    have h₁ := represents_setTR h he e.taxReward
    have h₂ := represents_setSR h₁ he e.seigniorageReward
    have h₃ := represents_setTSL h₂ he e.totalStakedLuna
    exact ih h₃

theorem setTaxCaps_refines (l : List (Denom × ℤ)) {kv : KVStore} {st : Store}
    {exempt : SortedMap String Unit} (h : Represents kv ⟨st, exempt⟩) :
    Represents (l.foldl (fun kv cap => setTaxCap kv cap.1 cap.2) kv)
      ⟨{ st with taxCaps := l.foldl (fun caps e => caps.set e.1 e.2) st.taxCaps }, exempt⟩ := by
  induction l generalizing kv st with
  | nil => exact h
  | cons cap rest ih => exact ih (represents_setTaxCap h cap.1 cap.2)

theorem initGenesis_refines (validDenom : Denom → Bool) (k : Keepers) (bank : Bank)
    (data : GenesisState) :
    Option.Rel InStep (initGenesis validDenom k bank data)
      (importGenesis validDenom k bank data) := by
  unfold initGenesis importGenesis
  cases data.params.checkPairs validDenom with
  | error err => exact .none
  | ok u =>
    have h₁ := represents_setTaxRate (represents_empty data.params) data.taxRate
    have h₂ := represents_setRewardWeight h₁ data.rewardWeight
    have h₃ := represents_setEpochTaxProceeds h₂ data.taxProceeds
    refine .some ⟨?_, ?_⟩
    · exact (initGenesis_rest k bank data).1.symm
    · unfold Treasury.initGenesis
      cases data.epochInitialIssuance.isZero with
      | true =>
        have h₄ := represents_setEpochInitialIssuance h₃
          ((microLunaDenom :: k.whitelist).foldl
            (fun issuance denom => issuance.set denom (bank.supply denom : ℤ)) ∅)
        exact importEpochStates_refines data.epochStates (setTaxCaps_refines data.taxCaps h₄)
      | false =>
        have h₄ := represents_setEpochInitialIssuance h₃ data.epochInitialIssuance
        exact importEpochStates_refines data.epochStates (setTaxCaps_refines data.taxCaps h₄)

/-- What the getters and iterators of the keeper answer is what the record has. -/
structure Answers (raw : State) (s : Treasury.State) : Prop where
  params : raw.params = s.store.params
  taxRate : getTaxRate raw.kv = some (Treasury.getTaxRate s.store)
  rewardWeight : getRewardWeight raw.kv = some (Treasury.getRewardWeight s.store)
  taxCap : ∀ denom, getTaxCap raw denom =
    some (s.store.taxCaps.getD denom s.store.params.taxPolicy.cap.amount)
  /-- Each registered cap once, in the order of the bytes of the denoms. -/
  taxCaps : ∃ caps, iterateTaxCap raw.kv = some caps ∧
    (∀ bz cap, (bz, cap) ∈ caps ↔ ∃ denom, bz = utf8 denom ∧ s.store.taxCaps.get denom = some cap) ∧
    caps.Pairwise (fun e e' => e.1 < e'.1)
  taxProceeds : peekEpochTaxProceeds raw.kv = some s.store.taxProceeds
  epochInitialIssuance : getEpochInitialIssuance raw.kv = some s.store.epochInitialIssuance
  seigniorage : ∀ bank, peekEpochSeigniorage bank raw.kv =
    some (Treasury.peekEpochSeigniorage bank s.store)
  indicators : ∀ epoch ∈ int64s, getTR raw.kv epoch = some (Treasury.getTR s.store epoch) ∧
    getSR raw.kv epoch = some (Treasury.getSR s.store epoch) ∧
    getTSL raw.kv epoch = some (Treasury.getTSL s.store epoch)
  exemptions : ∀ addresses, hasBurnTaxExemptionAddress raw.kv addresses =
    Treasury.hasBurnTaxExemptionAddress s addresses

theorem InStep.answers {raw : State} {s : Treasury.State} (h : InStep raw s) : Answers raw s where
  params := h.1
  taxRate := getTaxRate_eq h.2
  rewardWeight := getRewardWeight_eq h.2
  taxCap := getTaxCap_eq h.2 h.1
  taxCaps := Holds.iterate (h.2 .taxCap) (fun _ => rfl)
  taxProceeds := h.2 .taxProceeds
  epochInitialIssuance := h.2 .epochInitialIssuance
  seigniorage := peekEpochSeigniorage_eq h.2
  indicators := fun _ he => ⟨getTR_eq h.2 he, getSR_eq h.2 he, getTSL_eq h.2 he⟩
  exemptions := hasBurnTaxExemptionAddress_eq h.2

/-- From every genesis file and through every run of end blocks, recorded taxes, exemption
    proposals and parameter changes, the byte-keyed store and the record stay in step: one
    halts exactly when the other does, and every getter and iterator answers from the record. -/
theorem treasury_store_refines (bech32 : Bech32) (validDenom : Denom → Bool) (k : Keepers)
    (bank : Bank) (data : GenesisState) (events : List Event) :
    Option.Rel Answers
      ((initGenesis validDenom k bank data).bind (Run.run (advance bech32 validDenom) events))
      ((importGenesis validDenom k bank data).bind
        (Run.run (Treasury.advance bech32 validDenom) events)) := by
  have hrun := Simulation.rel_bind (initGenesis_refines validDenom k bank data) fun raw s h =>
    Simulation.rel_run (fun raw s event => advance_refines bech32 validDenom event) events h
  exact Simulation.rel_mono hrun fun raw s h => h.answers

end TerraClassic.Treasury.Raw
