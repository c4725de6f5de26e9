import TerraClassic.Ante.Fee

/-! # The tax of a tree of messages

    `FilterMsgAndComputeTax` walks the messages of a transaction and goes into
    every `authz.MsgExec`.  Its result is the sum of the taxes of the leaves, the
    messages that are no `MsgExec`, and panics where one of them does or where
    the sum is out of its bit bound.

    `Totals` says what a tax computation returns without saying how it went;
    two computations with the same totals are equal (`Totals.unique`).  Taxes are
    not negative, so a partial sum is within the bound when the whole is, and
    the order and the nesting of the additions do not show.
-/

namespace TerraClassic.Ante

/-! ### Coin sets that `Add` returns -/

/-- The upper bound of an `sdk.Int`. -/
def maxAmount : ℤ := 2 ^ 256

/-- A coin set that the SDK calls valid: positive amounts of valid denoms. -/
def ValidCoins (tk : TreasuryKeeper) (c : Coins) : Prop :=
  ∀ d a, c.get d = some a → tk.validDenom d = true ∧ 0 < a

theorem validCoins_empty (tk : TreasuryKeeper) : ValidCoins tk ∅ := by
  intro d a h
  cases h

theorem ValidCoins.noZero {tk : TreasuryKeeper} {c : Coins} (h : ValidCoins tk c) : c.NoZero :=
  fun d a hget => (h d a hget).2.ne'

theorem ValidCoins.amountOf_nonneg {tk : TreasuryKeeper} {c : Coins} (h : ValidCoins tk c)
    (d : Denom) : 0 ≤ c.amountOf d := by
  unfold Coins.amountOf SortedMap.getD
  cases hget : c.get d with
  | none => exact le_rfl
  | some a => exact (h d a hget).2.le

/-- A denom with a positive amount is valid. -/
theorem ValidCoins.valid_of_pos {tk : TreasuryKeeper} {c : Coins} (h : ValidCoins tk c) {d : Denom}
    (hpos : 0 < c.amountOf d) : tk.validDenom d = true := by
  unfold Coins.amountOf SortedMap.getD at hpos
  cases hget : c.get d with
  | none =>
    rw [hget] at hpos
    exact absurd hpos (lt_irrefl 0)
  | some a => exact (h d a hget).1

theorem ValidCoins.add {tk : TreasuryKeeper} {a b : Coins} (ha : ValidCoins tk a)
    (hb : ValidCoins tk b) : ValidCoins tk (a.add b) := by
  intro d x hget
  have hx : a.amountOf d + b.amountOf d = x := by
    rw [← Coins.amountOf_add]
    unfold Coins.amountOf SortedMap.getD
    rw [hget]
    rfl
  have hne := Coins.noZero_add a b d x hget
  have hanonneg := ha.amountOf_nonneg d
  have hbnonneg := hb.amountOf_nonneg d
  refine ⟨?_, by omega⟩
  rcases (show 0 < a.amountOf d ∨ 0 < b.amountOf d by omega) with hpos | hpos
  · exact ha.valid_of_pos hpos
  · exact hb.valid_of_pos hpos

theorem validCoins_ofCoin {tk : TreasuryKeeper} {d : Denom} {a : ℤ}
    (h : tk.validDenom d = true) (ha : 0 < a) : ValidCoins tk (Coins.ofCoin d a) := by
  intro d' x hget
  unfold Coins.ofCoin at hget
  rw [if_neg ha.ne', SortedMap.get_set] at hget
  split at hget
  · next heq =>
    cases hget
    exact ⟨heq ▸ h, ha⟩
  · cases hget

/-- `Coins.IsValid` accepts them. -/
theorem ValidCoins.isValid {tk : TreasuryKeeper} {c : Coins} (h : ValidCoins tk c) :
    feeIsValid tk.validDenom (coinsList c) = true := by
  unfold feeIsValid coinsList
  rw [Bool.and_eq_true, List.all_map, List.all_eq_true, decide_eq_true_eq, List.pairwise_map]
  refine ⟨?_, c.sorted⟩
  intro e he
  have := h e.1 e.2 (SortedMap.mem_entries.mp he)
  simp [this.1, this.2]

/-- When a checked sum without negative amounts exists. -/
theorem checkedAdd_eq_some_of_nonneg {a b c : Coins}
    (hnonneg : ∀ d, 0 ≤ a.amountOf d + b.amountOf d) :
    a.checkedAdd b = some c ↔ c = a.add b ∧ ∀ d, a.amountOf d + b.amountOf d < maxAmount := by
  have hfits : (a.add b).entries.all (fun coin => bitLen coin.2 ≤ Coins.maxIntBitLen) = true ↔
      ∀ d, a.amountOf d + b.amountOf d < maxAmount := by
    rw [List.all_eq_true]
    constructor
    · intro hall d
      rw [← Coins.amountOf_add]
      unfold Coins.amountOf SortedMap.getD
      cases hget : (a.add b).get d with
      | none => decide
      | some x =>
        have hx := hall _ (SortedMap.mem_entries.mpr hget)
        have hx := (bitLen_le_iff _ _).mp (of_decide_eq_true hx)
        show x < 2 ^ 256
        unfold Coins.maxIntBitLen at hx
        omega
    · intro h e he
      have hget := SortedMap.mem_entries.mp he
      have hpos := hnonneg e.1
      have hlt := h e.1
      rw [← Coins.amountOf_add, Coins.amountOf_of_get hget] at hlt hpos
      have hlt : e.2 < 2 ^ 256 := hlt
      apply decide_eq_true
      rw [bitLen_le_iff]
      unfold Coins.maxIntBitLen
      omega
  unfold Coins.checkedAdd
  by_cases h : ∀ d, a.amountOf d + b.amountOf d < maxAmount
  · rw [if_pos (hfits.mpr h)]
    constructor
    · intro heq
      exact ⟨(Option.some.inj heq).symm, h⟩
    · intro heq
      rw [heq.1]
  · rw [if_neg (fun hall => h (hfits.mp hall))]
    constructor
    · intro heq
      cases heq
    · intro heq
      exact absurd heq.2 h

/-- When the checked sum of two valid sets exists. -/
theorem checkedAdd_eq_some {tk : TreasuryKeeper} {a b c : Coins} (ha : ValidCoins tk a)
    (hb : ValidCoins tk b) :
    a.checkedAdd b = some c ↔ c = a.add b ∧ ∀ d, a.amountOf d + b.amountOf d < maxAmount :=
  checkedAdd_eq_some_of_nonneg (fun d => add_nonneg (ha.amountOf_nonneg d) (hb.amountOf_nonneg d))

/-! ### Totals -/

/-- A tax computation: it returns when `ok` holds, and then a valid set with
    these amounts. -/
structure Totals (tk : TreasuryKeeper) (x : Option Coins) (ok : Prop) (amount : Denom → ℤ) :
    Prop where
  isSome : x.isSome ↔ ok
  eq : ∀ c, x = some c → ValidCoins tk c ∧ ∀ d, c.amountOf d = amount d

/-- The totals determine the result, a panic included. -/
theorem Totals.unique {tk : TreasuryKeeper} {x y : Option Coins} {ok : Prop} {amount : Denom → ℤ}
    (hx : Totals tk x ok amount) (hy : Totals tk y ok amount) : x = y := by
  cases x with
  | none =>
    cases y with
    | none => rfl
    | some b => exact absurd (hx.isSome.mpr (hy.isSome.mp rfl)) (by simp)
  | some a =>
    cases y with
    | none => exact absurd (hy.isSome.mpr (hx.isSome.mp rfl)) (by simp)
    | some b =>
      obtain ⟨ha, hamount⟩ := hx.eq a rfl
      obtain ⟨hb, hbmount⟩ := hy.eq b rfl
      have heq := Coins.ext_amountOf ha.noZero hb.noZero
        (fun d => (hamount d).trans (hbmount d).symm)
      rw [heq]

theorem Totals.congr {tk : TreasuryKeeper} {x : Option Coins} {ok ok' : Prop}
    {amount amount' : Denom → ℤ} (h : Totals tk x ok amount) (hok : ok ↔ ok')
    (hamount : ∀ d, amount d = amount' d) : Totals tk x ok' amount' where
  isSome := h.isSome.trans hok
  eq := fun c hc => ⟨(h.eq c hc).1, fun d => ((h.eq c hc).2 d).trans (hamount d)⟩

/-- A computation that returns valid sets only is described by its own result. -/
theorem Totals.self {tk : TreasuryKeeper} {x : Option Coins}
    (h : ∀ c, x = some c → ValidCoins tk c) :
    Totals tk x x.isSome (fun d => (x.getD ∅).amountOf d) where
  isSome := Iff.rfl
  eq := by
    intro c hc
    refine ⟨h c hc, fun d => ?_⟩
    rw [hc]
    rfl

/-- Adding what two computations return. -/
theorem Totals.add {tk : TreasuryKeeper} {x y : Option Coins} {okx oky : Prop}
    {ax ay : Denom → ℤ} (hx : Totals tk x okx ax) (hy : Totals tk y oky ay) :
    Totals tk (x.bind fun a => y.bind fun b => a.checkedAdd b)
      (okx ∧ oky ∧ ∀ d, ax d + ay d < maxAmount) (fun d => ax d + ay d) := by
  cases x with
  | none =>
    refine ⟨⟨nofun, fun h => ?_⟩, nofun⟩
    exact absurd (hx.isSome.mpr h.1) (by simp)
  | some a =>
    cases y with
    | none =>
      refine ⟨⟨nofun, fun h => ?_⟩, nofun⟩
      exact absurd (hy.isSome.mpr h.2.1) (by simp)
    | some b =>
      obtain ⟨ha, hax⟩ := hx.eq a rfl
      obtain ⟨hb, hay⟩ := hy.eq b rfl
      simp only [← hax, ← hay]
      refine ⟨?_, ?_⟩
      · rw [Option.isSome_iff_exists]
        constructor
        · intro ⟨c, hc⟩
          exact ⟨hx.isSome.mp rfl, hy.isSome.mp rfl, ((checkedAdd_eq_some ha hb).mp hc).2⟩
        · intro h
          exact ⟨_, (checkedAdd_eq_some ha hb).mpr ⟨rfl, h.2.2⟩⟩
      · intro c hc
        obtain ⟨rfl, _⟩ := (checkedAdd_eq_some ha hb).mp hc
        exact ⟨ha.add hb, fun d => Coins.amountOf_add a b d⟩

/-- Adding to a set that is there. -/
theorem Totals.addTo {tk : TreasuryKeeper} {acc : Coins} (hacc : ValidCoins tk acc)
    {y : Option Coins} {oky : Prop} {ay : Denom → ℤ} (hy : Totals tk y oky ay) :
    Totals tk (y.bind acc.checkedAdd) (oky ∧ ∀ d, acc.amountOf d + ay d < maxAmount)
      (fun d => acc.amountOf d + ay d) := by
  have hx : Totals tk (some acc) True acc.amountOf :=
    ⟨by simp, fun c hc => by cases hc; exact ⟨hacc, fun d => rfl⟩⟩
  exact (hx.add hy).congr (by simp) (fun d => rfl)

/-! ### The tax of one message -/

/-- What a checked addition of valid coins leaves is valid. -/
theorem validCoins_checkedAdd {tk : TreasuryKeeper} {a b c : Coins} (ha : ValidCoins tk a)
    (hb : ValidCoins tk b) (h : a.checkedAdd b = some c) : ValidCoins tk c := by
  obtain ⟨rfl, _⟩ := (checkedAdd_eq_some ha hb).mp h
  exact ha.add hb

theorem validCoins_taxCoin {tk : TreasuryKeeper} {taxes taxes' : Coins} {coin : Coin}
    (htaxes : ValidCoins tk taxes) (h : taxCoin tk taxes coin = some taxes') :
    ValidCoins tk taxes' := by
  unfold taxCoin at h
  split at h
  · cases h
    exact htaxes
  split at h
  · cases h
    exact htaxes
  obtain ⟨product, _, h⟩ := Option.bind_eq_some_iff.mp h
  dsimp only at h
  split at h
  · cases h
    exact htaxes
  · next hne =>
    split at h
    · next hvalid =>
      exact validCoins_checkedAdd htaxes
        (validCoins_ofCoin hvalid.1 (lt_of_le_of_ne hvalid.2 (Ne.symm hne))) h
    · cases h

/-- The tax of a list of coins is a valid coin set. -/
theorem validCoins_computeTax {tk : TreasuryKeeper} {principal : List Coin} {taxes : Coins}
    (h : computeTax tk principal = some taxes) : ValidCoins tk taxes := by
  unfold computeTax at h
  split at h
  · cases h
    exact validCoins_empty tk
  · -- the loop starts with no coins and keeps validity
    exact Run.run_invariant (fun _ _ _ hcoin hacc => validCoins_taxCoin hacc hcoin) h
      (validCoins_empty tk)

/-! ### Sums of parts -/

section parts
variable {α : Type} {tk : TreasuryKeeper} {part : α → Option Coins}

/-- What the parts of a list add up to in one denom. -/
def partTotal (part : α → Option Coins) (l : List α) (d : Denom) : ℤ :=
  (l.map (fun x => ((part x).getD ∅).amountOf d)).sum

/-- Every part is there, and adding all of them to `acc` stays within the bound. -/
def PartsOk (part : α → Option Coins) (acc : Coins) (l : List α) : Prop :=
  (∀ x ∈ l, (part x).isSome) ∧ ∀ d, acc.amountOf d + partTotal part l d < maxAmount

@[simp] theorem partTotal_nil (d : Denom) : partTotal part [] d = 0 := rfl

@[simp] theorem partTotal_cons (x : α) (l : List α) (d : Denom) :
    partTotal part (x :: l) d = ((part x).getD ∅).amountOf d + partTotal part l d := by
  simp [partTotal]

@[simp] theorem partTotal_append (l l' : List α) (d : Denom) :
    partTotal part (l ++ l') d = partTotal part l d + partTotal part l' d := by
  simp [partTotal]

theorem partTotal_perm {l l' : List α} (h : l.Perm l') (d : Denom) :
    partTotal part l d = partTotal part l' d :=
  (h.map _).sum_eq

theorem partsOk_perm {acc : Coins} {l l' : List α} (h : l.Perm l') :
    PartsOk part acc l ↔ PartsOk part acc l' := by
  unfold PartsOk
  simp only [h.mem_iff, partTotal_perm h]

theorem partTotal_nonneg (hvalid : ∀ x c, part x = some c → ValidCoins tk c) (l : List α)
    (d : Denom) : 0 ≤ partTotal part l d := by
  apply List.sum_nonneg
  intro a ha
  obtain ⟨x, _, rfl⟩ := List.mem_map.mp ha
  cases hx : part x with
  | none => exact le_rfl
  | some c => exact (hvalid x c hx).amountOf_nonneg d

/-- Two runs of additions, one after the other. -/
theorem Totals.then (hvalid : ∀ x c, part x = some c → ValidCoins tk c) {acc : Coins}
    {l l' : List α} {x : Option Coins} {f : Coins → Option Coins}
    (hx : Totals tk x (PartsOk part acc l) (fun d => acc.amountOf d + partTotal part l d))
    (hf : ∀ c, ValidCoins tk c → (∀ d, c.amountOf d < maxAmount) →
      Totals tk (f c) (PartsOk part c l') (fun d => c.amountOf d + partTotal part l' d)) :
    Totals tk (x.bind f) (PartsOk part acc (l ++ l'))
      (fun d => acc.amountOf d + partTotal part (l ++ l') d) := by
  -- the parts are not negative, so a bound on the whole sum bounds the first half
  have hsplit : PartsOk part acc (l ++ l') → PartsOk part acc l := by
    intro ⟨hall, hsum⟩
    refine ⟨fun y hy => hall y (List.mem_append_left l' hy), fun d => ?_⟩
    have hsum := hsum d
    have hrest := partTotal_nonneg hvalid l' d
    rw [partTotal_append] at hsum
    omega
  cases x with
  | none =>
    refine ⟨⟨nofun, fun h => ?_⟩, nofun⟩
    exact absurd (hx.isSome.mpr (hsplit h)) (by simp)
  | some c =>
    obtain ⟨hc, hamount⟩ := hx.eq c rfl
    obtain ⟨hall, hsum⟩ := hx.isSome.mp rfl
    refine (hf c hc (fun d => by rw [hamount]; exact hsum d)).congr ?_ ?_
    · unfold PartsOk
      simp only [hamount, List.forall_mem_append, partTotal_append, ← add_assoc]
      exact ⟨fun h => ⟨⟨hall, h.1⟩, h.2⟩, fun h => ⟨h.1.2, h.2⟩⟩
    · intro d
      rw [hamount, partTotal_append, add_assoc]

/-- The loop that adds one part after the other. -/
theorem totals_foldlM (hvalid : ∀ x c, part x = some c → ValidCoins tk c) (l : List α)
    {acc : Coins} (hacc : ValidCoins tk acc) (hfits : ∀ d, acc.amountOf d < maxAmount) :
    Totals tk (l.foldlM (fun acc x => (part x).bind acc.checkedAdd) acc) (PartsOk part acc l)
      (fun d => acc.amountOf d + partTotal part l d) := by
  induction l generalizing acc with
  | nil =>
    refine ⟨by simpa [PartsOk] using hfits, ?_⟩
    intro c hc
    cases hc
    exact ⟨hacc, fun d => by simp⟩
  | cons x rest ih =>
    rw [List.foldlM_cons]
    -- one round adds one part; the rest of the loop starts from its sum
    have hone : Totals tk ((part x).bind acc.checkedAdd) (PartsOk part acc [x])
        (fun d => acc.amountOf d + partTotal part [x] d) :=
      (Totals.addTo hacc (Totals.self (hvalid x))).congr (by simp [PartsOk]) (by simp)
    exact hone.then hvalid (fun c hc hcfits => ih hc hcfits)

/-- Adding up on its own first, and adding the sum. -/
theorem Totals.nested {acc : Coins} (hacc : ValidCoins tk acc) {x : Option Coins} {l : List α}
    (hx : Totals tk x (PartsOk part ∅ l)
      (fun d => (∅ : Coins).amountOf d + partTotal part l d)) :
    Totals tk (x.bind acc.checkedAdd) (PartsOk part acc l)
      (fun d => acc.amountOf d + partTotal part l d) := by
  refine (Totals.addTo hacc hx).congr ?_ (by simp)
  unfold PartsOk
  simp only [Coins.amountOf_empty, zero_add]
  constructor
  · intro h
    exact ⟨h.1.1, h.2⟩
  · intro h
    -- `acc` is not negative, so the sum alone is within the bound
    refine ⟨⟨h.1, fun d => ?_⟩, h.2⟩
    have hsum := h.2 d
    have hacc := hacc.amountOf_nonneg d
    omega

end parts

/-! ### Leaves -/

/-- The tax of a message that is no `MsgExec`, by itself. -/
def leafTax (tk : TreasuryKeeper) : Msg → Option Coins
  | .send fromAddress toAddress amount =>
    if hasBurnTaxExemptionAddress tk [fromAddress, toAddress] then some ∅ else computeTax tk amount
  | .multiSend inputs outputs =>
    if taintedCount tk inputs + taintedCount tk outputs ≠ inputs.length + outputs.length then
      addInputTaxes tk ∅ inputs
    else some ∅
  | .swapSend msg => (newCoins tk msg.offerCoin).bind (computeTax tk)
  | .instantiateContract funds => computeTax tk funds
  | .instantiateContract2 funds => computeTax tk funds
  | .executeContract contract funds =>
    if hasBurnTaxExemptionContract tk contract then some ∅ else computeTax tk funds
  | _ => some ∅

mutual

/-- The messages of a tree that are no `MsgExec`, from left to right.  A
    `MsgExec` that cannot be unpacked has none. -/
def leaves : Msg → List Msg
  | .exec true messages => leavesOf messages
  | .exec false _ => []
  | .send fromAddress toAddress amount => [.send fromAddress toAddress amount]
  | .multiSend inputs outputs => [.multiSend inputs outputs]
  | .swapSend msg => [.swapSend msg]
  | .instantiateContract funds => [.instantiateContract funds]
  | .instantiateContract2 funds => [.instantiateContract2 funds]
  | .executeContract contract funds => [.executeContract contract funds]
  | .aggregateExchangeRatePrevote msg => [.aggregateExchangeRatePrevote msg]
  | .aggregateExchangeRateVote msg => [.aggregateExchangeRateVote msg]
  | .other typeURL => [.other typeURL]

/-- The leaves of a list of messages. -/
def leavesOf : List Msg → List Msg
  | [] => []
  | msg :: rest => leaves msg ++ leavesOf rest

end

/-- Adding nothing. -/
theorem checkedAdd_empty {tk : TreasuryKeeper} {acc : Coins} (hacc : ValidCoins tk acc)
    (hfits : ∀ d, acc.amountOf d < maxAmount) : acc.checkedAdd ∅ = some acc := by
  refine (checkedAdd_eq_some hacc (validCoins_empty tk)).mpr ⟨?_, by simpa using hfits⟩
  exact Coins.ext_amountOf hacc.noZero (Coins.noZero_add _ _) (fun d => by simp)

theorem totals_addInputTaxes (tk : TreasuryKeeper) (inputs : List (String × List Coin))
    {acc : Coins} (hacc : ValidCoins tk acc) (hfits : ∀ d, acc.amountOf d < maxAmount) :
    Totals tk (addInputTaxes tk acc inputs)
      (PartsOk (fun input : String × List Coin => computeTax tk input.2) acc inputs)
      (fun d => acc.amountOf d +
        partTotal (fun input : String × List Coin => computeTax tk input.2) inputs d) :=
  totals_foldlM (fun _ _ hc => validCoins_computeTax hc) inputs hacc hfits

theorem fits_empty (d : Denom) : (∅ : Coins).amountOf d < maxAmount := by
  rw [Coins.amountOf_empty]
  decide

theorem validCoins_addInputTaxes {tk : TreasuryKeeper} {inputs : List (String × List Coin)}
    {c : Coins} (h : addInputTaxes tk ∅ inputs = some c) : ValidCoins tk c :=
  ((totals_addInputTaxes tk inputs (validCoins_empty tk) fits_empty).eq c h).1

theorem validCoins_leafTax {tk : TreasuryKeeper} (msg : Msg) (c : Coins)
    (h : leafTax tk msg = some c) : ValidCoins tk c := by
  cases msg with
  | send fromAddress toAddress amount =>
    simp only [leafTax] at h
    split at h
    · cases h
      exact validCoins_empty tk
    · exact validCoins_computeTax h
  | multiSend inputs outputs =>
    simp only [leafTax] at h
    split at h
    · exact validCoins_addInputTaxes h
    · cases h
      exact validCoins_empty tk
  | swapSend msg =>
    obtain ⟨principal, _, h⟩ := Option.bind_eq_some_iff.mp h
    exact validCoins_computeTax h
  | instantiateContract funds => exact validCoins_computeTax h
  | instantiateContract2 funds => exact validCoins_computeTax h
  | executeContract contract funds =>
    simp only [leafTax] at h
    split at h
    · cases h
      exact validCoins_empty tk
    · exact validCoins_computeTax h
  | exec _ _ | aggregateExchangeRatePrevote _ | aggregateExchangeRateVote _ | other _ =>
    cases h
    exact validCoins_empty tk

/-- On a leaf the loop adds the leaf's tax. -/
theorem addMsgTax_leaf {tk : TreasuryKeeper} {acc : Coins} (hacc : ValidCoins tk acc)
    (hfits : ∀ d, acc.amountOf d < maxAmount) {msg : Msg}
    (hleaf : ∀ unpacked messages, msg ≠ .exec unpacked messages) :
    addMsgTax tk acc msg = (leafTax tk msg).bind acc.checkedAdd := by
  -- an exempt message returns `acc` itself, its leaf adds nothing to it
  have hnone : some acc = (some (∅ : Coins)).bind acc.checkedAdd :=
    (checkedAdd_empty hacc hfits).symm
  cases msg with
  | send fromAddress toAddress amount =>
    simp only [addMsgTax, leafTax]
    split
    · exact hnone
    · rfl
  | multiSend inputs outputs =>
    simp only [addMsgTax, leafTax]
    split
    · -- the inputs are added to `acc` one by one, or to nothing first and then to `acc`
      exact (totals_addInputTaxes tk inputs hacc hfits).unique
        (Totals.nested hacc (totals_addInputTaxes tk inputs (validCoins_empty tk) fits_empty))
    · exact hnone
  | swapSend msg =>
    simp only [addMsgTax, leafTax]
    cases newCoins tk msg.offerCoin with
    | none => rfl
    | some principal => rfl
  | instantiateContract funds => rfl
  | instantiateContract2 funds => rfl
  | executeContract contract funds =>
    simp only [addMsgTax, leafTax]
    split
    · exact hnone
    · rfl
  | exec unpacked messages => exact absurd rfl (hleaf unpacked messages)
  | aggregateExchangeRatePrevote _ | aggregateExchangeRateVote _ | other _ => exact hnone

/-! ### Trees -/

/-- What a computation over the leaves of a tree returns, starting from `acc`. -/
abbrev TotalsFrom (tk : TreasuryKeeper) (acc : Coins) (x : Option Coins) (msgs : List Msg) : Prop :=
  Totals tk x (PartsOk (leafTax tk) acc msgs)
    (fun d => acc.amountOf d + partTotal (leafTax tk) msgs d)

theorem totals_leaf {tk : TreasuryKeeper} {acc : Coins} (hacc : ValidCoins tk acc)
    (hfits : ∀ d, acc.amountOf d < maxAmount) {msg : Msg}
    (hleaf : ∀ unpacked messages, msg ≠ .exec unpacked messages) :
    TotalsFrom tk acc (addMsgTax tk acc msg) [msg] := by
  rw [addMsgTax_leaf hacc hfits hleaf]
  exact (Totals.addTo hacc (Totals.self (validCoins_leafTax msg))).congr (by simp [PartsOk])
    (by simp)

mutual

/-- One message of the tree adds the taxes of its leaves. -/
theorem totals_addMsgTax {tk : TreasuryKeeper} : ∀ (msg : Msg) {acc : Coins},
    ValidCoins tk acc → (∀ d, acc.amountOf d < maxAmount) →
    TotalsFrom tk acc (addMsgTax tk acc msg) (leaves msg)
  | .exec true messages, _, hacc, _ =>
    Totals.nested hacc (totals_addMsgTaxes messages (validCoins_empty tk) fits_empty)
  | .exec false _, _, hacc, hfits => totals_foldlM validCoins_leafTax [] hacc hfits
  | .send _ _ _, _, hacc, hfits => totals_leaf hacc hfits nofun
  | .multiSend _ _, _, hacc, hfits => totals_leaf hacc hfits nofun
  | .swapSend _, _, hacc, hfits => totals_leaf hacc hfits nofun
  | .instantiateContract _, _, hacc, hfits => totals_leaf hacc hfits nofun
  | .instantiateContract2 _, _, hacc, hfits => totals_leaf hacc hfits nofun
  | .executeContract _ _, _, hacc, hfits => totals_leaf hacc hfits nofun
  | .aggregateExchangeRatePrevote _, _, hacc, hfits => totals_leaf hacc hfits nofun
  | .aggregateExchangeRateVote _, _, hacc, hfits => totals_leaf hacc hfits nofun
  | .other _, _, hacc, hfits => totals_leaf hacc hfits nofun

/-- So does a list of messages. -/
theorem totals_addMsgTaxes {tk : TreasuryKeeper} : ∀ (msgs : List Msg) {acc : Coins},
    ValidCoins tk acc → (∀ d, acc.amountOf d < maxAmount) →
    TotalsFrom tk acc (addMsgTaxes tk acc msgs) (leavesOf msgs)
  | [], _, hacc, hfits => totals_foldlM validCoins_leafTax [] hacc hfits
  | msg :: rest, _, hacc, hfits =>
    (totals_addMsgTax msg hacc hfits).then validCoins_leafTax
      (fun _ hc hcfits => totals_addMsgTaxes rest hc hcfits)

end

theorem leavesOf_eq_flatMap (msgs : List Msg) : leavesOf msgs = msgs.flatMap leaves := by
  induction msgs with
  | nil => rfl
  | cons msg rest ih => rw [leavesOf, ih, List.flatMap_cons]

theorem leavesOf_append (msgs msgs' : List Msg) :
    leavesOf (msgs ++ msgs') = leavesOf msgs ++ leavesOf msgs' := by
  simp only [leavesOf_eq_flatMap, List.flatMap_append]

theorem totals_filterMsgAndComputeTax (tk : TreasuryKeeper) (msgs : List Msg) :
    TotalsFrom tk ∅ (filterMsgAndComputeTax tk msgs) (leavesOf msgs) :=
  totals_addMsgTaxes msgs (validCoins_empty tk) fits_empty

/-- The tax depends on the leaves only, and not on their order. -/
theorem filterMsgAndComputeTax_perm (tk : TreasuryKeeper) {msgs msgs' : List Msg}
    (h : (leavesOf msgs).Perm (leavesOf msgs')) :
    filterMsgAndComputeTax tk msgs = filterMsgAndComputeTax tk msgs' := by
  refine (totals_filterMsgAndComputeTax tk msgs).unique
    ((totals_filterMsgAndComputeTax tk msgs').congr (partsOk_perm h).symm ?_)
  intro d
  rw [partTotal_perm h]

/-- For every treasury and every list of messages:

    * the tax can be computed exactly when the tax of each leaf can and the
      sums are within the bit bound of `sdk.Int`;
    * it is then a valid coin set, in each denom the sum over the leaves;
    * the tax of a concatenation is the sum of the taxes;
    * it depends on the leaves up to their order only, so neither permuting the
      messages nor putting some of them into a `MsgExec` changes it. -/
theorem tax_tree (tk : TreasuryKeeper) (msgs : List Msg) :
    ((filterMsgAndComputeTax tk msgs).isSome ↔
      (∀ leaf ∈ leavesOf msgs, (leafTax tk leaf).isSome) ∧
        ∀ d, partTotal (leafTax tk) (leavesOf msgs) d < maxAmount) ∧
    (∀ taxes, filterMsgAndComputeTax tk msgs = some taxes →
      feeIsValid tk.validDenom (coinsList taxes) = true ∧
        ∀ d, taxes.amountOf d = partTotal (leafTax tk) (leavesOf msgs) d) ∧
    (∀ msgs', filterMsgAndComputeTax tk (msgs ++ msgs') =
      (filterMsgAndComputeTax tk msgs).bind fun taxes =>
        (filterMsgAndComputeTax tk msgs').bind fun taxes' => taxes.checkedAdd taxes') ∧
    (∀ msgs', (leavesOf msgs).Perm (leavesOf msgs') →
      filterMsgAndComputeTax tk msgs = filterMsgAndComputeTax tk msgs') ∧
    (∀ msgs', msgs.Perm msgs' → filterMsgAndComputeTax tk msgs = filterMsgAndComputeTax tk msgs') ∧
    (∀ before wrapped after, msgs = before ++ wrapped ++ after →
      filterMsgAndComputeTax tk (before ++ [.exec true wrapped] ++ after) =
        filterMsgAndComputeTax tk msgs) := by
  have htotals := totals_filterMsgAndComputeTax tk msgs
  refine ⟨?_, ?_, ?_, fun msgs' => filterMsgAndComputeTax_perm tk, ?_, ?_⟩
  · simpa [PartsOk] using htotals.isSome
  · intro taxes h
    obtain ⟨hvalid, hamount⟩ := htotals.eq taxes h
    exact ⟨hvalid.isValid, by simpa using hamount⟩
  · intro msgs'
    -- both sides have the totals of all leaves, so they are equal, panics included
    have hsum := htotals.then validCoins_leafTax (f := fun taxes =>
      (filterMsgAndComputeTax tk msgs').bind taxes.checkedAdd)
      (fun c hc _ => Totals.nested hc (totals_filterMsgAndComputeTax tk msgs'))
    rw [← leavesOf_append] at hsum
    exact (totals_filterMsgAndComputeTax tk (msgs ++ msgs')).unique hsum
  · intro msgs' hperm
    apply filterMsgAndComputeTax_perm
    simp only [leavesOf_eq_flatMap]
    exact hperm.flatMap_right leaves
  · intro before wrapped after hmsgs
    apply filterMsgAndComputeTax_perm
    rw [hmsgs]
    simp [leavesOf_append, leavesOf, leaves]

/-- A treasury that taxes sends at their full amount. -/
def fullTax : TreasuryKeeper where
  taxRate := Dec.one
  taxCaps := ∅
  taxPolicyCap := 10 ^ 12
  burnSplitRate := Dec.zero
  burnTaxExemptionList := []
  isContract := fun _ => false
  validDenom := fun _ => true

/-- The largest `sdk.Int` times a rate of one is out of the bound of `Dec`. -/
theorem tax_tree_overflow :
    filterMsgAndComputeTax fullTax
      [.send "terra1vynex3pr" "terra1vgz8qmsy" [⟨"uusd", 2 ^ 256 - 1⟩]] = none := by
  decide +kernel

end TerraClassic.Ante
