import TerraClassic.Lib.SortedMap
import TerraClassic.Sdk.Dec
import Mathlib.Data.String.Basic

/-! # `sdk.Coins` and `sdk.DecCoins`

    A coin set is sorted by denom, has one entry for each denom and no zero
    entry; `Add` brings its result into that form.  A set is therefore a
    finite map, and is known by its amounts (`Coins.ext_amountOf`).

    An address is the string of its bytes; the nil address is `""`.
-/

namespace TerraClassic

abbrev Denom : Type := String

/-- `sdk.ValAddress`. -/
abbrev ValAddr : Type := String

/-- `sdk.AccAddress`. -/
abbrev AccAddr : Type := String

/-- `core.MicroLunaDenom`. -/
def microLunaDenom : Denom := "uluna"

/-- `core.MicroSDRDenom`. -/
def microSDRDenom : Denom := "usdr"

/-- The bech32 codec of the SDK. -/
structure Bech32 where
  accAddressFromBech32 : String → Except String AccAddr
  valAddressFromBech32 : String → Except String ValAddr
  accAddressString : AccAddr → String
  valAddressString : ValAddr → String

/-- `sdk.Coin`. -/
structure Coin where
  denom : Denom
  amount : ℤ
  deriving DecidableEq, Repr

def Coin.string (coin : Coin) : String := toString coin.amount ++ coin.denom

/-- `sdk.DecCoin`. -/
structure DecCoin where
  denom : Denom
  amount : Dec
  deriving DecidableEq, Repr

def DecCoin.string (coin : DecCoin) : String := coin.amount.string ++ coin.denom

/-- `sdk.Coins`: the amount of each denom. -/
abbrev Coins : Type := SortedMap String ℤ

/-- `sdk.DecCoins`. -/
abbrev DecCoins : Type := SortedMap String Dec

namespace Coins

/-- `AmountOf`: zero for a missing denom. -/
def amountOf (c : Coins) (denom : String) : ℤ := c.getD denom 0

/-- No entry is zero: the form `Add` leaves. -/
def NoZero (c : Coins) : Prop := ∀ d a, c.get d = some a → a ≠ 0

/-- Add one amount to the entry of a denom. -/
def addCoin (c : Coins) (coin : String × ℤ) : Coins :=
  c.set coin.1 (c.amountOf coin.1 + coin.2)

/-- `Add`: sum by denom, then drop the zero entries. -/
def add (a b : Coins) : Coins :=
  (b.entries.foldl addCoin a).filter (fun _ amount => amount ≠ 0)

/-- `maxBitLen` of `sdk.Int`. -/
def maxIntBitLen : ℕ := 256

/-- `Add` with the bit bound of `sdk.Int`: an amount beyond it panics. -/
def checkedAdd (a b : Coins) : Option Coins :=
  if (a.add b).entries.all (fun coin => bitLen coin.2 ≤ maxIntBitLen) then some (a.add b) else none

/-- `IsZero`: every amount is zero. -/
def isZero (c : Coins) : Bool := c.entries.all (fun coin => coin.2 = 0)

/-- `sdk.NewCoins(coin)` for one coin: a zero coin is dropped. -/
def ofCoin (denom : String) (amount : ℤ) : Coins :=
  if amount = 0 then ∅ else (∅ : Coins).set denom amount

/-- `Sub`: the difference by denom.  A negative amount panics. -/
def sub (a b : Coins) : Option Coins :=
  let diff := (b.entries.foldl (fun c coin => addCoin c (coin.1, -coin.2)) a).filter
    (fun _ amount => amount ≠ 0)
  if diff.entries.any (fun coin => coin.2 < 0) then none else some diff

/-- `ValidateDenom`: a letter, then 2 to 127 letters, digits or `/:._-`. -/
def validateDenom (denom : Denom) : Bool :=
  match denom.toList with
  | [] => false
  | first :: rest => first.isAlpha && 2 ≤ rest.length && rest.length ≤ 127 &&
      rest.all (fun c => c.isAlphanum || c ∈ ['/', ':', '.', '_', '-'])

/-- `Validate`: valid denoms and positive amounts.  Order and uniqueness are in the type. -/
structure Valid (c : Coins) : Prop where
  denom : ∀ {d a}, c.get d = some a → validateDenom d
  positive : ∀ {d a}, c.get d = some a → 0 < a

/-- `sdk.NewCoin`, which panics on an invalid denom and on a negative amount. -/
def newCoin (denom : Denom) (amount : ℤ) : Option Coin :=
  if validateDenom denom ∧ 0 ≤ amount then some ⟨denom, amount⟩ else none

/-- `IsAllLTE`, which is `IsAllGTE` the other way. -/
def isAllLTE (c b : Coins) : Bool :=
  if c.entries.length = 0 then true
  else if b.entries.length = 0 then false
  else c.entries.all (fun coin => coin.2 ≤ b.amountOf coin.1)

/-- One amount for each coin of a set, in their order; zeros are left out. -/
def collect (f : String × ℤ → ℤ) (c : Coins) : Coins :=
  c.entries.foldl (fun acc coin => if f coin = 0 then acc else acc.set coin.1 (f coin)) ∅

/-- The smaller amount of a coin and of its denom in a set. -/
def smallerAmount (b : Coins) (coin : String × ℤ) : ℤ :=
  match b.get coin.1 with
  | some amount => if amount < coin.2 then amount else coin.2
  | none => 0

/-- `Min`: the smaller amount of each denom that both sets have.  `NewCoins` at its end
    panics on an amount that is not positive. -/
def min (a b : Coins) : Option Coins :=
  let least := collect (smallerAmount b) a
  if least.entries.all (fun coin => 0 < coin.2) then some least else none

/-! ### Amounts -/

@[simp] theorem amountOf_empty (d : String) : amountOf ∅ d = 0 := rfl

theorem get_addCoin (c : Coins) (coin : String × ℤ) (d : String) :
    (addCoin c coin).get d = if d = coin.1 then some (c.amountOf d + coin.2) else c.get d := by
  unfold addCoin
  rw [SortedMap.get_set]
  split
  · next h => rw [h]
  · rfl

theorem amountOf_addCoin (c : Coins) (coin : String × ℤ) (d : String) :
    (addCoin c coin).amountOf d = c.amountOf d + if d = coin.1 then coin.2 else 0 := by
  unfold amountOf SortedMap.getD
  rw [get_addCoin]
  split
  · next h => simp [amountOf, SortedMap.getD]
  · simp

/-- Amounts of a fold of single additions: the list's total is added. -/
theorem amountOf_foldl_addCoin (l : List (String × ℤ)) (c : Coins) (d : String) :
    (l.foldl addCoin c).amountOf d =
      c.amountOf d + ((l.filter (fun e => e.1 = d)).map Prod.snd).sum := by
  induction l generalizing c with
  | nil => simp
  | cons e rest ih =>
    rw [List.foldl_cons, ih, amountOf_addCoin]
    by_cases h : d = e.1
    · simp [h, add_assoc]
    · have h' : e.1 ≠ d := fun he => h he.symm
      simp [h, h']

theorem filter_sum_entries (b : Coins) (d : String) :
    ((b.entries.filter (fun e => e.1 = d)).map Prod.snd).sum = b.amountOf d := by
  unfold amountOf SortedMap.getD SortedMap.get
  obtain ⟨l, hl⟩ := b
  show ((l.filter (fun e => e.1 = d)).map Prod.snd).sum = (SortedMap.lookup d l).getD 0
  induction l with
  | nil => rfl
  | cons e rest ih =>
    obtain ⟨he, hrest⟩ := List.pairwise_cons.mp hl
    by_cases h : d = e.1
    · -- keys are distinct, so nothing after the head has this denom
      have hnil : rest.filter (fun e => e.1 = d) = [] := by
        rw [List.filter_eq_nil_iff]
        intro x hx
        have hlt := he x hx
        rw [h]
        simpa using ne_of_gt hlt
      simp only [SortedMap.lookup, if_pos h, Option.getD_some]
      rw [List.filter_cons_of_pos (by simp [h]), hnil]
      simp
    · have h' : e.1 ≠ d := fun heq => h heq.symm
      have := ih hrest
      simpa [SortedMap.lookup, h, h'] using this

theorem amountOf_filter_ne_zero (c : Coins) (d : String) :
    amountOf (c.filter (fun _ amount => amount ≠ 0)) d = c.amountOf d := by
  unfold amountOf SortedMap.getD
  rw [SortedMap.get_filter]
  cases h : c.get d with
  | none => rfl
  | some a =>
    by_cases ha : a = 0
    · simp [Option.filter, ha]
    · simp [Option.filter, ha]

theorem noZero_filter (c : Coins) : NoZero (c.filter (fun _ amount => amount ≠ 0)) := by
  intro d a h
  rw [SortedMap.get_filter] at h
  cases hc : c.get d with
  | none => rw [hc] at h; simp at h
  | some b =>
    rw [hc] at h
    by_cases hb : b = 0
    · simp [Option.filter, hb] at h
    · simp only [Option.filter, decide_eq_true_eq] at h
      rw [if_pos (by simpa using hb)] at h
      exact (Option.some.inj h) ▸ hb

@[simp] theorem amountOf_add (a b : Coins) (d : String) :
    (a.add b).amountOf d = a.amountOf d + b.amountOf d := by
  unfold add
  rw [amountOf_filter_ne_zero, amountOf_foldl_addCoin, filter_sum_entries]

theorem noZero_add (a b : Coins) : NoZero (a.add b) := noZero_filter _

/-- A sum that fits is the sum. -/
theorem checkedAdd_ok {a b c : Coins} (h : a.checkedAdd b = some c) : c = a.add b := by
  unfold checkedAdd at h
  split at h
  · exact (Option.some.inj h).symm
  · cases h

/-- Coin sets without zero entries are known by their amounts. -/
theorem ext_amountOf {a b : Coins} (ha : NoZero a) (hb : NoZero b)
    (h : ∀ d, a.amountOf d = b.amountOf d) : a = b := by
  apply SortedMap.ext_get
  intro d
  have hd := h d
  unfold amountOf SortedMap.getD at hd
  cases ga : a.get d with
  | none =>
    cases gb : b.get d with
    | none => rfl
    | some y =>
      rw [ga, gb] at hd
      exact absurd hd.symm (hb d y gb)
  | some x =>
    cases gb : b.get d with
    | none =>
      rw [ga, gb] at hd
      exact absurd hd (ha d x ga)
    | some y =>
      rw [ga, gb] at hd
      exact congrArg some hd

theorem add_right_comm (a b c : Coins) : (a.add b).add c = (a.add c).add b := by
  apply ext_amountOf (noZero_add _ _) (noZero_add _ _)
  intro d
  simp only [amountOf_add]
  omega

theorem amountOf_ofCoin (denom : String) (amount : ℤ) (d : String) :
    (ofCoin denom amount).amountOf d = if d = denom then amount else 0 := by
  unfold ofCoin amountOf SortedMap.getD
  by_cases ha : amount = 0
  · simp [ha]
  · rw [if_neg ha, SortedMap.get_set]
    by_cases hd : d = denom <;> simp [hd]

theorem valid_empty : Valid ∅ := ⟨fun h => (by cases h), fun h => (by cases h)⟩

theorem valid_ofCoin {denom : Denom} {amount : ℤ} (hdenom : validateDenom denom)
    (hamount : 0 < amount) : Valid (ofCoin denom amount) := by
  have hget : ∀ {d a}, (ofCoin denom amount).get d = some a → d = denom ∧ a = amount := by
    intro d a h
    unfold ofCoin at h
    rw [if_neg hamount.ne', SortedMap.get_set] at h
    split at h
    · next heq =>
      cases h
      exact ⟨heq, rfl⟩
    · cases h
  constructor
  · intro d a h
    exact (hget h).1 ▸ hdenom
  · intro d a h
    exact (hget h).2 ▸ hamount

theorem foldl_sub_eq (b : List (String × ℤ)) (a : Coins) :
    b.foldl (fun c coin => addCoin c (coin.1, -coin.2)) a =
      (b.map (fun coin => (coin.1, -coin.2))).foldl addCoin a := by
  rw [List.foldl_map]

theorem filter_map_neg_sum (l : List (String × ℤ)) (d : String) :
    (((l.map (fun coin => (coin.1, -coin.2))).filter (fun e => e.1 = d)).map Prod.snd).sum =
      -((l.filter (fun e => e.1 = d)).map Prod.snd).sum := by
  induction l with
  | nil => simp
  | cons e rest ih =>
    by_cases h : e.1 = d
    · simp [h, ih, add_comm]
    · simp [h, ih]

/-- What a successful `Sub` returns. -/
theorem amountOf_sub {a b c : Coins} (h : a.sub b = some c) (d : String) :
    c.amountOf d = a.amountOf d - b.amountOf d := by
  unfold sub at h
  simp only at h
  split at h
  · cases h
  · obtain rfl := Option.some.inj h
    rw [amountOf_filter_ne_zero, foldl_sub_eq, amountOf_foldl_addCoin, filter_map_neg_sum,
      filter_sum_entries]
    omega

/-- `Sub` succeeds exactly when no amount becomes negative. -/
theorem sub_isSome_iff (a b : Coins) :
    (a.sub b).isSome ↔ ∀ d, b.amountOf d ≤ a.amountOf d := by
  have hamt : ∀ d, amountOf ((b.entries.foldl (fun c coin => addCoin c (coin.1, -coin.2)) a).filter
      (fun _ amount => amount ≠ 0)) d = a.amountOf d - b.amountOf d := by
    intro d
    rw [amountOf_filter_ne_zero, foldl_sub_eq, amountOf_foldl_addCoin, filter_map_neg_sum,
      filter_sum_entries]
    omega
  unfold sub
  simp only
  split
  · next hneg =>
    simp only [Option.isSome_none, Bool.false_eq_true, false_iff, not_forall, not_le]
    obtain ⟨⟨d, x⟩, hmem, hx⟩ := List.any_eq_true.mp hneg
    refine ⟨d, ?_⟩
    have hget := SortedMap.mem_entries.mp hmem
    have := hamt d
    unfold amountOf SortedMap.getD at this
    rw [hget] at this
    simp only [Option.getD_some, decide_eq_true_eq] at this hx
    unfold amountOf SortedMap.getD
    omega
  · next hneg =>
    simp only [Option.isSome_some, true_iff]
    intro d
    by_contra hlt
    apply hneg
    have := hamt d
    rw [List.any_eq_true]
    cases hget : ((b.entries.foldl (fun c coin => addCoin c (coin.1, -coin.2)) a).filter
        (fun _ amount => amount ≠ 0)).get d with
    | none =>
      unfold amountOf SortedMap.getD at this
      rw [hget] at this
      simp only [Option.getD_none] at this
      unfold amountOf SortedMap.getD at hlt
      omega
    | some x =>
      refine ⟨(d, x), SortedMap.mem_entries.mpr hget, ?_⟩
      have hx : x = a.amountOf d - b.amountOf d := by
        rw [← this]
        unfold amountOf SortedMap.getD
        rw [hget]
        rfl
      simp only [decide_eq_true_eq]
      omega

theorem amountOf_of_get {c : Coins} {d : String} {a : ℤ} (h : c.get d = some a) :
    c.amountOf d = a := by
  unfold amountOf SortedMap.getD
  rw [h]
  rfl

theorem amountOf_of_get_none {c : Coins} {d : String} (h : c.get d = none) :
    c.amountOf d = 0 := by
  unfold amountOf SortedMap.getD
  rw [h]
  rfl

theorem amountOf_set (c : Coins) (d d' : String) (a : ℤ) :
    amountOf (c.set d a) d' = if d' = d then a else c.amountOf d' := by
  unfold amountOf SortedMap.getD
  rw [SortedMap.get_set]
  split
  · rfl
  · rfl

/-- The amount that a list of coins with different denoms collects for a denom. -/
theorem amountOf_foldl_collect (f : String × ℤ → ℤ) {l : List (String × ℤ)}
    (hl : (l.map Prod.fst).Nodup) {c : Coins} (hc : ∀ coin ∈ l, c.amountOf coin.1 = 0)
    (d : String) :
    amountOf (l.foldl (fun acc coin => if f coin = 0 then acc else acc.set coin.1 (f coin)) c) d =
      match SortedMap.lookup d l with
      | some a => f (d, a)
      | none => c.amountOf d := by
  induction l generalizing c with
  | nil => rfl
  | cons coin rest ih =>
    obtain ⟨hcoin, hrest⟩ := List.nodup_cons.mp hl
    have hne : ∀ other ∈ rest, other.1 ≠ coin.1 := by
      intro other hother heq
      exact hcoin (heq ▸ List.mem_map_of_mem hother)
    have hzero := hc coin List.mem_cons_self
    -- after the coin its denom has the amount collected for it, zero included
    have hamount : ∀ d', amountOf (if f coin = 0 then c else c.set coin.1 (f coin)) d' =
        if d' = coin.1 then f coin else c.amountOf d' := by
      intro d'
      split
      · next hf =>
        split
        · next hd => rw [hd, hzero, hf]
        · rfl
      · exact amountOf_set c coin.1 d' (f coin)
    rw [List.foldl_cons, ih hrest]
    · rw [hamount]
      by_cases hd : d = coin.1
      · subst hd
        have hnone := SortedMap.lookup_eq_none_of_forall_ne hne
        simp [SortedMap.lookup, hnone]
      · simp [SortedMap.lookup, hd]
    · intro other hother
      rw [hamount, if_neg (hne other hother)]
      exact hc other (List.mem_cons_of_mem coin hother)

theorem amountOf_collect (f : String × ℤ → ℤ) (c : Coins) (d : String) :
    (collect f c).amountOf d = match c.get d with
      | some a => f (d, a)
      | none => 0 :=
  amountOf_foldl_collect f c.keys_nodup (fun _ _ => rfl) d

theorem noZero_collect (f : String × ℤ → ℤ) (c : Coins) : NoZero (collect f c) := by
  unfold collect
  refine List.foldlRecOn c.entries _ (fun _ _ h => by cases h) ?_
  intro acc hacc coin _
  split
  · exact hacc
  · next hf =>
    intro d a hget
    rw [SortedMap.get_set] at hget
    split at hget
    · cases hget
      exact hf
    · exact hacc d a hget

theorem collect_get {f : String × ℤ → ℤ} {c : Coins} {d : String} {x : ℤ}
    (h : (collect f c).get d = some x) : ∃ a, c.get d = some a ∧ x = f (d, a) := by
  have hx := amountOf_of_get h
  rw [amountOf_collect] at hx
  cases hc : c.get d with
  | none =>
    rw [hc] at hx
    exact absurd hx.symm (noZero_collect f c d x h)
  | some a =>
    rw [hc] at hx
    exact ⟨a, rfl, hx.symm⟩

/-- What `Sub` returns has positive entries. -/
theorem sub_positive {a b c : Coins} (h : a.sub b = some c) {d : String} {x : ℤ}
    (hget : c.get d = some x) : 0 < x := by
  unfold sub at h
  simp only at h
  split at h
  · cases h
  · next hneg =>
    obtain rfl := Option.some.inj h
    have hne := noZero_filter _ d x hget
    have hnonneg : ¬ x < 0 := by
      intro hx
      exact hneg (List.any_eq_true.mpr ⟨(d, x), SortedMap.mem_entries.mpr hget, by simpa using hx⟩)
    omega

theorem smallerAmount_bounds {b : Coins} (hb : ∀ d x, b.get d = some x → 0 < x)
    (d : String) {x : ℤ} (hx : 0 < x) :
    0 ≤ smallerAmount b (d, x) ∧ smallerAmount b (d, x) ≤ x := by
  unfold smallerAmount
  cases hget : b.get d with
  | none => exact ⟨le_rfl, hx.le⟩
  | some amount =>
    have hamount := hb d amount hget
    show 0 ≤ (if amount < x then amount else x) ∧ (if amount < x then amount else x) ≤ x
    split_ifs
    · omega
    · omega

/-- `Min` of positive sets returns, and takes no more than the first set has. -/
theorem min_returns {a b : Coins} (ha : ∀ d x, a.get d = some x → 0 < x)
    (hb : ∀ d x, b.get d = some x → 0 < x) :
    ∃ least, a.min b = some least ∧ ∀ d, least.amountOf d ≤ a.amountOf d := by
  refine ⟨collect (smallerAmount b) a, ?_, ?_⟩
  · unfold min
    rw [if_pos]
    rw [List.all_eq_true]
    rintro ⟨d, x⟩ hmem
    have hget := SortedMap.mem_entries.mp hmem
    have hne := noZero_collect _ a d x hget
    obtain ⟨y, hy, rfl⟩ := collect_get hget
    have hbounds := smallerAmount_bounds hb d (ha d y hy)
    exact decide_eq_true (lt_of_le_of_ne hbounds.1 hne.symm)
  · intro d
    rw [amountOf_collect]
    cases hget : a.get d with
    | none => exact (amountOf_of_get_none hget).ge
    | some x =>
      rw [amountOf_of_get hget]
      exact (smallerAmount_bounds hb d (ha d x hget)).2

theorem isZero_iff (c : Coins) : c.isZero = true ↔ ∀ d, c.amountOf d = 0 := by
  unfold isZero
  rw [List.all_eq_true]
  constructor
  · intro h d
    unfold amountOf SortedMap.getD
    cases hget : c.get d with
    | none => rfl
    | some a => simpa using h (d, a) (SortedMap.mem_entries.mpr hget)
  · rintro h ⟨d, a⟩ hmem
    have := h d
    unfold amountOf SortedMap.getD at this
    rw [SortedMap.mem_entries.mp hmem] at this
    simpa using this

end Coins

namespace DecCoins

/-- `NewDecCoinFromDec`: a negative amount panics. -/
def newDecCoinFromDec (denom : String) (amount : Dec) : Option (String × Dec) :=
  if amount.isNegative then none else some (denom, amount)

/-- Replace the amount of a denom; a zero entry is dropped. -/
def put (c : DecCoins) (denom : String) (amount : Dec) : DecCoins :=
  if amount.isZero then c.erase denom else c.set denom amount

/-- `Add` of one coin. -/
def add (c : DecCoins) (coin : String × Dec) : Option DecCoins := do
  let sum ← (c.getD coin.1 Dec.zero).add coin.2
  return c.put coin.1 sum

theorem getD_put_ne (c : DecCoins) {d d' : String} (h : d' ≠ d) (x y : Dec) :
    (c.put d x).getD d' y = c.getD d' y := by
  unfold put SortedMap.getD
  split <;> simp [h]

theorem put_comm (c : DecCoins) {d d' : String} (h : d ≠ d') (x y : Dec) :
    (c.put d x).put d' y = (c.put d' y).put d x := by
  have h' : d' ≠ d := fun heq => h heq.symm
  unfold put
  cases hx : x.isZero <;> cases hy : y.isZero
  · simp only [Bool.false_eq_true, if_false, SortedMap.set_comm _ _ _ h]
  · simp only [Bool.false_eq_true, if_false, if_true, SortedMap.erase_set_comm _ _ h]
  · simp only [Bool.false_eq_true, if_false, if_true, SortedMap.erase_set_comm _ _ h']
  · simp only [if_true, SortedMap.erase_comm _ d d']

/-- Adding coins of two denoms commutes, overflow included. -/
theorem add_comm_of_ne (c : DecCoins) {x y : String × Dec} (h : x.1 ≠ y.1) :
    ((c.add x).bind fun c => add c y) = (c.add y).bind fun c => add c x := by
  have h' : y.1 ≠ x.1 := fun heq => h heq.symm
  unfold add
  simp only [Option.bind_eq_bind, Option.bind_assoc]
  cases hx : (c.getD x.1 Dec.zero).add x.2 with
  | none =>
    cases hy : (c.getD y.1 Dec.zero).add y.2 with
    | none => rfl
    | some sy => simp [getD_put_ne c h, hx]
  | some sx =>
    cases hy : (c.getD y.1 Dec.zero).add y.2 with
    | none => simp [getD_put_ne c h', hy]
    | some sy => simp [getD_put_ne c h, getD_put_ne c h', hx, hy, put_comm c h]

/-- `MulDec`: multiply every amount, dropping zero results. -/
def mulDec (c : DecCoins) (d : Dec) : Option (List (String × Dec)) := do
  let products ← c.entries.mapM (fun coin => do
    let amount ← coin.2.mul d
    return (coin.1, amount))
  return products.filter (fun coin => !coin.2.isZero)

/-- One coin of `TruncateDecimal`: `NewCoin` of the truncated amount and
    `NewDecCoinFromDec` of the rest, either of which panics below zero. -/
def truncateCoin (truncated : Coins) (coin : String × Dec) : Option Coins :=
  if coin.2.isNegative then none
  else some (truncated.add (Coins.ofCoin coin.1 coin.2.truncateInt))

/-- The integer part of `TruncateDecimal`. -/
def truncateDecimal (coins : List (String × Dec)) : Option Coins := coins.foldlM truncateCoin ∅

end DecCoins

end TerraClassic
