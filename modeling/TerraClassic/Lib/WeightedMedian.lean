import Mathlib.Algebra.BigOperators.Group.List.Basic
import Mathlib.Algebra.Order.BigOperators.Group.List
import Mathlib.Algebra.Order.Group.Int
import Mathlib.Algebra.Order.Ring.Int
import Mathlib.Data.List.MinMax
import Mathlib.Data.List.Perm.Basic
import Mathlib.Order.Lattice

/-! # The first value at which a running weight reaches a bound

    A list of items, sorted by `rate`, is walked while the weights add up;
    the walk stops at the first item where the sum reaches `half`
    (`firstReaching`).  With `half` one half of the total weight this is the
    lower weighted median.

    The result does not depend on the order of items with equal rate:
    `Reaches` says which rate is returned without mentioning an order, it
    determines the rate, and the walk satisfies it.

    With `half` the total divided by two and rounded down, an interval that holds more
    than half of the weight contains the median unless the weight up to some item falls
    short of one half by exactly one half (`Reaches.majority_iff`).
-/

namespace WeightedMedian

variable {ι α : Type} [LinearOrder α] (rate : ι → α) (weight : ι → ℤ)

/-- Walk the list from the running sum `acc`. -/
def firstReaching (half : ℤ) : ℤ → List ι → Option α
  | _, [] => none
  | acc, x :: rest =>
    if half ≤ acc + weight x then some (rate x) else firstReaching half (acc + weight x) rest

/-- The weight of the items with rate at most `m`. -/
def weightUpTo (l : List ι) (m : α) : ℤ := ((l.filter (fun x => rate x ≤ m)).map weight).sum

/-- `m` is the least rate of the list up to which the weight reaches `half`. -/
structure Reaches (half : ℤ) (l : List ι) (m : α) : Prop where
  attained : ∃ x ∈ l, rate x = m
  reached : half ≤ weightUpTo rate weight l m
  first : ∀ x ∈ l, rate x < m → weightUpTo rate weight l (rate x) < half

section weights
variable {rate weight}

theorem weightUpTo_cons (x : ι) (l : List ι) (m : α) :
    weightUpTo rate weight (x :: l) m =
      (if rate x ≤ m then weight x else 0) + weightUpTo rate weight l m := by
  unfold weightUpTo
  by_cases h : rate x ≤ m <;> simp [h]

theorem weightUpTo_perm {l₁ l₂ : List ι} (h : l₁.Perm l₂) (m : α) :
    weightUpTo rate weight l₁ m = weightUpTo rate weight l₂ m :=
  ((h.filter _).map _).sum_eq

theorem weightUpTo_nonneg {l : List ι} (h : ∀ x ∈ l, 0 ≤ weight x) (m : α) :
    0 ≤ weightUpTo rate weight l m := by
  apply List.sum_nonneg
  intro w hw
  obtain ⟨x, hx, rfl⟩ := List.mem_map.mp hw
  exact h x (List.mem_of_mem_filter hx)

theorem weightUpTo_le_sum {l : List ι} (h : ∀ x ∈ l, 0 ≤ weight x) (m : α) :
    weightUpTo rate weight l m ≤ (l.map weight).sum := by
  induction l with
  | nil => simp [weightUpTo]
  | cons x rest ih =>
    have hx := h x List.mem_cons_self
    have hrest := ih (fun y hy => h y (List.mem_cons_of_mem _ hy))
    rw [weightUpTo_cons, List.map_cons, List.sum_cons]
    split <;> omega

end weights

variable {rate weight}

/-! ### The walk -/

/-- What the walk returns, from any running sum.  The induction is on the list;
    the running sum stands for the items already passed. -/
theorem firstReaching_spec {half : ℤ} {l : List ι} {acc : ℤ} {m : α}
    (hs : l.Pairwise (fun x y => rate x ≤ rate y)) (hw : ∀ x ∈ l, 0 ≤ weight x)
    (h : firstReaching rate weight half acc l = some m) :
    (∃ x ∈ l, rate x = m) ∧ half ≤ acc + weightUpTo rate weight l m ∧
      ∀ x ∈ l, rate x < m → acc + weightUpTo rate weight l (rate x) < half := by
  induction l generalizing acc with
  | nil => simp [firstReaching] at h
  | cons x rest ih =>
    obtain ⟨hx, hrest⟩ := List.pairwise_cons.mp hs
    have hwrest : ∀ y ∈ rest, 0 ≤ weight y := fun y hy => hw y (List.mem_cons_of_mem _ hy)
    unfold firstReaching at h
    split at h
    · next hhalf =>
      obtain rfl := Option.some.inj h
      refine ⟨⟨x, List.mem_cons_self, rfl⟩, ?_, ?_⟩
      · have hnn : 0 ≤ weightUpTo rate weight rest (rate x) := weightUpTo_nonneg hwrest (rate x)
        rw [weightUpTo_cons, if_pos le_rfl]
        omega
      · intro y hy hlt
        rcases List.mem_cons.mp hy with rfl | hy
        · exact absurd hlt (lt_irrefl _)
        · exact absurd (hx y hy) (not_le.mpr hlt)
    · next hhalf =>
      obtain ⟨⟨z, hz, hzm⟩, hreach, hfirst⟩ := ih hrest hwrest h
      have hxm : rate x ≤ m := hzm ▸ hx z hz
      refine ⟨⟨z, List.mem_cons_of_mem _ hz, hzm⟩, ?_, ?_⟩
      · rw [weightUpTo_cons, if_pos hxm]
        omega
      · intro y hy hlt
        rcases List.mem_cons.mp hy with rfl | hy
        · -- the passed item itself: its equals in the rest were passed too
          rw [weightUpTo_cons, if_pos le_rfl]
          by_cases heq : ∃ u ∈ rest, rate u = rate y
          · obtain ⟨u, hu, hur⟩ := heq
            have := hfirst u hu (hur ▸ hlt)
            rw [hur] at this
            omega
          · have hzero : weightUpTo rate weight rest (rate y) = 0 := by
              unfold weightUpTo
              have hnil : rest.filter (fun x => rate x ≤ rate y) = [] := by
                rw [List.filter_eq_nil_iff]
                intro u hu hle
                exact heq ⟨u, hu, le_antisymm (by simpa using hle) (hx u hu)⟩
              rw [hnil]
              simp
            omega
        · have := hfirst y hy hlt
          rw [weightUpTo_cons, if_pos (hx y hy)]
          omega

theorem firstReaching_reaches {half : ℤ} {l : List ι} {m : α}
    (hs : l.Pairwise (fun x y => rate x ≤ rate y)) (hw : ∀ x ∈ l, 0 ≤ weight x)
    (h : firstReaching rate weight half 0 l = some m) : Reaches rate weight half l m := by
  obtain ⟨h₁, h₂, h₃⟩ := firstReaching_spec hs hw h
  refine ⟨h₁, by omega, ?_⟩
  intro x hx hlt
  have := h₃ x hx hlt
  omega

omit [LinearOrder α] in
/-- The walk stops when the whole weight reaches the bound. -/
theorem firstReaching_isSome {half : ℤ} {l : List ι} {acc : ℤ} (hne : l ≠ [])
    (h : half ≤ acc + (l.map weight).sum) :
    (firstReaching rate weight half acc l).isSome := by
  induction l generalizing acc with
  | nil => exact absurd rfl hne
  | cons x rest ih =>
    unfold firstReaching
    split
    · rfl
    · next hhalf =>
      cases rest with
      | nil => simp at h; omega
      | cons y ys =>
        apply ih (by simp)
        simp only [List.map_cons, List.sum_cons] at h ⊢
        omega

theorem Reaches.unique {half : ℤ} {l : List ι} {m m' : α}
    (h : Reaches rate weight half l m) (h' : Reaches rate weight half l m') : m = m' := by
  rcases lt_trichotomy m m' with hlt | heq | hgt
  · obtain ⟨x, hx, hxm⟩ := h.attained
    have := h'.first x hx (hxm ▸ hlt)
    rw [hxm] at this
    exact absurd h.reached (not_le.mpr this)
  · exact heq
  · obtain ⟨x, hx, hxm⟩ := h'.attained
    have := h.first x hx (hxm ▸ hgt)
    rw [hxm] at this
    exact absurd h'.reached (not_le.mpr this)

theorem Reaches.perm {half : ℤ} {l₁ l₂ : List ι} {m : α} (hp : l₁.Perm l₂)
    (h : Reaches rate weight half l₁ m) : Reaches rate weight half l₂ m := by
  obtain ⟨x, hx, hxm⟩ := h.attained
  refine ⟨⟨x, hp.subset hx, hxm⟩, ?_, ?_⟩
  · rw [← weightUpTo_perm hp]
    exact h.reached
  · intro y hy hlt
    rw [← weightUpTo_perm hp]
    exact h.first y (hp.symm.subset hy) hlt

/-- On a sorted list the walk returns the rate that `Reaches` describes. -/
theorem firstReaching_eq_some_iff {half : ℤ} {l : List ι} {m : α}
    (hs : l.Pairwise (fun x y => rate x ≤ rate y)) (hw : ∀ x ∈ l, 0 ≤ weight x) :
    firstReaching rate weight half 0 l = some m ↔ Reaches rate weight half l m := by
  constructor
  · exact firstReaching_reaches hs hw
  · intro h
    have hne : l ≠ [] := by
      rintro rfl
      obtain ⟨x, hx, _⟩ := h.attained
      cases hx
    have hsome : (firstReaching rate weight half 0 l).isSome := by
      apply firstReaching_isSome hne
      have : weightUpTo rate weight l m ≤ (l.map weight).sum := weightUpTo_le_sum hw m
      have := h.reached
      omega
    obtain ⟨m', hm'⟩ := Option.isSome_iff_exists.mp hsome
    rw [hm', (firstReaching_reaches hs hw hm').unique h]

/-- The order of items with equal rate does not matter. -/
theorem firstReaching_perm {half : ℤ} {l₁ l₂ : List ι} (hp : l₁.Perm l₂)
    (hs₁ : l₁.Pairwise (fun x y => rate x ≤ rate y))
    (hs₂ : l₂.Pairwise (fun x y => rate x ≤ rate y)) (hw : ∀ x ∈ l₁, 0 ≤ weight x) :
    firstReaching rate weight half 0 l₁ = firstReaching rate weight half 0 l₂ := by
  have hw₂ : ∀ x ∈ l₂, 0 ≤ weight x := fun x hx => hw x (hp.symm.subset hx)
  ext m
  rw [firstReaching_eq_some_iff hs₁ hw, firstReaching_eq_some_iff hs₂ hw₂]
  exact ⟨Reaches.perm hp, Reaches.perm hp.symm⟩

/-! ### Majorities -/

section majority
variable (rate weight)

/-- The weight of the items with rate between `lo` and `hi`. -/
def weightIn (l : List ι) (lo hi : α) : ℤ :=
  ((l.filter (fun x => lo ≤ rate x ∧ rate x ≤ hi)).map weight).sum

end majority

theorem weightIn_cons (x : ι) (l : List ι) (lo hi : α) :
    weightIn rate weight (x :: l) lo hi =
      (if lo ≤ rate x ∧ rate x ≤ hi then weight x else 0) + weightIn rate weight l lo hi := by
  unfold weightIn
  by_cases h : lo ≤ rate x ∧ rate x ≤ hi
  · simp [h]
  · simp only [List.filter_cons, h, decide_false, Bool.false_eq_true, if_false]
    omega

theorem weightIn_le_weightUpTo {l : List ι} (hw : ∀ x ∈ l, 0 ≤ weight x) (lo hi : α) :
    weightIn rate weight l lo hi ≤ weightUpTo rate weight l hi := by
  induction l with
  | nil => simp [weightIn, weightUpTo]
  | cons x rest ih =>
    have hx := hw x List.mem_cons_self
    have hrest := ih (fun y hy => hw y (List.mem_cons_of_mem _ hy))
    rw [weightIn_cons, weightUpTo_cons]
    split_ifs with hin hup
    · omega
    · exact absurd hin.2 hup
    · omega
    · omega

/-- An interval above `m` and the items up to `m` do not overlap. -/
theorem weightUpTo_add_weightIn_le {l : List ι} (hw : ∀ x ∈ l, 0 ≤ weight x) {m lo : α}
    (hlt : m < lo) (hi : α) :
    weightUpTo rate weight l m + weightIn rate weight l lo hi ≤ (l.map weight).sum := by
  induction l with
  | nil => simp [weightIn, weightUpTo]
  | cons x rest ih =>
    have hx := hw x List.mem_cons_self
    have hrest := ih (fun y hy => hw y (List.mem_cons_of_mem _ hy))
    rw [weightIn_cons, weightUpTo_cons, List.map_cons, List.sum_cons]
    split_ifs with hup hin
    · exact absurd (hup.trans_lt hlt) (not_lt.mpr hin.1)
    · omega
    · omega
    · omega

/-- An interval that holds all items above `m` and the items up to `m` are everything. -/
theorem weightUpTo_add_weightIn {l : List ι} {m lo hi : α} (hlt : m < lo)
    (habove : ∀ x ∈ l, m < rate x → lo ≤ rate x ∧ rate x ≤ hi) :
    weightUpTo rate weight l m + weightIn rate weight l lo hi = (l.map weight).sum := by
  induction l with
  | nil => simp [weightIn, weightUpTo]
  | cons x rest ih =>
    have hx := habove x List.mem_cons_self
    have hrest := ih (fun y hy => habove y (List.mem_cons_of_mem _ hy))
    rw [weightIn_cons, weightUpTo_cons, List.map_cons, List.sum_cons]
    split_ifs with hup hin hin
    · exact absurd (hup.trans_lt hlt) (not_lt.mpr hin.1)
    · omega
    · omega
    · exact absurd (hx (not_le.mp hup)) hin

theorem exists_argmax (f : ι → α) {l : List ι} (hne : l ≠ []) : ∃ x, x ∈ l.argmax f := by
  cases h : l.argmax f with
  | none => exact absurd (List.argmax_eq_none.mp h) hne
  | some x => exact ⟨x, rfl⟩

theorem exists_argmin (f : ι → α) {l : List ι} (hne : l ≠ []) : ∃ x, x ∈ l.argmin f := by
  cases h : l.argmin f with
  | none => exact absurd (List.argmin_eq_none.mp h) hne
  | some x => exact ⟨x, rfl⟩

/-- Above an item up to which not all of the weight lies there are more items, and an
    interval that holds exactly these. -/
theorem exists_weightIn_above {l : List ι} {x : ι} (hx : x ∈ l)
    (h : weightUpTo rate weight l (rate x) ≠ (l.map weight).sum) :
    ∃ lo hi, rate x < lo ∧ weightUpTo rate weight l (rate x) +
      weightIn rate weight l lo hi = (l.map weight).sum := by
  have hne : l.filter (fun y => rate x < rate y) ≠ [] := by
    intro hnil
    apply h
    unfold weightUpTo
    rw [List.filter_eq_self.mpr]
    intro y hy
    simpa using List.filter_eq_nil_iff.mp hnil y hy
  obtain ⟨lowest, hlowest⟩ := exists_argmin rate hne
  obtain ⟨highest, hhighest⟩ := exists_argmax rate (List.ne_nil_of_mem hx)
  have hlt : rate x < rate lowest := by
    simpa using (List.mem_filter.mp (List.argmin_mem hlowest)).2
  refine ⟨rate lowest, rate highest, hlt, weightUpTo_add_weightIn hlt ?_⟩
  intro y hy hxy
  exact ⟨List.le_of_mem_argmin (List.mem_filter.mpr ⟨hy, by simpa using hxy⟩) hlowest,
    List.le_of_mem_argmax hy hhighest⟩

/-- The weight up to a bound is the weight up to the greatest item below it. -/
theorem exists_weightUpTo_eq {l : List ι} {b : α} (h : weightUpTo rate weight l b ≠ 0) :
    ∃ x ∈ l, rate x ≤ b ∧ weightUpTo rate weight l (rate x) = weightUpTo rate weight l b := by
  have hne : l.filter (fun x => rate x ≤ b) ≠ [] := by
    intro hnil
    unfold weightUpTo at h
    rw [hnil] at h
    exact h rfl
  obtain ⟨x, hx⟩ := exists_argmax rate hne
  have hmem := List.mem_filter.mp (List.argmax_mem hx)
  have hxb : rate x ≤ b := by simpa using hmem.2
  refine ⟨x, hmem.1, hxb, ?_⟩
  unfold weightUpTo
  congr 2
  apply List.filter_congr
  intro y hy
  have hiff : rate y ≤ rate x ↔ rate y ≤ b :=
    ⟨fun hle => hle.trans hxb, fun hle =>
      List.le_of_mem_argmax (List.mem_filter.mpr ⟨hy, by simpa using hle⟩) hx⟩
  simp [hiff]

/-- Exactly when every interval with more than half of the weight contains the median. -/
theorem Reaches.majority_iff {l : List ι} {m : α} (hw : ∀ x ∈ l, 0 ≤ weight x)
    (h : Reaches rate weight ((l.map weight).sum / 2) l m) :
    (∀ lo hi, (l.map weight).sum < 2 * weightIn rate weight l lo hi → lo ≤ m ∧ m ≤ hi) ↔
      ∀ x ∈ l, 2 * weightUpTo rate weight l (rate x) + 1 ≠ (l.map weight).sum := by
  constructor
  · intro hmajority x hx htotal
    have hnonneg : 0 ≤ weightUpTo rate weight l (rate x) := weightUpTo_nonneg hw (rate x)
    -- the walk has stopped at this item, and the items above it are a majority
    obtain ⟨lo, hi, hlt, hsum⟩ := exists_weightIn_above hx (by omega :
      weightUpTo rate weight l (rate x) ≠ (l.map weight).sum)
    have hlo := (hmajority lo hi (by omega)).1
    have hfirst := h.first x hx (hlt.trans_le hlo)
    omega
  · intro hno lo hi hmore
    have hnonneg : 0 ≤ weightUpTo rate weight l m := weightUpTo_nonneg hw m
    have htotal : weightUpTo rate weight l m ≤ (l.map weight).sum := weightUpTo_le_sum hw m
    constructor
    · by_contra hlt
      have hdisjoint : weightUpTo rate weight l m + weightIn rate weight l lo hi ≤
          (l.map weight).sum := weightUpTo_add_weightIn_le hw (not_le.mp hlt) hi
      have hreached := h.reached
      obtain ⟨x, hx, rfl⟩ := h.attained
      exact hno x hx (by omega)
    · by_contra hlt
      have hle : weightIn rate weight l lo hi ≤ weightUpTo rate weight l hi :=
        weightIn_le_weightUpTo hw lo hi
      obtain ⟨x, hx, hxhi, hweight⟩ := exists_weightUpTo_eq (by omega :
        weightUpTo rate weight l hi ≠ 0)
      have hfirst := h.first x hx (hxhi.trans_lt (not_le.mp hlt))
      omega

end WeightedMedian
