import Mathlib.Algebra.BigOperators.Group.List.Basic
import Mathlib.Algebra.Order.BigOperators.Group.List
import Mathlib.Algebra.Order.Group.Int
import Mathlib.Algebra.Order.Ring.Int
import Mathlib.Order.Lattice

/-! # When a partial computation returns

    `Returns x P v` says that `x` returns `v` if `P` holds and fails if not: an
    exact specification of a computation that may fail.  Such specifications
    compose: a sequence returns when all its parts do (`Returns.bind`).

    `foldlM_sum` is the rule for a loop that adds up non-negative terms and fails
    when a partial sum leaves a set of allowed sums.  As the partial sums of
    non-negative terms increase, only the last one matters.  `foldlM_partial_sums` is
    the rule for terms of either sign, where every partial sum does.
-/

namespace TerraClassic

/-- `x` returns `v` exactly when `P` holds. -/
def Returns {α : Type} (x : Option α) (P : Prop) (v : α) : Prop :=
  (P → x = some v) ∧ (¬ P → x = none)

namespace Returns

variable {α β : Type} {x : Option α} {P Q : Prop} {v : α}

theorem isSome_iff (h : Returns x P v) : x.isSome ↔ P := by
  by_cases hP : P
  · rw [h.1 hP]
    exact ⟨fun _ => hP, fun _ => rfl⟩
  · rw [h.2 hP]
    exact ⟨nofun, fun hp => absurd hp hP⟩

theorem pure (v : α) : Returns (some v) True v := ⟨fun _ => rfl, fun h => absurd trivial h⟩

/-- A computation that cannot fail. -/
theorem of_isSome (h : x.isSome) (d : α) : Returns x True (x.getD d) := by
  obtain ⟨w, rfl⟩ := Option.isSome_iff_exists.mp h
  exact pure w

theorem congr (h : Returns x P v) (hPQ : P ↔ Q) : Returns x Q v :=
  ⟨fun hQ => h.1 (hPQ.mpr hQ), fun hQ => h.2 (fun hP => hQ (hPQ.mp hP))⟩

theorem bind {f : α → Option β} {w : β} (h : Returns x P v) (hf : P → Returns (f v) Q w) :
    Returns (x >>= f) (P ∧ Q) w := by
  by_cases hP : P
  · have hthen := hf hP
    rw [h.1 hP]
    exact ⟨fun hPQ => hthen.1 hPQ.2, fun hPQ => hthen.2 (fun hQ => hPQ ⟨hP, hQ⟩)⟩
  · rw [h.2 hP]
    exact ⟨fun hPQ => absurd hPQ.1 hP, fun _ => rfl⟩

/-- A computation whose second part cannot fail. -/
theorem bind_some {f : α → Option β} {w : β} (h : Returns x P v) (hf : f v = some w) :
    Returns (x >>= f) P w := by
  by_cases hP : P
  · rw [h.1 hP]
    exact ⟨fun _ => hf, fun hnot => absurd hP hnot⟩
  · rw [h.2 hP]
    exact ⟨fun hp => absurd hp hP, fun _ => rfl⟩

theorem bind_isSome_iff {f : α → Option β} (h : Returns x P v) :
    (x >>= f).isSome ↔ P ∧ (f v).isSome := by
  by_cases hP : P
  · rw [h.1 hP]
    exact (and_iff_right hP).symm
  · rw [h.2 hP]
    exact ⟨nofun, fun hthen => absurd hthen.1 hP⟩

/-- A loop whose steps fail or not whatever the state is. -/
theorem foldlM {S : Type} {f : S → α → Option S} {g : S → α → S} {ok : α → Prop} {l : List α}
    (hstep : ∀ a ∈ l, ∀ s, Returns (f s a) (ok a) (g s a)) (s : S) :
    Returns (l.foldlM f s) (∀ a ∈ l, ok a) (l.foldl g s) := by
  induction l generalizing s with
  | nil =>
    exact (Returns.pure s).congr
      ⟨fun _ a ha => absurd ha List.not_mem_nil, fun _ => trivial⟩
  | cons a rest ih =>
    rw [List.foldlM_cons, List.foldl_cons]
    exact ((hstep a List.mem_cons_self s).bind (fun _ =>
      ih (fun b hb => hstep b (List.mem_cons_of_mem a hb)) (g s a))).congr
        List.forall_mem_cons.symm

/-- A loop that adds up non-negative terms.  `allowed` is closed downwards. -/
theorem foldlM_sum {S : Type} {make : ℤ → S} {allowed : ℤ → Prop}
    (hdown : ∀ {y z}, 0 ≤ y → y ≤ z → allowed z → allowed y) {f : S → α → Option S}
    {ok : α → Prop} {term : α → ℤ} {l : List α} (hterm : ∀ a ∈ l, 0 ≤ term a)
    (hstep : ∀ a ∈ l, ∀ z, 0 ≤ z → allowed z →
      Returns (f (make z) a) (ok a ∧ allowed (z + term a)) (make (z + term a)))
    {z : ℤ} (hz : 0 ≤ z) (hallowed : allowed z) :
    Returns (l.foldlM f (make z)) ((∀ a ∈ l, ok a) ∧ allowed (z + (l.map term).sum))
      (make (z + (l.map term).sum)) := by
  induction l generalizing z with
  | nil =>
    rw [List.map_nil, List.sum_nil, add_zero]
    exact (Returns.pure (make z)).congr
      ⟨fun _ => ⟨fun a ha => absurd ha List.not_mem_nil, hallowed⟩, fun _ => trivial⟩
  | cons a rest ih =>
    have ha := hterm a List.mem_cons_self
    -- the partial sums increase, so the last one bounds the first
    have hrest : 0 ≤ (rest.map term).sum :=
      List.sum_nonneg (List.forall_mem_map.mpr
        (fun b hb => hterm b (List.mem_cons_of_mem _ hb)))
    rw [List.foldlM_cons, List.map_cons, List.sum_cons, ← add_assoc]
    refine ((hstep a List.mem_cons_self z hz hallowed).bind (fun hfirst =>
      ih (fun b hb => hterm b (List.mem_cons_of_mem _ hb))
        (fun b hb => hstep b (List.mem_cons_of_mem _ hb)) (by omega) hfirst.2)).congr ?_
    constructor
    · intro h
      obtain ⟨⟨hok, _⟩, hall, hlast⟩ := h
      exact ⟨List.forall_mem_cons.mpr ⟨hok, hall⟩, hlast⟩
    · intro h
      obtain ⟨hall, hlast⟩ := h
      obtain ⟨hok, hall⟩ := List.forall_mem_cons.mp hall
      exact ⟨⟨hok, hdown (by omega) (by omega) hlast⟩, hall, hlast⟩

/-- A loop that adds up terms of either sign. -/
theorem foldlM_partial_sums {S : Type} {make : ℤ → S} {allowed : ℤ → Prop}
    {f : S → α → Option S} {term : α → ℤ}
    (hstep : ∀ a z, Returns (f (make z) a) (allowed (z + term a)) (make (z + term a)))
    (l : List α) {z : ℤ} (hz : allowed z) :
    Returns (l.foldlM f (make z))
      (∀ m ≤ l.length, allowed (z + ((l.take m).map term).sum))
      (make (z + (l.map term).sum)) := by
  induction l generalizing z with
  | nil =>
    rw [List.map_nil, List.sum_nil, add_zero]
    refine (Returns.pure (make z)).congr ⟨fun _ m _ => ?_, fun _ => trivial⟩
    rw [List.take_nil, List.map_nil, List.sum_nil, add_zero]
    exact hz
  | cons a rest ih =>
    rw [List.foldlM_cons, List.map_cons, List.sum_cons, ← add_assoc]
    refine ((hstep a z).bind (fun hfirst => ih hfirst)).congr ?_
    constructor
    · intro h m hm
      cases m with
      | zero =>
        rw [List.take_zero, List.map_nil, List.sum_nil, add_zero]
        exact hz
      | succ m =>
        rw [List.take_succ_cons, List.map_cons, List.sum_cons, ← add_assoc]
        exact h.2 m (Nat.le_of_succ_le_succ hm)
    · intro h
      -- the partial sums after the first term are those of the rest
      have hrest : ∀ m ≤ rest.length, allowed (z + term a + ((rest.take m).map term).sum) := by
        intro m hm
        have hm := h (m + 1) (Nat.succ_le_succ hm)
        rwa [List.take_succ_cons, List.map_cons, List.sum_cons, ← add_assoc] at hm
      have hfirst := hrest 0 (Nat.zero_le _)
      rw [List.take_zero, List.map_nil, List.sum_nil, add_zero] at hfirst
      exact ⟨hfirst, hrest⟩

end Returns

end TerraClassic
