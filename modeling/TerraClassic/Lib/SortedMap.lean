import Mathlib.Algebra.BigOperators.Group.List.Basic
import Mathlib.Data.List.Basic
import Mathlib.Data.List.Pairwise
import Mathlib.Order.Lattice

/-! # Finite maps with a canonical form

    A finite map is an association list whose keys strictly increase.
    The order is part of the type, so two maps with the same lookups are
    the same map (`SortedMap.ext_get`), and a proof about two runs that
    visit the keys in different orders can end by comparing lookups.

    * `get`, `set`, `erase`, `filter`: the operations, each with the lemma
      that says what a lookup returns afterwards.
    * `getD`: a lookup with a default for a missing key.
    * `mem_entries`: being an entry and being found are the same thing.
-/

/-- A finite map from `K` to `V`: entries in strictly increasing key order. -/
structure SortedMap (K V : Type) [LinearOrder K] where
  entries : List (K × V)
  sorted : entries.Pairwise (fun a b => a.1 < b.1)

namespace SortedMap

variable {K V : Type} [LinearOrder K]

instance [DecidableEq V] : DecidableEq (SortedMap K V) := fun m₁ m₂ =>
  decidable_of_iff (m₁.entries = m₂.entries)
    ⟨fun h => by cases m₁; cases m₂; simp_all, fun h => by rw [h]⟩

/-! ### Entry lists -/

/-- The value a list of entries gives to a key. -/
def lookup (k : K) : List (K × V) → Option V
  | [] => none
  | e :: rest => if k = e.1 then some e.2 else lookup k rest

/-- Put `(k, v)` at the place of `k`, replacing an entry with the same key. -/
def insertEntry (k : K) (v : V) : List (K × V) → List (K × V)
  | [] => [(k, v)]
  | e :: rest =>
    if k < e.1 then (k, v) :: e :: rest
    else if k = e.1 then (k, v) :: rest
    else e :: insertEntry k v rest

theorem mem_insertEntry {k : K} {v : V} {l : List (K × V)} {e : K × V}
    (h : e ∈ insertEntry k v l) : e = (k, v) ∨ e ∈ l := by
  induction l with
  | nil => left; simpa [insertEntry] using h
  | cons x rest ih =>
    unfold insertEntry at h
    split at h
    · rcases List.mem_cons.mp h with h | h
      · exact Or.inl h
      · exact Or.inr h
    · split at h
      · rcases List.mem_cons.mp h with h | h
        · exact Or.inl h
        · exact Or.inr (List.mem_cons_of_mem _ h)
      · rcases List.mem_cons.mp h with h | h
        · exact Or.inr (h ▸ List.mem_cons_self)
        · rcases ih h with h | h
          · exact Or.inl h
          · exact Or.inr (List.mem_cons_of_mem _ h)

theorem insertEntry_sorted (k : K) (v : V) {l : List (K × V)}
    (h : l.Pairwise (fun a b => a.1 < b.1)) :
    (insertEntry k v l).Pairwise (fun a b => a.1 < b.1) := by
  induction l with
  | nil => simp [insertEntry]
  | cons x rest ih =>
    obtain ⟨hx, hrest⟩ := List.pairwise_cons.mp h
    unfold insertEntry
    split
    · next hlt =>
      refine List.pairwise_cons.mpr ⟨?_, h⟩
      intro e he
      rcases List.mem_cons.mp he with rfl | he
      · exact hlt
      · exact lt_trans hlt (hx e he)
    · next hnlt =>
      split
      · next heq =>
        refine List.pairwise_cons.mpr ⟨?_, hrest⟩
        intro e he
        rw [heq]
        exact hx e he
      · next hne =>
        refine List.pairwise_cons.mpr ⟨?_, ih hrest⟩
        intro e he
        rcases mem_insertEntry he with rfl | he
        · exact lt_of_le_of_ne (not_lt.mp hnlt) (Ne.symm hne)
        · exact hx e he

theorem lookup_insertEntry (k k' : K) (v : V) (l : List (K × V)) :
    lookup k' (insertEntry k v l) = if k' = k then some v else lookup k' l := by
  induction l with
  | nil => simp [insertEntry, lookup]
  | cons x rest ih =>
    unfold insertEntry
    split
    · simp [lookup]
    · split
      · next heq => by_cases h : k' = k <;> simp [lookup, h, ← heq]
      · next hne =>
        by_cases h : k' = x.1
        · have hxk : x.1 ≠ k := fun hk => hne hk.symm
          simp [lookup, h, hxk]
        · simp [lookup, h, ih]

theorem lookup_eq_none_of_forall_ne {k : K} {l : List (K × V)}
    (h : ∀ e ∈ l, e.1 ≠ k) : lookup k l = none := by
  induction l with
  | nil => rfl
  | cons x rest ih =>
    have hx : k ≠ x.1 := Ne.symm (h x List.mem_cons_self)
    have hrest := ih (fun e he => h e (List.mem_cons_of_mem _ he))
    simp [lookup, hx, hrest]

theorem lookup_eq_none_of_not_mem {k : K} {l : List (K × V)} (h : k ∉ l.map Prod.fst) :
    lookup k l = none := by
  apply lookup_eq_none_of_forall_ne
  intro e he hek
  exact h (List.mem_map.mpr ⟨e, he, hek⟩)

theorem forall_ne_of_lookup_eq_none {k : K} {l : List (K × V)}
    (h : lookup k l = none) : ∀ e ∈ l, e.1 ≠ k := by
  induction l with
  | nil => intro e he; cases he
  | cons x rest ih =>
    intro e he
    by_cases hk : k = x.1
    · simp [lookup, hk] at h
    · rcases List.mem_cons.mp he with rfl | he
      · exact fun heq => hk heq.symm
      · exact ih (by simpa [lookup, hk] using h) e he

theorem lookup_isSome_iff {k : K} {l : List (K × V)} :
    (lookup k l).isSome ↔ k ∈ l.map Prod.fst := by
  induction l with
  | nil => simp [lookup]
  | cons x rest ih =>
    by_cases h : k = x.1
    · simp [lookup, h]
    · simpa [lookup, h] using ih

theorem mem_of_lookup {k : K} {v : V} {l : List (K × V)}
    (h : lookup k l = some v) : (k, v) ∈ l := by
  induction l with
  | nil => simp [lookup] at h
  | cons x rest ih =>
    by_cases hk : k = x.1
    · have hv : x.2 = v := by simpa [lookup, hk] using h
      exact List.mem_cons.mpr (Or.inl (by rw [hk, ← hv]))
    · exact List.mem_cons_of_mem _ (ih (by simpa [lookup, hk] using h))

theorem lookup_of_mem {k : K} {v : V} {l : List (K × V)}
    (hs : l.Pairwise (fun a b => a.1 < b.1)) (h : (k, v) ∈ l) : lookup k l = some v := by
  induction l with
  | nil => cases h
  | cons x rest ih =>
    obtain ⟨hx, hrest⟩ := List.pairwise_cons.mp hs
    rcases List.mem_cons.mp h with h | h
    · simp [lookup, ← h]
    · have hne : k ≠ x.1 := ne_of_gt (hx (k, v) h)
      simp [lookup, hne, ih hrest h]

/-- Lookups decide a sorted entry list: the head is the least key found. -/
theorem eq_of_lookup_eq {l₁ l₂ : List (K × V)}
    (h₁ : l₁.Pairwise (fun a b => a.1 < b.1)) (h₂ : l₂.Pairwise (fun a b => a.1 < b.1))
    (h : ∀ k, lookup k l₁ = lookup k l₂) : l₁ = l₂ := by
  induction l₁ generalizing l₂ with
  | nil =>
    cases l₂ with
    | nil => rfl
    | cons y ys => have := h y.1; simp [lookup] at this
  | cons x xs ih =>
    cases l₂ with
    | nil => have := h x.1; simp [lookup] at this
    | cons y ys =>
      obtain ⟨hx, hxs⟩ := List.pairwise_cons.mp h₁
      obtain ⟨hy, hys⟩ := List.pairwise_cons.mp h₂
      have hxy : x ∈ y :: ys := mem_of_lookup (by rw [← h x.1]; simp [lookup])
      have hyx : y ∈ x :: xs := mem_of_lookup (by rw [h y.1]; simp [lookup])
      have hhead : x = y := by
        rcases List.mem_cons.mp hxy with hxy | hxy
        · exact hxy
        · rcases List.mem_cons.mp hyx with hyx | hyx
          · exact hyx.symm
          · exact absurd (hy x hxy) (lt_asymm (hx y hyx))
      subst hhead
      have htail : ∀ k, lookup k xs = lookup k ys := by
        intro k
        by_cases hk : k = x.1
        · have hn₁ : lookup k xs = none :=
            lookup_eq_none_of_forall_ne (fun e he => hk ▸ ne_of_gt (hx e he))
          have hn₂ : lookup k ys = none :=
            lookup_eq_none_of_forall_ne (fun e he => hk ▸ ne_of_gt (hy e he))
          rw [hn₁, hn₂]
        · have := h k
          simpa [lookup, hk] using this
      rw [ih hxs hys htail]

theorem lookup_filter (p : K → V → Bool) (k : K) {l : List (K × V)}
    (hs : l.Pairwise (fun a b => a.1 < b.1)) :
    lookup k (l.filter (fun e => p e.1 e.2)) = (lookup k l).filter (p k) := by
  induction l with
  | nil => rfl
  | cons x rest ih =>
    obtain ⟨hx, hrest⟩ := List.pairwise_cons.mp hs
    by_cases hk : k = x.1
    · subst hk
      have hnone : lookup x.1 rest = none :=
        lookup_eq_none_of_forall_ne (fun e he => ne_of_gt (hx e he))
      by_cases hp : p x.1 x.2 = true
      · simp [lookup, hp, Option.filter]
      · have := ih hrest
        simp [lookup, hp, this, hnone, Option.filter]
    · by_cases hp : p x.1 x.2 = true
      · simp [lookup, hp, hk, ih hrest]
      · simp [lookup, hp, hk, ih hrest]

/-! ### Operations -/

/-- The empty map. -/
def empty : SortedMap K V := ⟨[], List.Pairwise.nil⟩

instance : EmptyCollection (SortedMap K V) := ⟨empty⟩

instance : Inhabited (SortedMap K V) := ⟨empty⟩

/-- The value stored at `k`, if any. -/
def get (m : SortedMap K V) (k : K) : Option V := lookup k m.entries

/-- The value stored at `k`, or `v` when there is none. -/
def getD (m : SortedMap K V) (k : K) (v : V) : V := (m.get k).getD v

/-- Store `v` at `k`. -/
def set (m : SortedMap K V) (k : K) (v : V) : SortedMap K V :=
  ⟨insertEntry k v m.entries, insertEntry_sorted k v m.sorted⟩

/-- Keep the entries that satisfy `p`. -/
def filter (m : SortedMap K V) (p : K → V → Bool) : SortedMap K V :=
  ⟨m.entries.filter (fun e => p e.1 e.2), m.sorted.filter _⟩

/-- Replace every value by `f` of it. -/
def mapVal {W : Type} (m : SortedMap K V) (f : V → W) : SortedMap K W :=
  ⟨m.entries.map (fun e => (e.1, f e.2)), by
    rw [List.pairwise_map]
    exact m.sorted⟩

/-- Remove the entry at `k`. -/
def erase (m : SortedMap K V) (k : K) : SortedMap K V := m.filter (fun k' _ => k' ≠ k)

/-- The number of entries. -/
def size (m : SortedMap K V) : ℕ := m.entries.length

/-- The keys, in increasing order. -/
def keys (m : SortedMap K V) : List K := m.entries.map Prod.fst

@[simp] theorem get_empty (k : K) : (∅ : SortedMap K V).get k = none := rfl

theorem get_set (m : SortedMap K V) (k k' : K) (v : V) :
    (m.set k v).get k' = if k' = k then some v else m.get k' :=
  lookup_insertEntry k k' v m.entries

@[simp] theorem get_set_self (m : SortedMap K V) (k : K) (v : V) :
    (m.set k v).get k = some v := by
  simp [get_set]

@[simp] theorem get_set_ne (m : SortedMap K V) {k k' : K} (v : V) (h : k' ≠ k) :
    (m.set k v).get k' = m.get k' := by
  simp [get_set, h]

theorem get_filter (m : SortedMap K V) (p : K → V → Bool) (k : K) :
    (m.filter p).get k = (m.get k).filter (p k) :=
  lookup_filter p k m.sorted

theorem lookup_mapVal {W : Type} (f : V → W) (k : K) (l : List (K × V)) :
    lookup k (l.map (fun e => (e.1, f e.2))) = (lookup k l).map f := by
  induction l with
  | nil => rfl
  | cons x rest ih => by_cases h : k = x.1 <;> simp [lookup, h, ih]

theorem get_mapVal {W : Type} (m : SortedMap K V) (f : V → W) (k : K) :
    (m.mapVal f).get k = (m.get k).map f :=
  lookup_mapVal f k m.entries

theorem entries_mapVal {W : Type} (m : SortedMap K V) (f : V → W) :
    (m.mapVal f).entries = m.entries.map (fun e => (e.1, f e.2)) := rfl

theorem get_erase (m : SortedMap K V) (k k' : K) :
    (m.erase k).get k' = if k' = k then none else m.get k' := by
  unfold erase
  rw [get_filter]
  by_cases h : k' = k
  · cases hg : m.get k' <;> simp [h]
  · cases hg : m.get k' <;> simp [h]

@[simp] theorem get_erase_self (m : SortedMap K V) (k : K) : (m.erase k).get k = none := by
  simp [get_erase]

@[simp] theorem get_erase_ne (m : SortedMap K V) {k k' : K} (h : k' ≠ k) :
    (m.erase k).get k' = m.get k' := by
  simp [get_erase, h]

/-- Two maps with the same lookups are equal. -/
theorem ext_get {m₁ m₂ : SortedMap K V} (h : ∀ k, m₁.get k = m₂.get k) : m₁ = m₂ := by
  cases m₁ with
  | mk l₁ h₁ =>
    cases m₂ with
    | mk l₂ h₂ =>
      have hl : l₁ = l₂ := eq_of_lookup_eq h₁ h₂ h
      subst hl
      rfl

/-- Filtering by a test that `f` does not change. -/
theorem filter_mapVal {W : Type} (m : SortedMap K V) {f : V → W} {p : K → W → Bool}
    {q : K → V → Bool} (h : ∀ k v, p k (f v) = q k v) :
    (m.mapVal f).filter p = (m.filter q).mapVal f := by
  apply ext_get
  intro k
  rw [get_filter, get_mapVal, get_mapVal, get_filter]
  cases m.get k with
  | none => rfl
  | some v => cases hq : q k v <;> simp [Option.filter, h, hq]

/-- Being an entry is being found. -/
theorem mem_entries {m : SortedMap K V} {k : K} {v : V} :
    (k, v) ∈ m.entries ↔ m.get k = some v :=
  ⟨lookup_of_mem m.sorted, mem_of_lookup⟩

theorem mem_keys {m : SortedMap K V} {k : K} : k ∈ m.keys ↔ (m.get k).isSome := by
  constructor
  · intro h
    obtain ⟨e, he, rfl⟩ := List.mem_map.mp h
    simp [mem_entries.mp he]
  · intro h
    obtain ⟨v, hv⟩ := Option.isSome_iff_exists.mp h
    exact List.mem_map.mpr ⟨(k, v), mem_entries.mpr hv, rfl⟩

/-- A key that is found has exactly one entry. -/
theorem filter_key_eq {m : SortedMap K V} {k : K} {v : V} (h : m.get k = some v) :
    m.entries.filter (fun e => e.1 = k) = [(k, v)] := by
  have hmem := mem_entries.mpr h
  have hall : ∀ e ∈ m.entries.filter (fun e => e.1 = k), e = (k, v) := by
    intro e he
    obtain ⟨he, hk⟩ := List.mem_filter.mp he
    have hk' : e.1 = k := by simpa using hk
    have := mem_entries.mp (show (e.1, e.2) ∈ m.entries from he)
    rw [hk', h] at this
    rw [Option.some.inj this, ← hk']
  have hnd : (m.entries.filter (fun e => e.1 = k)).Nodup :=
    (m.sorted.imp (fun hlt heq => absurd (congrArg Prod.fst heq) (ne_of_lt hlt))).filter _
  have hin : (k, v) ∈ m.entries.filter (fun e => e.1 = k) :=
    List.mem_filter.mpr ⟨hmem, by simp⟩
  exact (List.perm_singleton.mp ((List.perm_ext_iff_of_nodup hnd (by simp)).mpr (by
    intro e
    rw [List.mem_singleton]
    exact ⟨hall e, fun he => he ▸ hin⟩)))

theorem keys_nodup (m : SortedMap K V) : m.keys.Nodup := by
  unfold keys List.Nodup
  rw [List.pairwise_map]
  exact m.sorted.imp (fun h => ne_of_lt h)

theorem entries_nodup (m : SortedMap K V) : m.entries.Nodup :=
  m.sorted.imp (fun h heq => absurd (congrArg Prod.fst heq) (ne_of_lt h))

/-- Writing two different keys commutes. -/
theorem set_comm (m : SortedMap K V) {k k' : K} (v v' : V) (h : k ≠ k') :
    (m.set k v).set k' v' = (m.set k' v').set k v := by
  apply ext_get
  intro j
  simp only [get_set]
  by_cases h₁ : j = k' <;> by_cases h₂ : j = k <;> simp_all

/-- The later of two writes to one key stays. -/
@[simp] theorem set_set (m : SortedMap K V) (k : K) (v v' : V) :
    (m.set k v).set k v' = m.set k v' := by
  apply ext_get
  intro j
  simp only [get_set]
  by_cases h : j = k <;> simp [h]

/-- Writing one key and removing another commutes. -/
theorem erase_set_comm (m : SortedMap K V) {k k' : K} (v : V) (h : k ≠ k') :
    (m.set k v).erase k' = (m.erase k').set k v := by
  apply ext_get
  intro j
  simp only [get_set, get_erase]
  by_cases h₁ : j = k' <;> by_cases h₂ : j = k <;> simp_all

theorem erase_comm (m : SortedMap K V) (k k' : K) :
    (m.erase k).erase k' = (m.erase k').erase k := by
  apply ext_get
  intro j
  simp only [get_erase]
  by_cases h₁ : j = k' <;> by_cases h₂ : j = k <;> simp_all

/-- Distinct entries have distinct keys. -/
theorem key_ne_of_ne {m : SortedMap K V} {x y : K × V} (hx : x ∈ m.entries)
    (hy : y ∈ m.entries) (h : x ≠ y) : x.1 ≠ y.1 := by
  intro hk
  have hgx : m.get x.1 = some x.2 := mem_entries.mp hx
  have hgy : m.get y.1 = some y.2 := mem_entries.mp hy
  rw [hk, hgy] at hgx
  exact h (Prod.ext hk (Option.some.inj hgx).symm)

/-- Looking up in a reordering of the entries is looking up in the map. -/
theorem lookup_perm {m : SortedMap K V} {l : List (K × V)} (hl : l.Perm m.entries) (k : K) :
    lookup k l = m.get k := by
  cases hk : m.get k with
  | some v =>
    have hmem : (k, v) ∈ l := hl.symm.subset (mem_entries.mpr hk)
    cases hlk : lookup k l with
    | none => exact absurd rfl (forall_ne_of_lookup_eq_none hlk _ hmem)
    | some v' =>
      have := mem_entries.mp (hl.subset (mem_of_lookup hlk))
      rw [hk] at this
      exact this.symm
  | none =>
    cases hlk : lookup k l with
    | none => rfl
    | some v' =>
      have := mem_entries.mp (hl.subset (mem_of_lookup hlk))
      rw [hk] at this
      cases this

/-! ### Loops of writes -/

/-- A loop that writes `f k` under each key `k` of a list. -/
theorem get_foldl_set (f : K → V) (l : List K) (m : SortedMap K V) (k : K) :
    (l.foldl (fun acc k => acc.set k (f k)) m).get k = if k ∈ l then some (f k) else m.get k := by
  induction l generalizing m with
  | nil => simp
  | cons k' rest ih =>
    rw [List.foldl_cons, ih]
    by_cases hr : k ∈ rest
    · simp [hr]
    · by_cases hk : k = k'
      · simp [hk]
      · simp [hr, hk]

/-- A loop that writes the entries of a list with distinct keys. -/
theorem get_foldl_set_entries {l : List (K × V)} (hnd : (l.map Prod.fst).Nodup)
    (m : SortedMap K V) (k : K) :
    (l.foldl (fun acc e => acc.set e.1 e.2) m).get k = (lookup k l).or (m.get k) := by
  induction l generalizing m with
  | nil => rfl
  | cons e rest ih =>
    obtain ⟨he, hrest⟩ := List.nodup_cons.mp hnd
    rw [List.foldl_cons, ih hrest]
    by_cases hk : k = e.1
    · have hnone : lookup k rest = none := lookup_eq_none_of_not_mem (hk ▸ he)
      rw [hnone]
      simp [lookup, hk]
    · simp [lookup, hk]

/-- Writing all entries of a map into an empty one, in any order, gives the map. -/
theorem foldl_set_entries (m : SortedMap K V) {l : List (K × V)} (hl : l.Perm m.entries) :
    l.foldl (fun acc e => acc.set e.1 e.2) ∅ = m := by
  have hnd : (l.map Prod.fst).Nodup := (hl.map Prod.fst).nodup_iff.mpr m.keys_nodup
  apply ext_get
  intro k
  rw [get_foldl_set_entries hnd, get_empty, Option.or_none, lookup_perm hl]

/-- Writing a value made of each entry into an empty map maps the values. -/
theorem foldl_set_mapVal {W : Type} (m : SortedMap K V) (f : V → W) :
    m.entries.foldl (fun acc e => acc.set e.1 (f e.2)) ∅ = m.mapVal f := by
  have hwrite := foldl_set_entries (m.mapVal f) (List.Perm.refl _)
  rwa [entries_mapVal, List.foldl_map] at hwrite

/-- A loop that rewrites every entry in place, in any order, maps the values. -/
theorem foldl_set_eq_mapVal (m : SortedMap K V) (f : V → V) {l : List (K × V)}
    (hl : l.Perm m.entries) :
    l.foldl (fun acc e => acc.set e.1 (f e.2)) m = m.mapVal f := by
  have hnd : ((l.map (fun e => (e.1, f e.2))).map Prod.fst).Nodup := by
    rw [List.map_map]
    exact (hl.map Prod.fst).nodup_iff.mpr m.keys_nodup
  apply ext_get
  intro k
  have hget := get_foldl_set_entries hnd m k
  rw [List.foldl_map, lookup_mapVal, lookup_perm hl] at hget
  rw [hget, get_mapVal]
  cases m.get k <;> rfl

/-- A loop that erases the keys of a list. -/
theorem get_foldl_erase (l : List K) (m : SortedMap K V) (k : K) :
    (l.foldl erase m).get k = if k ∈ l then none else m.get k := by
  induction l generalizing m with
  | nil => simp
  | cons k' rest ih =>
    rw [List.foldl_cons, ih, get_erase]
    by_cases hr : k ∈ rest
    · simp [hr]
    · simp [hr]

/-- Erasing every key leaves nothing. -/
theorem foldl_erase_keys (m : SortedMap K V) : m.keys.foldl erase m = ∅ := by
  apply ext_get
  intro k
  rw [get_foldl_erase, get_empty]
  split
  · rfl
  · next hk =>
    rw [mem_keys, Option.not_isSome_iff_eq_none] at hk
    exact hk

/-- A loop over the entries that erases some of them. -/
theorem foldl_erase_filter (m : SortedMap K V) (p : V → Bool) :
    m.entries.foldl (fun acc e => if p e.2 then acc.erase e.1 else acc) m =
      m.filter (fun _ v => !p v) := by
  have hloop : m.entries.foldl (fun acc e => if p e.2 then acc.erase e.1 else acc) m =
      ((m.entries.filter (fun e => p e.2)).map Prod.fst).foldl erase m := by
    rw [List.foldl_map, List.foldl_filter]
  rw [hloop]
  apply ext_get
  intro k
  rw [get_foldl_erase, get_filter]
  have hmem : k ∈ (m.entries.filter (fun e => p e.2)).map Prod.fst ↔
      ∃ v, m.get k = some v ∧ p v = true := by
    simp only [List.mem_map, List.mem_filter]
    constructor
    · rintro ⟨e, ⟨he, hp⟩, rfl⟩
      exact ⟨e.2, mem_entries.mp he, hp⟩
    · rintro ⟨v, hget, hp⟩
      exact ⟨(k, v), ⟨mem_entries.mpr hget, hp⟩, rfl⟩
  cases hget : m.get k with
  | none => simp
  | some v => cases hp : p v <;> simp [hmem, hget, hp, Option.filter]

/-! ### Sums over the values -/

theorem sum_insertEntry {M : Type} [AddCommMonoid M] (f : V → M) (k : K) (v : V)
    {l : List (K × V)} (h : l.Pairwise (fun a b => a.1 < b.1)) :
    ((insertEntry k v l).map (fun e => f e.2)).sum + ((lookup k l).map f).getD 0 =
      (l.map (fun e => f e.2)).sum + f v := by
  induction l with
  | nil => simp [insertEntry, lookup]
  | cons x rest ih =>
    obtain ⟨hx, hrest⟩ := List.pairwise_cons.mp h
    unfold insertEntry
    split
    · next hlt =>
      -- a smaller key has no entry in the list
      have hnone : lookup k (x :: rest) = none := by
        apply lookup_eq_none_of_forall_ne
        intro e he
        rcases List.mem_cons.mp he with rfl | he
        · exact hlt.ne'
        · exact (hlt.trans (hx e he)).ne'
      rw [hnone]
      simp [add_comm, add_left_comm]
    · split
      · next heq => simp [lookup, heq, add_comm, add_left_comm]
      · next hne =>
        have hlookup : lookup k (x :: rest) = lookup k rest := if_neg hne
        rw [hlookup, List.map_cons, List.sum_cons, List.map_cons, List.sum_cons, add_assoc,
          ih hrest, add_assoc]

/-- What a `set` does to a sum over the values. -/
theorem sum_set {M : Type} [AddCommMonoid M] (m : SortedMap K V) (f : V → M) (k : K) (v : V) :
    ((m.set k v).entries.map (fun e => f e.2)).sum + ((m.get k).map f).getD 0 =
      (m.entries.map (fun e => f e.2)).sum + f v :=
  sum_insertEntry f k v m.sorted

end SortedMap
