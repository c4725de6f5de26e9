import TerraClassic.Lib.Reorder
import TerraClassic.Lib.SortedMap
import Mathlib.Data.Fin.Basic
import Mathlib.Data.List.Lex
import Mathlib.Data.Set.Function

/-! # Several maps in one store

    A key-value store that holds several maps at once: the keys of each map start
    with a symbol of their own, and the rest of a key encodes the key of the map.

    * `Holds kv first encode wrap m`: under `first` the store holds exactly `m`.
    * `Holds.set`, `Holds.erase`, `Holds.clear`: writes of the family.
    * `Frame`, `Holds.frame`: writes of the others.
    * `Holds.prefixIterator_eq`, `Holds.prefixIterator_ordered`, `Holds.iterate`: what an
      iterator over the family visits, and in which order.
    * `leBytes`: numbers of a fixed width in little-endian order, as keys.
-/

namespace TerraClassic.KeySpace

variable {B V K W : Type} [LinearOrder B] [LinearOrder K]

/-! ### Iterators -/

/-- The entries whose keys start with a symbol, in the order of the keys. -/
def prefixIterator (kv : SortedMap (List B) V) (first : B) : List (List B × V) :=
  kv.entries.filter (fun e => e.1.head? = some first)

/-- Delete what an iterator visits. -/
def clear (kv : SortedMap (List B) V) (first : B) : SortedMap (List B) V :=
  (prefixIterator kv first).foldl (fun kv e => kv.erase e.1) kv

/-- One round of an iterator: the key without its first symbol, and the value. -/
def readEntry (unwrap : V → Option W) (e : List B × V) : Option (List B × W) :=
  (unwrap e.2).map (fun w => (e.1.tail, w))

/-- An iterator that reads every entry under a symbol. -/
def iterate (unwrap : V → Option W) (kv : SortedMap (List B) V) (first : B) :
    Option (List (List B × W)) :=
  (prefixIterator kv first).mapM (readEntry unwrap)

theorem mapM_eq_filterMap {α γ : Type} {f : α → Option γ} {l : List α}
    (h : ∀ x ∈ l, (f x).isSome) : l.mapM f = some (l.filterMap f) := by
  induction l with
  | nil => rfl
  | cons x rest ih =>
    obtain ⟨y, hy⟩ := Option.isSome_iff_exists.mp (h x List.mem_cons_self)
    rw [List.mapM_cons, hy, ih (fun z hz => h z (List.mem_cons_of_mem x hz)),
      List.filterMap_cons_some hy]
    rfl

theorem mem_prefixIterator {kv : SortedMap (List B) V} {first : B} {e : List B × V} :
    e ∈ prefixIterator kv first ↔ ∃ rest, e.1 = first :: rest ∧ kv.get e.1 = some e.2 := by
  unfold prefixIterator
  rw [List.mem_filter, decide_eq_true_eq]
  constructor
  · rintro ⟨hmem, hhead⟩
    obtain ⟨rest, hrest⟩ := List.head?_eq_some_iff.mp hhead
    exact ⟨rest, hrest, SortedMap.mem_entries.mp hmem⟩
  · rintro ⟨rest, hrest, hget⟩
    exact ⟨SortedMap.mem_entries.mpr hget, by rw [hrest]; rfl⟩

theorem get_clear (kv : SortedMap (List B) V) (first : B) (key : List B) :
    (clear kv first).get key = if key.head? = some first then none else kv.get key := by
  unfold clear
  rw [← List.foldl_map (f := Prod.fst) (g := SortedMap.erase), SortedMap.get_foldl_erase]
  by_cases hhead : key.head? = some first
  · rw [if_pos hhead]
    split
    · rfl
    · next hmem =>
      -- a key of the family that the iterator does not visit is not in the store
      cases hget : kv.get key with
      | none => rfl
      | some v =>
        obtain ⟨rest, hrest⟩ := List.head?_eq_some_iff.mp hhead
        exact absurd (List.mem_map.mpr ⟨(key, v), mem_prefixIterator.mpr ⟨rest, hrest, hget⟩, rfl⟩)
          hmem
  · rw [if_neg hhead, if_neg]
    intro hmem
    obtain ⟨e, he, rfl⟩ := List.mem_map.mp hmem
    obtain ⟨rest, hrest, _⟩ := mem_prefixIterator.mp he
    exact hhead (by rw [hrest]; rfl)

/-! ### Frames -/

/-- Two stores that differ under one symbol only. -/
def Frame (first : B) (kv kv' : SortedMap (List B) V) : Prop :=
  ∀ key : List B, key.head? ≠ some first → kv'.get key = kv.get key

theorem frame_set (kv : SortedMap (List B) V) (first : B) (rest : List B) (v : V) :
    Frame first kv (kv.set (first :: rest) v) := by
  intro key hkey
  apply SortedMap.get_set_ne
  rintro rfl
  exact hkey rfl

theorem frame_erase (kv : SortedMap (List B) V) (first : B) (rest : List B) :
    Frame first kv (kv.erase (first :: rest)) := by
  intro key hkey
  apply SortedMap.get_erase_ne
  rintro rfl
  exact hkey rfl

theorem frame_clear (kv : SortedMap (List B) V) (first : B) : Frame first kv (clear kv first) := by
  intro key hkey
  rw [get_clear, if_neg hkey]

/-- A write under the first symbol of one family, where each family `f` of the store stands
    for one part of a state (`R f`): the other parts stay. -/
theorem forall_family_of_frame {F σ : Type} {first : F → B} (hfirst : Function.Injective first)
    (R : F → SortedMap (List B) V → σ → Prop)
    (hother : ∀ f symbol kv kv' s, first f ≠ symbol → Frame symbol kv kv' → R f kv s → R f kv' s)
    {kv kv' : SortedMap (List B) V} {s s' : σ} (h : ∀ f, R f kv s) (w : F)
    (hframe : Frame (first w) kv kv') (hsame : ∀ f, f ≠ w → R f kv' s → R f kv' s')
    (hw : R w kv' s') (f : F) : R f kv' s' := by
  by_cases hf : f = w
  · exact hf ▸ hw
  · exact hsame f hf (hother f _ _ _ _ (fun heq => hf (hfirst heq)) hframe (h f))

/-! ### Families of keys -/

/-- Under `first` the store holds the map `m` and nothing else: its keys are the
    encoded keys of the map, which are of `D`. -/
structure Holds (kv : SortedMap (List B) V) (first : B) (D : Set K) (encode : K → List B)
    (wrap : W → V) (m : SortedMap K W) : Prop where
  get_iff : ∀ rest v, kv.get (first :: rest) = some v ↔
    ∃ k w, rest = encode k ∧ m.get k = some w ∧ v = wrap w
  domain : ∀ k w, m.get k = some w → k ∈ D

namespace Holds

variable {kv : SortedMap (List B) V} {first : B} {D : Set K} {encode : K → List B} {wrap : W → V}
  {m : SortedMap K W}

theorem empty : Holds (∅ : SortedMap (List B) V) first D encode wrap ∅ := by
  refine ⟨?_, fun _ _ h => by cases h⟩
  intro rest v
  constructor
  · intro h
    cases h
  · rintro ⟨_, _, _, h, _⟩
    cases h

/-- A lookup under an encoded key is a lookup in the map. -/
theorem get (h : Holds kv first D encode wrap m) (hinj : Set.InjOn encode D) {k : K}
    (hk : k ∈ D) : kv.get (first :: encode k) = (m.get k).map wrap := by
  cases hm : m.get k with
  | some w => exact (h.get_iff _ _).mpr ⟨k, w, rfl, hm, rfl⟩
  | none =>
    cases hget : kv.get (first :: encode k) with
    | none => rfl
    | some v =>
      obtain ⟨k', w, hencode, hm', _⟩ := (h.get_iff _ _).mp hget
      rw [hinj hk (h.domain k' w hm') hencode, hm'] at hm
      cases hm

/-- A store that agrees under `first`. -/
theorem congr {kv' : SortedMap (List B) V} (h : Holds kv first D encode wrap m)
    (hkv : ∀ rest, kv'.get (first :: rest) = kv.get (first :: rest)) :
    Holds kv' first D encode wrap m :=
  ⟨fun rest v => by rw [hkv]; exact h.get_iff rest v, h.domain⟩

/-- A write under another symbol. -/
theorem frame {kv' : SortedMap (List B) V} {other : B} (h : Holds kv first D encode wrap m)
    (hframe : Frame other kv kv') (hother : first ≠ other) :
    Holds kv' first D encode wrap m := by
  refine h.congr (fun rest => hframe _ ?_)
  intro heq
  exact hother (Option.some.inj heq)

theorem set (h : Holds kv first D encode wrap m) (hinj : Set.InjOn encode D) {k : K}
    (hk : k ∈ D) (w : W) :
    Holds (kv.set (first :: encode k) (wrap w)) first D encode wrap (m.set k w) := by
  constructor
  · intro rest v
    by_cases hrest : rest = encode k
    · subst hrest
      rw [SortedMap.get_set_self]
      constructor
      · intro hv
        exact ⟨k, w, rfl, SortedMap.get_set_self m k w, (Option.some.inj hv).symm⟩
      · rintro ⟨k', w', hencode, hm, rfl⟩
        rw [SortedMap.get_set] at hm
        split at hm
        · cases hm
          rfl
        · next hne => exact absurd (hinj hk (h.domain k' w' hm) hencode).symm hne
    · have hne : first :: rest ≠ first :: encode k := fun heq => hrest (List.cons.inj heq).2
      rw [SortedMap.get_set_ne kv _ hne, h.get_iff]
      -- no other encoded key is touched
      have hkeys : ∀ k' w', rest = encode k' →
          ((m.set k w).get k' = some w' ↔ m.get k' = some w') := by
        intro k' w' hencode
        rw [SortedMap.get_set_ne m w]
        rintro rfl
        exact hrest hencode
      constructor
      · rintro ⟨k', w', hencode, hm, hv⟩
        exact ⟨k', w', hencode, (hkeys k' w' hencode).mpr hm, hv⟩
      · rintro ⟨k', w', hencode, hm, hv⟩
        exact ⟨k', w', hencode, (hkeys k' w' hencode).mp hm, hv⟩
  · intro k' w' hm
    rw [SortedMap.get_set] at hm
    split at hm
    · next heq => exact heq ▸ hk
    · exact h.domain k' w' hm

theorem erase (h : Holds kv first D encode wrap m) (hinj : Set.InjOn encode D) {k : K}
    (hk : k ∈ D) : Holds (kv.erase (first :: encode k)) first D encode wrap (m.erase k) := by
  constructor
  · intro rest v
    rw [SortedMap.get_erase]
    by_cases hrest : rest = encode k
    · subst hrest
      rw [if_pos rfl]
      constructor
      · intro hv
        cases hv
      · rintro ⟨k', w', hencode, hm, _⟩
        rw [SortedMap.get_erase] at hm
        split at hm
        · cases hm
        · next hne => exact absurd (hinj hk (h.domain k' w' hm) hencode).symm hne
    · rw [if_neg (fun heq => hrest (List.cons.inj heq).2), h.get_iff]
      have hkeys : ∀ k' w', rest = encode k' →
          ((m.erase k).get k' = some w' ↔ m.get k' = some w') := by
        intro k' w' hencode
        rw [SortedMap.get_erase_ne m]
        rintro rfl
        exact hrest hencode
      constructor
      · rintro ⟨k', w', hencode, hm, hv⟩
        exact ⟨k', w', hencode, (hkeys k' w' hencode).mpr hm, hv⟩
      · rintro ⟨k', w', hencode, hm, hv⟩
        exact ⟨k', w', hencode, (hkeys k' w' hencode).mp hm, hv⟩
  · intro k' w' hm
    rw [SortedMap.get_erase] at hm
    split at hm
    · cases hm
    · exact h.domain k' w' hm

/-- After a family is cleared it holds nothing, whatever was in it. -/
theorem clear (kv : SortedMap (List B) V) :
    Holds (KeySpace.clear kv first) first D encode wrap (∅ : SortedMap K W) := by
  refine ⟨?_, fun _ _ h => by cases h⟩
  intro rest v
  rw [get_clear, if_pos (show (first :: rest).head? = some first from rfl)]
  constructor
  · intro h
    cases h
  · rintro ⟨_, _, _, h, _⟩
    cases h

/-- An iterator visits the encoded entries of the map. -/
theorem mem_prefixIterator_iff (h : Holds kv first D encode wrap m) {e : List B × V} :
    e ∈ prefixIterator kv first ↔
      ∃ k w, m.get k = some w ∧ e = (first :: encode k, wrap w) := by
  rw [mem_prefixIterator]
  constructor
  · rintro ⟨rest, hrest, hget⟩
    rw [hrest] at hget
    obtain ⟨k, w, rfl, hm, hw⟩ := (h.get_iff _ _).mp hget
    exact ⟨k, w, hm, Prod.ext hrest hw⟩
  · rintro ⟨k, w, hm, rfl⟩
    exact ⟨encode k, rfl, (h.get_iff _ _).mpr ⟨k, w, rfl, hm, rfl⟩⟩

/-- It visits each entry once, in the order of the encoded keys. -/
theorem prefixIterator_eq (h : Holds kv first D encode wrap m) (hinj : Set.InjOn encode D) :
    ∃ l : List (K × W), l.Perm m.entries ∧ l.Pairwise (fun e e' => encode e.1 < encode e'.1) ∧
      prefixIterator kv first = l.map (fun e => (first :: encode e.1, wrap e.2)) := by
  have hnodup : (m.entries.map (fun e => (first :: encode e.1, wrap e.2))).Nodup := by
    refine List.Nodup.map_on ?_ m.entries_nodup
    intro e he e' he' heq
    have hkey : encode e.1 = encode e'.1 := (List.cons.inj (Prod.mk.inj heq).1).2
    have hget := SortedMap.mem_entries.mp (show (e.1, e.2) ∈ m.entries from he)
    have hget' := SortedMap.mem_entries.mp (show (e'.1, e'.2) ∈ m.entries from he')
    have hsame := hinj (h.domain _ _ hget) (h.domain _ _ hget') hkey
    rw [hsame, hget'] at hget
    exact Prod.ext hsame (Option.some.inj hget).symm
  have hperm : (prefixIterator kv first).Perm
      (m.entries.map (fun e => (first :: encode e.1, wrap e.2))) := by
    have hvisits : (prefixIterator kv first).Nodup := kv.entries_nodup.filter _
    rw [List.perm_ext_iff_of_nodup hvisits hnodup]
    intro e
    rw [h.mem_prefixIterator_iff, List.mem_map]
    constructor
    · rintro ⟨k, w, hm, rfl⟩
      exact ⟨(k, w), SortedMap.mem_entries.mpr hm, rfl⟩
    · rintro ⟨e', he', rfl⟩
      exact ⟨e'.1, e'.2, SortedMap.mem_entries.mp he', rfl⟩
  obtain ⟨l, hl, heq⟩ := Reorder.exists_map_of_perm hperm
  have hsorted : (prefixIterator kv first).Pairwise (fun e e' => e.1 < e'.1) :=
    kv.sorted.sublist List.filter_sublist
  rw [heq, List.pairwise_map] at hsorted
  exact ⟨l, hl, hsorted.imp (fun hlt => List.cons_lt_cons_self.mp hlt), heq⟩

/-- Where the encoding keeps the order of the keys, it visits them in this order. -/
theorem prefixIterator_ordered (h : Holds kv first D encode wrap m) (hinj : Set.InjOn encode D)
    (hmono : ∀ k k', (m.get k).isSome → (m.get k').isSome → k < k' → encode k < encode k') :
    prefixIterator kv first = m.entries.map (fun e => (first :: encode e.1, wrap e.2)) := by
  obtain ⟨l, hl, hsorted, heq⟩ := h.prefixIterator_eq hinj
  have hkeys : l.Pairwise (fun e e' => e.1 < e'.1) := by
    refine hsorted.imp_of_mem ?_
    intro e e' he he' hlt
    have hsome : ∀ e ∈ l, (m.get e.1).isSome := by
      intro e he
      rw [SortedMap.mem_entries.mp (show (e.1, e.2) ∈ m.entries from hl.mem_iff.mp he)]
      rfl
    rcases lt_trichotomy e.1 e'.1 with h' | h' | h'
    · exact h'
    · rw [h'] at hlt
      exact absurd hlt (lt_irrefl _)
    · exact absurd (hlt.trans (hmono _ _ (hsome e' he') (hsome e he) h')) (lt_irrefl _)
  have hentries : l = m.entries :=
    List.Perm.eq_of_pairwise (fun _ _ _ _ hlt hgt => absurd (hlt.trans hgt) (lt_irrefl _))
      hkeys m.sorted hl
  rw [heq, hentries]

/-- An iterator returns every entry of the map once, in the order of the encoded keys. -/
theorem iterate (h : Holds kv first D encode wrap m) {unwrap : V → Option W}
    (hunwrap : ∀ w, unwrap (wrap w) = some w) :
    ∃ l, KeySpace.iterate unwrap kv first = some l ∧
      (∀ bz w, (bz, w) ∈ l ↔ ∃ k, bz = encode k ∧ m.get k = some w) ∧
      l.Pairwise (fun e e' => e.1 < e'.1) := by
  refine ⟨_, mapM_eq_filterMap ?_, ?_, ?_⟩
  · intro e he
    obtain ⟨k, w, _, rfl⟩ := h.mem_prefixIterator_iff.mp he
    simp [readEntry, hunwrap]
  · intro bz w
    rw [List.mem_filterMap]
    constructor
    · rintro ⟨e, he, hread⟩
      obtain ⟨k, w', hm, rfl⟩ := h.mem_prefixIterator_iff.mp he
      simp only [readEntry, hunwrap, Option.map_some, List.tail_cons, Option.some.injEq,
        Prod.mk.injEq] at hread
      exact ⟨k, hread.1.symm, hread.2 ▸ hm⟩
    · rintro ⟨k, rfl, hm⟩
      refine ⟨(first :: encode k, wrap w), h.mem_prefixIterator_iff.mpr ⟨k, w, hm, rfl⟩, ?_⟩
      simp [readEntry, hunwrap]
  · -- the keys increase in the store, and all start with the same symbol
    have hsorted : (prefixIterator kv first).Pairwise (fun e e' => e.1 < e'.1) :=
      kv.sorted.sublist List.filter_sublist
    refine List.Pairwise.filterMap _ ?_ (hsorted.imp_of_mem (R := fun e e' => e.1 < e'.1)
      (S := fun e e' => e.1.tail < e'.1.tail) ?_)
    · intro e e' hlt b hb b' hb'
      obtain ⟨_, _, rfl⟩ := Option.map_eq_some_iff.mp hb
      obtain ⟨_, _, rfl⟩ := Option.map_eq_some_iff.mp hb'
      exact hlt
    · intro e e' he he' hlt
      obtain ⟨k, w, _, rfl⟩ := h.mem_prefixIterator_iff.mp he
      obtain ⟨k', w', _, rfl⟩ := h.mem_prefixIterator_iff.mp he'
      exact List.cons_lt_cons_self.mp hlt

end Holds

/-! ### Numbers of a fixed width -/

/-- The lowest `width` bytes of a number, least first. -/
def leBytes : ℕ → ℕ → List (Fin 256)
  | 0, _ => []
  | width + 1, n => Fin.ofNat 256 n :: leBytes width (n / 256)

/-- The number that bytes stand for, least first. -/
def leNat : List (Fin 256) → ℕ
  | [] => 0
  | b :: rest => b.val + 256 * leNat rest

theorem leNat_leBytes (width n : ℕ) : leNat (leBytes width n) = n % 256 ^ width := by
  induction width generalizing n with
  | zero => simp [leBytes, leNat, Nat.mod_one]
  | succ width ih =>
    show n % 256 + 256 * leNat (leBytes width (n / 256)) = _
    rw [ih, Nat.pow_succ, Nat.mul_comm (256 ^ width), Nat.mod_mul]

theorem leBytes_injective {width n n' : ℕ} (hn : n < 256 ^ width) (hn' : n' < 256 ^ width)
    (h : leBytes width n = leBytes width n') : n = n' := by
  have hnat := congrArg leNat h
  rwa [leNat_leBytes, leNat_leBytes, Nat.mod_eq_of_lt hn, Nat.mod_eq_of_lt hn'] at hnat

end TerraClassic.KeySpace
