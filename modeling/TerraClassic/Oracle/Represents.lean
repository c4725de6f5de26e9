import TerraClassic.Lib.KeySpace
import TerraClassic.Oracle.Genesis
import TerraClassic.Oracle.RawKeeper

/-! # What the oracle's key-value store stands for

    The six families of keys of `RawKeeper` hold the six maps of the record `Store` that the
    other results about the oracle speak of, each under its first byte (`Represents`).

    * `bytesOf_lt`: the records keep addresses in the order of their keys.
    * `Represents.write`: a write under one first byte only has to be checked for its own
      family.
    * `getMissCounter_eq` and its like: each getter answers from the record.
    * `iterate_denoms`, `iterate_addresses`: what an iterator returns, in terms of the map.
-/

namespace TerraClassic.Oracle.Raw

open KeySpace (Holds Frame frame_set frame_erase frame_clear)

/-! ### Encodings -/

theorem denomOf_utf8 (d : Denom) : denomOf (utf8 d) = d := by
  have hbytes : (⟨((utf8 d).map (fun b => UInt8.ofNat b.val)).toArray⟩ : ByteArray) = d.toUTF8 := by
    unfold utf8
    rw [List.map_map]
    apply ByteArray.ext
    apply Array.toList_inj.mp
    simp [Function.comp_def]
  unfold denomOf
  rw [hbytes]
  unfold String.fromUTF8?
  rw [dif_pos (show d.toUTF8.IsValidUTF8 from d.isValidUTF8)]
  rfl

theorem toNat_byteChar (b : Byte) : (byteChar b).toNat = b.val := by
  have hvalid : b.val.isValidChar := Or.inl (by omega)
  unfold byteChar Char.ofNat
  rw [dif_pos hvalid]
  rfl

theorem bytesOf_addressOf (bz : Bytes) :
    bytesOf (addressOf bz) = Fin.ofNat 256 bz.length :: bz := by
  have hbyte : ∀ b : Byte, Fin.ofNat 256 (byteChar b).toNat = b := by
    intro b
    rw [toNat_byteChar]
    exact Fin.ofNat_val_eq_self b
  unfold bytesOf addressOf
  rw [String.toList_ofList, List.map_map]
  exact (List.map_congr_left (fun b _ => hbyte b)).trans (List.map_id _)

@[simp] theorem addressBytes_addressOf (bz : Bytes) : addressBytes (addressOf bz) = bz := by
  unfold addressBytes
  rw [bytesOf_addressOf, List.tail_cons]

/-- The addresses that the records can name. -/
def addresses : Set String := {v | ∃ bz, IsAddress bz ∧ addressOf bz = v}

theorem addressOf_mem {bz : Bytes} (h : IsAddress bz) : addressOf bz ∈ addresses := ⟨bz, h, rfl⟩

theorem addressOf_addressBytes {v : ValAddr} (hv : v ∈ addresses) :
    addressOf (addressBytes v) = v := by
  obtain ⟨bz, _, rfl⟩ := hv
  rw [addressBytes_addressOf]

theorem addressOf_injective : Function.Injective addressOf := by
  intro a b h
  rw [← addressBytes_addressOf a, h, addressBytes_addressOf]

theorem bytesOf_injOn : Set.InjOn bytesOf addresses := by
  rintro _ ⟨a, _, rfl⟩ _ ⟨b, _, rfl⟩ h
  rw [bytesOf_addressOf, bytesOf_addressOf] at h
  rw [(List.cons.inj h).2]

/-- The strings of addresses come in the order of the keys. -/
theorem bytesOf_lt {v w : ValAddr} (hv : v ∈ addresses) (hw : w ∈ addresses) (h : v < w) :
    bytesOf v < bytesOf w := by
  have hmono : ∀ a b : Bytes, bytesOf (addressOf a) < bytesOf (addressOf b) →
      addressOf a < addressOf b := by
    intro a b hlt
    rw [bytesOf_addressOf, bytesOf_addressOf] at hlt
    -- keys compare byte by byte, strings character by character
    rw [String.lt_iff_toList_lt]
    unfold addressOf
    rw [String.toList_ofList, String.toList_ofList]
    refine List.map_lt ?_ hlt
    intro b c hbc
    show (byteChar b).toNat < (byteChar c).toNat
    rw [toNat_byteChar, toNat_byteChar]
    exact hbc
  obtain ⟨a, _, rfl⟩ := hv
  obtain ⟨b, _, rfl⟩ := hw
  -- both orders are total, so a map that keeps one of them reflects the other
  rcases lt_trichotomy (bytesOf (addressOf a)) (bytesOf (addressOf b)) with hlt | heq | hgt
  · exact hlt
  · rw [bytesOf_addressOf, bytesOf_addressOf] at heq
    rw [(List.cons.inj heq).2] at h
    exact absurd h (lt_irrefl _)
  · exact absurd (h.trans (hmono b a hgt)) (lt_irrefl _)

/-- The key of an address in a family. -/
theorem addressKey_eq (first : Byte) (bz : Bytes) :
    addressKey first bz = first :: bytesOf (addressOf bz) := by
  rw [bytesOf_addressOf]
  rfl

/-! ### The relation -/

/-- A prevote as the store keeps it. -/
def storedPrevote (codec : ByteCodec) (p : Oracle.AggregateExchangeRatePrevote) :
    AggregateExchangeRatePrevote :=
  ⟨p.hash, codec.valAddressString (addressBytes p.voter), p.submitBlock⟩

/-- A vote as the store keeps it. -/
def storedVote (codec : ByteCodec) (v : Oracle.AggregateExchangeRateVote) :
    AggregateExchangeRateVote :=
  ⟨v.exchangeRateTuples, codec.valAddressString (addressBytes v.voter)⟩

/-- The families of keys. -/
inductive Family where
  | exchangeRate
  | feederDelegation
  | missCounter
  | prevote
  | vote
  | tobinTax
  deriving DecidableEq

/-- The first byte of a family. -/
def Family.first : Family → Byte
  | .exchangeRate => 0x01
  | .feederDelegation => 0x02
  | .missCounter => 0x03
  | .prevote => 0x04
  | .vote => 0x05
  | .tobinTax => 0x06

theorem Family.first_injective : Function.Injective Family.first := by
  intro f g h
  cases f <;> cases g <;> first | rfl | exact absurd h (by decide)

/-- What the store holds under a family is what the record has. -/
def Family.Represents (codec : ByteCodec) (kv : KVStore) (st : Store) : Family → Prop
  | .exchangeRate => Holds kv 0x01 Set.univ utf8 .dec st.exchangeRates
  | .feederDelegation =>
    Holds kv 0x02 addresses bytesOf (fun a => .address (addressBytes a)) st.feederDelegations ∧
      ∀ v a, st.feederDelegations.get v = some a → a ∈ addresses
  | .missCounter => Holds kv 0x03 addresses bytesOf .uint64 st.missCounters
  | .prevote =>
    Holds kv 0x04 addresses bytesOf (fun p => .prevote (storedPrevote codec p)) st.prevotes
  | .vote => Holds kv 0x05 addresses bytesOf (fun v => .vote (storedVote codec v)) st.votes
  | .tobinTax => Holds kv 0x06 Set.univ utf8 .dec st.tobinTaxes

/-- The store holds the record. -/
def Represents (codec : ByteCodec) (kv : KVStore) (st : Store) : Prop :=
  ∀ f : Family, f.Represents codec kv st

section Relation

variable {codec : ByteCodec} {kv kv' : KVStore} {st st' : Store}

/-- A write under another first byte. -/
theorem Family.Represents.frame {f : Family} {first : Byte} (h : f.Represents codec kv st)
    (hne : f.first ≠ first) (hframe : Frame first kv kv') : f.Represents codec kv' st := by
  cases f with
  | exchangeRate => exact Holds.frame h hframe hne
  | feederDelegation => exact ⟨Holds.frame h.1 hframe hne, h.2⟩
  | missCounter => exact Holds.frame h hframe hne
  | prevote => exact Holds.frame h hframe hne
  | vote => exact Holds.frame h hframe hne
  | tobinTax => exact Holds.frame h hframe hne

/-- A write under one first byte, matched by an update of the record that leaves the other
    maps alone. -/
theorem Represents.write (h : Represents codec kv st) (w : Family)
    (hframe : Frame w.first kv kv')
    (hsame : ∀ f : Family, f ≠ w → f.Represents codec kv' st → f.Represents codec kv' st')
    (hw : w.Represents codec kv' st') : Represents codec kv' st' := by
  refine KeySpace.forall_family_of_frame Family.first_injective
    (fun f kv st => f.Represents codec kv st) ?_ h w hframe hsame hw
  intro f symbol kv kv' st hne hframe hf
  exact hf.frame hne hframe

theorem represents_empty (codec : ByteCodec) :
    Represents codec ∅ ⟨∅, ∅, ∅, ∅, ∅, ∅⟩ := by
  intro f
  cases f with
  | exchangeRate => exact Holds.empty
  | feederDelegation => exact ⟨Holds.empty, fun _ _ hget => by cases hget⟩
  | missCounter => exact Holds.empty
  | prevote => exact Holds.empty
  | vote => exact Holds.empty
  | tobinTax => exact Holds.empty

/-! ### Getters -/

/-- A read of one entry of a family. -/
theorem fetch_eq {K W V : Type} [LinearOrder K] {first : Byte} {D : Set K} {encode : K → Bytes}
    {wrap : W → Value} {unmarshal : Value → Option V} {form : W → V} {m : SortedMap K W}
    (h : Holds kv first D encode wrap m) (hinj : Set.InjOn encode D)
    (hunmarshal : ∀ w, unmarshal (wrap w) = some (form w)) {k : K} (hk : k ∈ D) :
    fetch kv (first :: encode k) unmarshal = some ((m.get k).map form) := by
  unfold fetch
  rw [h.get hinj hk]
  cases m.get k with
  | none => rfl
  | some w =>
    show (unmarshal (wrap w)).map some = _
    rw [hunmarshal]
    rfl

/-- The same where the values are kept as they are. -/
theorem fetch_get {K W : Type} [LinearOrder K] {first : Byte} {D : Set K} {encode : K → Bytes}
    {wrap : W → Value} {unmarshal : Value → Option W} {m : SortedMap K W}
    (h : Holds kv first D encode wrap m) (hinj : Set.InjOn encode D)
    (hunmarshal : ∀ w, unmarshal (wrap w) = some w) {k : K} (hk : k ∈ D) :
    fetch kv (first :: encode k) unmarshal = some (m.get k) := by
  have hfetch := fetch_eq h hinj (fun w => (hunmarshal w).trans (congrArg some (id_eq w).symm)) hk
  rwa [Option.map_id] at hfetch

theorem getLunaExchangeRate_eq (h : Represents codec kv st) (denom : Denom) :
    getLunaExchangeRate kv denom =
      some (if denom = microLunaDenom then some Dec.one else st.exchangeRates.get denom) := by
  unfold getLunaExchangeRate
  split
  · rfl
  · exact fetch_get (h .exchangeRate) utf8_injective.injOn (fun _ => rfl) (Set.mem_univ denom)

theorem getTobinTax_eq (h : Represents codec kv st) (denom : Denom) :
    getTobinTax kv denom = some (st.tobinTaxes.get denom) :=
  fetch_get (h .tobinTax) utf8_injective.injOn (fun _ => rfl) (Set.mem_univ denom)

theorem isVoteTarget_eq (h : Represents codec kv st) (denom : Denom) :
    isVoteTarget kv denom = some (st.tobinTaxes.get denom).isSome := by
  unfold isVoteTarget
  rw [getTobinTax_eq h]
  rfl

variable {bz : Bytes}

theorem getFeederDelegation_eq (h : Represents codec kv st) (hbz : IsAddress bz) :
    getFeederDelegation kv bz =
      some (addressBytes (Oracle.getFeederDelegation st (addressOf bz))) := by
  have hfetch : fetch kv (0x02 :: bytesOf (addressOf bz)) Value.asAddress =
      some ((st.feederDelegations.get (addressOf bz)).map addressBytes) := by
    refine fetch_eq (h .feederDelegation).1 bytesOf_injOn ?_ (addressOf_mem hbz)
    intro a
    rfl
  unfold getFeederDelegation getFeederDelegationKey
  rw [mustLengthPrefix_of_isAddress hbz, ← bytesOf_addressOf]
  refine Option.bind_eq_some_iff.mpr ⟨_, rfl, Option.bind_eq_some_iff.mpr ⟨_, hfetch, ?_⟩⟩
  unfold Oracle.getFeederDelegation SortedMap.getD
  cases st.feederDelegations.get (addressOf bz) with
  | none => exact congrArg some (addressBytes_addressOf bz).symm
  | some a => rfl

theorem getMissCounter_eq (h : Represents codec kv st) (hbz : IsAddress bz) :
    getMissCounter kv bz = some (Oracle.getMissCounter st.missCounters (addressOf bz)) := by
  have hfetch : fetch kv (0x03 :: bytesOf (addressOf bz)) Value.asUint64 =
      some (st.missCounters.get (addressOf bz)) :=
    fetch_get (h .missCounter) bytesOf_injOn (fun _ => rfl) (addressOf_mem hbz)
  unfold getMissCounter getMissCounterKey
  rw [mustLengthPrefix_of_isAddress hbz, ← bytesOf_addressOf]
  exact Option.bind_eq_some_iff.mpr ⟨_, rfl, Option.bind_eq_some_iff.mpr ⟨_, hfetch, rfl⟩⟩

theorem getPrevote_eq (h : Represents codec kv st) (hbz : IsAddress bz) :
    getAggregateExchangeRatePrevote kv bz =
      some ((st.prevotes.get (addressOf bz)).map (storedPrevote codec)) := by
  have hfetch : fetch kv (0x04 :: bytesOf (addressOf bz)) Value.asPrevote =
      some ((st.prevotes.get (addressOf bz)).map (storedPrevote codec)) := by
    refine fetch_eq (h .prevote) bytesOf_injOn ?_ (addressOf_mem hbz)
    intro p
    rfl
  unfold getAggregateExchangeRatePrevote getAggregateExchangeRatePrevoteKey
  rw [mustLengthPrefix_of_isAddress hbz, ← bytesOf_addressOf]
  exact hfetch

theorem getVote_eq (h : Represents codec kv st) (hbz : IsAddress bz) :
    getAggregateExchangeRateVote kv bz =
      some ((st.votes.get (addressOf bz)).map (storedVote codec)) := by
  have hfetch : fetch kv (0x05 :: bytesOf (addressOf bz)) Value.asVote =
      some ((st.votes.get (addressOf bz)).map (storedVote codec)) := by
    refine fetch_eq (h .vote) bytesOf_injOn ?_ (addressOf_mem hbz)
    intro v
    rfl
  unfold getAggregateExchangeRateVote getAggregateExchangeRateVoteKey
  rw [mustLengthPrefix_of_isAddress hbz, ← bytesOf_addressOf]
  exact hfetch

/-! ### Writes -/

theorem represents_setLunaExchangeRate (h : Represents codec kv st) (denom : Denom) (rate : Dec) :
    Represents codec (setLunaExchangeRate kv (utf8 denom) rate)
      { st with exchangeRates := st.exchangeRates.set denom rate } := by
  have hholds : Holds kv 0x01 Set.univ utf8 Value.dec st.exchangeRates := h .exchangeRate
  refine h.write .exchangeRate (frame_set kv 0x01 _ _) ?_
    (hholds.set utf8_injective.injOn (Set.mem_univ denom) rate)
  intro f hf
  cases f <;> first | exact id | exact absurd rfl hf

theorem represents_setTobinTax (h : Represents codec kv st) (denom : Denom) (tobinTax : Dec) :
    Represents codec (setTobinTax kv (utf8 denom) tobinTax)
      { st with tobinTaxes := st.tobinTaxes.set denom tobinTax } := by
  have hholds : Holds kv 0x06 Set.univ utf8 Value.dec st.tobinTaxes := h .tobinTax
  refine h.write .tobinTax (frame_set kv 0x06 _ _) ?_
    (hholds.set utf8_injective.injOn (Set.mem_univ denom) tobinTax)
  intro f hf
  cases f <;> first | exact id | exact absurd rfl hf

theorem represents_clearExchangeRates (h : Represents codec kv st) :
    Represents codec (KeySpace.clear kv 0x01) { st with exchangeRates := ∅ } := by
  refine h.write .exchangeRate (frame_clear kv 0x01) ?_ (Holds.clear kv)
  intro f hf
  cases f <;> first | exact id | exact absurd rfl hf

theorem represents_clearTobinTaxes (h : Represents codec kv st) :
    Represents codec (clearTobinTaxes kv) { st with tobinTaxes := ∅ } := by
  refine h.write .tobinTax (frame_clear kv 0x06) ?_ (Holds.clear kv)
  intro f hf
  cases f <;> first | exact id | exact absurd rfl hf

theorem setFeederDelegation_refines (h : Represents codec kv st) (hbz : IsAddress bz)
    {feeder : Bytes} (hfeeder : IsAddress feeder) :
    ∃ kv', setFeederDelegation kv bz feeder = some kv' ∧ Represents codec kv' { st with
      feederDelegations := st.feederDelegations.set (addressOf bz) (addressOf feeder) } := by
  refine ⟨_, setFeederDelegation_of_isAddress hbz feeder, ?_⟩
  rw [addressKey_eq]
  refine h.write .feederDelegation (frame_set kv 0x02 _ _) ?_ ⟨?_, ?_⟩
  · intro f hf
    cases f <;> first | exact id | exact absurd rfl hf
  · have hset := (h .feederDelegation).1.set bytesOf_injOn (addressOf_mem hbz) (addressOf feeder)
    rwa [addressBytes_addressOf] at hset
  · intro v a hget
    rw [SortedMap.get_set] at hget
    split at hget
    · cases hget
      exact addressOf_mem hfeeder
    · exact (h .feederDelegation).2 v a hget

theorem setMissCounter_refines (h : Represents codec kv st) (hbz : IsAddress bz) (n : UInt64) :
    ∃ kv', setMissCounter kv bz n = some kv' ∧ Represents codec kv' { st with
      missCounters := st.missCounters.set (addressOf bz) n } := by
  have hholds : Holds kv 0x03 addresses bytesOf Value.uint64 st.missCounters := h .missCounter
  refine ⟨_, setMissCounter_of_isAddress hbz n, ?_⟩
  rw [addressKey_eq]
  refine h.write .missCounter (frame_set kv 0x03 _ _) ?_
    (hholds.set bytesOf_injOn (addressOf_mem hbz) n)
  intro f hf
  cases f <;> first | exact id | exact absurd rfl hf

theorem deleteMissCounter_refines (h : Represents codec kv st) (hbz : IsAddress bz) :
    ∃ kv', deleteMissCounter kv bz = some kv' ∧ Represents codec kv' { st with
      missCounters := st.missCounters.erase (addressOf bz) } := by
  have hholds : Holds kv 0x03 addresses bytesOf Value.uint64 st.missCounters := h .missCounter
  refine ⟨kv.erase (0x03 :: bytesOf (addressOf bz)), ?_, ?_⟩
  · unfold deleteMissCounter getMissCounterKey
    rw [mustLengthPrefix_of_isAddress hbz, bytesOf_addressOf]
    rfl
  · refine h.write .missCounter (frame_erase kv 0x03 _) ?_
      (hholds.erase bytesOf_injOn (addressOf_mem hbz))
    intro f hf
    cases f <;> first | exact id | exact absurd rfl hf

theorem setPrevote_refines (h : Represents codec kv st) (hbz : IsAddress bz)
    (p : Oracle.AggregateExchangeRatePrevote) :
    ∃ kv', setAggregateExchangeRatePrevote kv bz (storedPrevote codec p) = some kv' ∧
      Represents codec kv' { st with prevotes := st.prevotes.set (addressOf bz) p } := by
  have hholds : Holds kv 0x04 addresses bytesOf _ st.prevotes := h .prevote
  refine ⟨_, setPrevote_of_isAddress hbz _, ?_⟩
  rw [addressKey_eq]
  refine h.write .prevote (frame_set kv 0x04 _ _) ?_
    (hholds.set bytesOf_injOn (addressOf_mem hbz) p)
  intro f hf
  cases f <;> first | exact id | exact absurd rfl hf

theorem deletePrevote_refines (h : Represents codec kv st) (hbz : IsAddress bz) :
    ∃ kv', deleteAggregateExchangeRatePrevote kv bz = some kv' ∧ Represents codec kv' { st with
      prevotes := st.prevotes.erase (addressOf bz) } := by
  have hholds : Holds kv 0x04 addresses bytesOf _ st.prevotes := h .prevote
  refine ⟨kv.erase (0x04 :: bytesOf (addressOf bz)), ?_, ?_⟩
  · unfold deleteAggregateExchangeRatePrevote getAggregateExchangeRatePrevoteKey
    rw [mustLengthPrefix_of_isAddress hbz, bytesOf_addressOf]
    rfl
  · refine h.write .prevote (frame_erase kv 0x04 _) ?_
      (hholds.erase bytesOf_injOn (addressOf_mem hbz))
    intro f hf
    cases f <;> first | exact id | exact absurd rfl hf

theorem setVote_refines (h : Represents codec kv st) (hbz : IsAddress bz)
    (v : Oracle.AggregateExchangeRateVote) :
    ∃ kv', setAggregateExchangeRateVote kv bz (storedVote codec v) = some kv' ∧
      Represents codec kv' { st with votes := st.votes.set (addressOf bz) v } := by
  have hholds : Holds kv 0x05 addresses bytesOf _ st.votes := h .vote
  refine ⟨_, setVote_of_isAddress hbz _, ?_⟩
  rw [addressKey_eq]
  refine h.write .vote (frame_set kv 0x05 _ _) ?_
    (hholds.set bytesOf_injOn (addressOf_mem hbz) v)
  intro f hf
  cases f <;> first | exact id | exact absurd rfl hf

theorem deleteVote_refines (h : Represents codec kv st) (hbz : IsAddress bz) :
    ∃ kv', deleteAggregateExchangeRateVote kv bz = some kv' ∧ Represents codec kv' { st with
      votes := st.votes.erase (addressOf bz) } := by
  have hholds : Holds kv 0x05 addresses bytesOf _ st.votes := h .vote
  refine ⟨kv.erase (0x05 :: bytesOf (addressOf bz)), ?_, ?_⟩
  · unfold deleteAggregateExchangeRateVote getAggregateExchangeRateVoteKey
    rw [mustLengthPrefix_of_isAddress hbz, bytesOf_addressOf]
    rfl
  · refine h.write .vote (frame_erase kv 0x05 _) ?_
      (hholds.erase bytesOf_injOn (addressOf_mem hbz))
    intro f hf
    cases f <;> first | exact id | exact absurd rfl hf

end Relation

/-! ### Iterators -/

section Iterators

variable {codec : ByteCodec} {kv : KVStore} {st : Store}

/-- What an iterator returns when it visits the encoded entries of `l`. -/
theorem iterate_of_entries {K W V : Type} {first : Byte} {encode : K → Bytes} {wrap : W → Value}
    {l : List (K × W)} {offset : ℕ} {unmarshal : Value → Option V} {form : W → V} {key : K → Bytes}
    (hvisits : KeySpace.prefixIterator kv first =
      l.map (fun e => (first :: encode e.1, wrap e.2)))
    (hkey : ∀ e ∈ l, sliceFrom offset (first :: encode e.1) = some (key e.1))
    (hunmarshal : ∀ w, unmarshal (wrap w) = some (form w)) :
    iterate first offset unmarshal kv = some (l.map (fun e => (key e.1, form e.2))) := by
  unfold iterate
  rw [show prefixIterator kv first = KeySpace.prefixIterator kv first from rfl, hvisits,
    List.mapM_map]
  apply Reorder.mapM_eq_some_map
  intro e he
  show (sliceFrom offset (first :: encode e.1)).bind _ = _
  rw [hkey e he]
  show (unmarshal (wrap e.2)).bind _ = _
  rw [hunmarshal]
  rfl

/-- An iterator over denoms visits the entries of the map in the order of their bytes. -/
theorem iterate_denoms {first : Byte} {m : SortedMap Denom Dec}
    (h : Holds kv first Set.univ utf8 Value.dec m) :
    ∃ l : List (Denom × Dec), l.Perm m.entries ∧
      l.Pairwise (fun e e' => utf8 e.1 < utf8 e'.1) ∧
      KeySpace.prefixIterator kv first = l.map (fun e => (first :: utf8 e.1, Value.dec e.2)) ∧
      iterate first 1 Value.asDec kv = some (l.map (fun e => (utf8 e.1, e.2))) := by
  obtain ⟨l, hl, hsorted, hvisits⟩ := h.prefixIterator_eq utf8_injective.injOn
  refine ⟨l, hl, hsorted, hvisits, ?_⟩
  exact iterate_of_entries hvisits (show ∀ e ∈ l, sliceFrom 1 (first :: utf8 e.1) = some (utf8 e.1)
    from fun _ _ => rfl) (show ∀ d, Value.asDec (.dec d) = some (id d) from fun _ => rfl)

/-- An iterator over addresses visits the entries of the map in their order. -/
theorem iterate_addresses {W V : Type} {first : Byte} {wrap : W → Value} {m : SortedMap ValAddr W}
    {unmarshal : Value → Option V} {form : W → V} (h : Holds kv first addresses bytesOf wrap m)
    (hunmarshal : ∀ w, unmarshal (wrap w) = some (form w)) :
    iterate first 2 unmarshal kv =
      some (m.entries.map (fun e => (addressBytes e.1, form e.2))) := by
  have hdomain : ∀ k, (m.get k).isSome → k ∈ addresses := by
    intro k hsome
    obtain ⟨w, hget⟩ := Option.isSome_iff_exists.mp hsome
    exact h.domain k w hget
  refine iterate_of_entries (h.prefixIterator_ordered bytesOf_injOn
    (fun v w hv hw hlt => bytesOf_lt (hdomain v hv) (hdomain w hw) hlt)) ?_ hunmarshal
  intro e he
  have hget : m.get e.1 = some e.2 := SortedMap.mem_entries.mp he
  obtain ⟨bz, _, heq⟩ := h.domain _ _ hget
  rw [← heq, bytesOf_addressOf, addressBytes_addressOf]
  exact sliceFrom_addressKey first bz

/-- The address of an entry is one that keys are made of. -/
theorem isAddress_of_mem {W : Type} {first : Byte} {wrap : W → Value} {m : SortedMap ValAddr W}
    (h : Holds kv first addresses bytesOf wrap m) {e : ValAddr × W} (he : e ∈ m.entries) :
    IsAddress (addressBytes e.1) ∧ addressOf (addressBytes e.1) = e.1 := by
  have hget : m.get e.1 = some e.2 := SortedMap.mem_entries.mp he
  obtain ⟨bz, hbz, heq⟩ := h.domain _ _ hget
  rw [← heq, addressBytes_addressOf]
  exact ⟨hbz, rfl⟩

theorem iterateVotes_eq (h : Represents codec kv st) :
    iterateAggregateExchangeRateVotes kv =
      some (st.votes.entries.map (fun e => (addressBytes e.1, storedVote codec e.2))) := by
  refine iterate_addresses (h .vote) ?_
  intro v
  rfl

theorem iteratePrevotes_eq (h : Represents codec kv st) :
    iterateAggregateExchangeRatePrevotes kv =
      some (st.prevotes.entries.map (fun e => (addressBytes e.1, storedPrevote codec e.2))) := by
  refine iterate_addresses (h .prevote) ?_
  intro p
  rfl

theorem iterateFeeders_eq (h : Represents codec kv st) :
    iterateFeederDelegations kv =
      some (st.feederDelegations.entries.map (fun e => (addressBytes e.1, addressBytes e.2))) := by
  refine iterate_addresses (h .feederDelegation).1 ?_
  intro a
  rfl

theorem iterateRates_perm (h : Represents codec kv st) :
    ∃ l : List (Denom × Dec), l.Perm st.exchangeRates.entries ∧
      l.Pairwise (fun e e' => utf8 e.1 < utf8 e'.1) ∧
      iterateLunaExchangeRates kv = some (l.map (fun e => (utf8 e.1, e.2))) := by
  obtain ⟨l, hl, hsorted, _, hiterate⟩ := iterate_denoms (h .exchangeRate)
  exact ⟨l, hl, hsorted, hiterate⟩

theorem iterateTobinTaxes_perm (h : Represents codec kv st) :
    ∃ l : List (Denom × Dec), l.Perm st.tobinTaxes.entries ∧
      l.Pairwise (fun e e' => utf8 e.1 < utf8 e'.1) ∧
      iterateTobinTaxes kv = some (l.map (fun e => (utf8 e.1, e.2))) := by
  obtain ⟨l, hl, hsorted, _, hiterate⟩ := iterate_denoms (h .tobinTax)
  exact ⟨l, hl, hsorted, hiterate⟩

theorem iterateMissCounters_eq (h : Represents codec kv st) :
    iterateMissCounters kv =
      some (st.missCounters.entries.map (fun e => (addressBytes e.1, e.2))) :=
  iterate_addresses (h .missCounter)
    (show ∀ n, Value.asUint64 (.uint64 n) = some (id n) from fun _ => rfl)

theorem readVoteTargets_eq (h : Represents codec kv st) :
    readVoteTargets kv = some st.tobinTaxes := by
  obtain ⟨l, hl, _, hiterate⟩ := iterateTobinTaxes_perm h
  refine Option.bind_eq_some_iff.mpr ⟨_, hiterate, ?_⟩
  rw [List.foldl_map]
  simp only [denomOf_utf8]
  exact congrArg some (SortedMap.foldl_set_entries _ hl)

/-- Every exchange rate is deleted. -/
theorem clearExchangeRates_eq (h : Represents codec kv st) :
    clearExchangeRates kv = some (KeySpace.clear kv 0x01) := by
  obtain ⟨l, _, _, hvisits, hiterate⟩ := iterate_denoms (h .exchangeRate)
  refine Option.bind_eq_some_iff.mpr ⟨_, hiterate, ?_⟩
  unfold KeySpace.clear
  rw [hvisits, List.foldl_map, List.foldl_map]
  rfl

end Iterators

end TerraClassic.Oracle.Raw
