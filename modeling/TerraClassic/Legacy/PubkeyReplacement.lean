import TerraClassic.Lib.NamedUpdate
import Mathlib.Data.List.Forall2

/-! # New consensus keys in a migrated genesis file

    `loadKeydataFromFile` gives some validators of an old genesis file a new consensus key.
    Slashing and Tendermint know a validator only by the address of that key, so the signing
    info, the missed blocks and the entry in the validator set have to move along.

    * `KeyCodec`: what the code asks of the SDK and of Tendermint about keys.
    * `GenesisDoc`: the four lists of the genesis file that are read and written.
    * `loadKeydataFromFile_eq`: the run, as one pass over each list.
    * `keys_replaced`: if no new key is the old key of a later validator, every record
      stays with its operator.
-/

namespace TerraClassic.Legacy

/-- The bytes of `sdk.ConsAddress`. -/
abbrev ConsAddress : Type := List UInt8

/-- Keys of the SDK (`K`) and of Tendermint (`P`), with their JSON form and addresses. -/
structure KeyCodec (K P : Type) where
  unmarshal : String → Option K
  address : K → ConsAddress
  tmPubKey : K → P
  consAddressString : ConsAddress → String
  /-- bech32 with one prefix. -/
  consAddressString_injective : Function.Injective consAddressString

/-- The text of `GetConsAddr`. -/
def KeyCodec.addressText {K P : Type} (codec : KeyCodec K P) (key : K) : String :=
  codec.consAddressString (codec.address key)

/-- `replacementConfig`. -/
structure ReplacementConfig where
  validatorAddress : String
  consensusPubkey : String
  deriving DecidableEq, Repr

/-- `isReplacedValidator`: the first entry with the address. -/
def isReplacedValidator (r : List ReplacementConfig) (validatorAddress : String) :
    Option ReplacementConfig :=
  r.find? (fun replacement => replacement.validatorAddress = validatorAddress)

/-- `staking.Validator`. -/
structure Validator (K : Type) where
  operatorAddress : String
  consensusPubkey : K
  deriving DecidableEq, Repr

/-- `slashing.ValidatorSigningInfo`; `I` stands for the counters. -/
structure ValidatorSigningInfo (I : Type) where
  address : String
  counters : I
  deriving DecidableEq, Repr

/-- `slashing.SigningInfo`. -/
structure SigningInfo (I : Type) where
  address : String
  validatorSigningInfo : ValidatorSigningInfo I
  deriving DecidableEq, Repr

/-- `slashing.ValidatorMissedBlocks`. -/
structure ValidatorMissedBlocks (M : Type) where
  address : String
  missedBlocks : M
  deriving DecidableEq, Repr

/-- `tmtypes.GenesisValidator`; `N` stands for the name and the power. -/
structure GenesisValidator (P N : Type) where
  address : ConsAddress
  pubKey : P
  nameAndPower : N
  deriving DecidableEq, Repr

/-- The genesis document with the states of staking and slashing. -/
structure GenesisDoc (K P I M N : Type) where
  stakingValidators : List (Validator K)
  signingInfos : List (SigningInfo I)
  missedBlocks : List (ValidatorMissedBlocks M)
  validators : List (GenesisValidator P N)
  deriving DecidableEq, Repr

/-- The old key of a validator and its new one. -/
structure Change (K : Type) where
  oldKey : K
  newKey : K

variable {K P I M N : Type}

/-! ### The loops over the records -/

def SigningInfo.setAddress (address : String) (info : SigningInfo I) : SigningInfo I :=
  ⟨address, { info.validatorSigningInfo with address := address }⟩

def ValidatorMissedBlocks.setAddress (address : String) (info : ValidatorMissedBlocks M) :
    ValidatorMissedBlocks M :=
  { info with address := address }

def GenesisValidator.setKey (codec : KeyCodec K P) (key : K) (val : GenesisValidator P N) :
    GenesisValidator P N :=
  { val with address := codec.address key, pubKey := codec.tmPubKey key }

def SigningInfo.replace (codec : KeyCodec K P) (c : Change K) (info : SigningInfo I) :
    SigningInfo I :=
  if info.address = codec.addressText c.oldKey then
    info.setAddress (codec.addressText c.newKey)
  else info

def ValidatorMissedBlocks.replace (codec : KeyCodec K P) (c : Change K)
    (info : ValidatorMissedBlocks M) : ValidatorMissedBlocks M :=
  if info.address = codec.addressText c.oldKey then
    info.setAddress (codec.addressText c.newKey)
  else info

def GenesisValidator.replace (codec : KeyCodec K P) (c : Change K) (val : GenesisValidator P N) :
    GenesisValidator P N :=
  if val.address = codec.address c.oldKey then val.setKey codec c.newKey else val

/-- The three inner loops. -/
def GenesisDoc.replace (codec : KeyCodec K P) (c : Change K) (doc : GenesisDoc K P I M N) :
    GenesisDoc K P I M N :=
  { doc with
    signingInfos := doc.signingInfos.map (SigningInfo.replace codec c)
    missedBlocks := doc.missedBlocks.map (ValidatorMissedBlocks.replace codec c)
    validators := doc.validators.map (GenesisValidator.replace codec c) }

def GenesisDoc.withValidators (vals : List (Validator K)) (doc : GenesisDoc K P I M N) :
    GenesisDoc K P I M N :=
  { doc with stakingValidators := vals }

/-- `stakingGenesis.Validators[i] = val`, where the validators before `i` are written. -/
def GenesisDoc.write (val : Validator K) (doc : GenesisDoc K P I M N) : GenesisDoc K P I M N :=
  doc.withValidators (doc.stakingValidators ++ [val])

/-- The body of the loop over the validators.  A key that does not decode is `log.Fatal`. -/
def replaceValidator (codec : KeyCodec K P) (replacementKeys : List ReplacementConfig)
    (doc : GenesisDoc K P I M N) (val : Validator K) : Option (GenesisDoc K P I M N) :=
  match isReplacedValidator replacementKeys val.operatorAddress with
  | none => some (doc.write val)
  | some replacement => do
    let consPubKey ← codec.unmarshal replacement.consensusPubkey
    let replaced := doc.replace codec ⟨val.consensusPubkey, consPubKey⟩
    return replaced.write { val with consensusPubkey := consPubKey }

/-- `loadKeydataFromFile`. -/
def loadKeydataFromFile (codec : KeyCodec K P) (replacementKeys : List ReplacementConfig)
    (doc : GenesisDoc K P I M N) : Option (GenesisDoc K P I M N) :=
  doc.stakingValidators.foldlM (replaceValidator codec replacementKeys)
    (doc.withValidators [])

/-! ### What a run does -/

section Run

variable {codec : KeyCodec K P} {replacementKeys : List ReplacementConfig}
  {doc doc' : GenesisDoc K P I M N} {val : Validator K} {vals : List (Validator K)}

/-- The key that a validator gets. -/
def newKey (codec : KeyCodec K P) (replacementKeys : List ReplacementConfig) (val : Validator K) :
    Option K :=
  (isReplacedValidator replacementKeys val.operatorAddress).bind
    (fun replacement => codec.unmarshal replacement.consensusPubkey)

/-- The validator after the run. -/
def withNewKey (codec : KeyCodec K P) (replacementKeys : List ReplacementConfig)
    (val : Validator K) : Validator K :=
  { val with
    consensusPubkey := (newKey codec replacementKeys val).getD val.consensusPubkey }

/-- The changes of a run, in the order of the validators. -/
def changes (codec : KeyCodec K P) (replacementKeys : List ReplacementConfig)
    (vals : List (Validator K)) : List (Change K) :=
  vals.filterMap (fun val => (newKey codec replacementKeys val).map (Change.mk val.consensusPubkey))

/-- The document after a list of changes. -/
def GenesisDoc.replaceAll (codec : KeyCodec K P) (cs : List (Change K))
    (doc : GenesisDoc K P I M N) : GenesisDoc K P I M N :=
  cs.foldl (fun doc c => doc.replace codec c) doc

/-- Every key of the file that some validator gets is the JSON form of a key. -/
def Decodable (codec : KeyCodec K P) (replacementKeys : List ReplacementConfig)
    (vals : List (Validator K)) : Prop :=
  ∀ val ∈ vals, ∀ replacement,
    isReplacedValidator replacementKeys val.operatorAddress = some replacement →
      (codec.unmarshal replacement.consensusPubkey).isSome

/-- One pass of the loop. -/
theorem replaceValidator_eq (h : Decodable codec replacementKeys [val]) :
    replaceValidator codec replacementKeys doc val =
      some ((doc.replaceAll codec (changes codec replacementKeys [val])).write
        (withNewKey codec replacementKeys val)) := by
  unfold replaceValidator changes withNewKey newKey
  cases hreplaced : isReplacedValidator replacementKeys val.operatorAddress with
  | none => simp [hreplaced, GenesisDoc.replaceAll]
  | some replacement =>
    obtain ⟨key, hkey⟩ := Option.isSome_iff_exists.mp
      (h val (List.mem_singleton_self val) replacement hreplaced)
    simp [hreplaced, hkey, GenesisDoc.replaceAll]

theorem GenesisDoc.replaceAll_write (cs : List (Change K)) :
    (doc.write val).replaceAll codec cs = (doc.replaceAll codec cs).write val :=
  List.foldl_hom (GenesisDoc.write val) (fun _ _ => rfl)

theorem GenesisDoc.replaceAll_withValidators (cs : List (Change K)) :
    (doc.withValidators vals).replaceAll codec cs =
      (doc.replaceAll codec cs).withValidators vals :=
  List.foldl_hom (GenesisDoc.withValidators vals) (fun _ _ => rfl)

theorem GenesisDoc.replaceAll_append (cs ds : List (Change K)) :
    doc.replaceAll codec (cs ++ ds) = (doc.replaceAll codec cs).replaceAll codec ds :=
  List.foldl_append

/-- A list of the document after all changes, from what one change does to it. -/
theorem GenesisDoc.replaceAll_field {R α : Type} [DecidableEq α] {name : R → α}
    {old : Change K → α} {write : Change K → R → R} (field : GenesisDoc K P I M N → List R)
    (hfield : ∀ doc c, field (doc.replace codec c) =
      (field doc).map (fun r => NamedUpdate.updateOne name old write r c)) (cs : List (Change K)) :
    field (doc.replaceAll codec cs) = (field doc).map (NamedUpdate.updateAll name old write cs) :=
  (List.foldl_hom field (fun doc c => (hfield doc c).symm)).symm.trans
    (NamedUpdate.foldl_map_updateOne (field doc))

/-- The whole loop: the changes, and the validators that were written. -/
theorem foldlM_replaceValidator (h : Decodable codec replacementKeys vals) :
    vals.foldlM (replaceValidator codec replacementKeys) doc =
      some ((vals.map (withNewKey codec replacementKeys)).foldl (fun doc val => doc.write val)
        (doc.replaceAll codec (changes codec replacementKeys vals))) := by
  induction vals generalizing doc with
  | nil => rfl
  | cons val vals ih =>
    have hone : Decodable codec replacementKeys [val] := fun v hv =>
      h v (List.mem_singleton.mp hv ▸ List.mem_cons_self ..)
    have hrest : Decodable codec replacementKeys vals := fun v hv =>
      h v (List.mem_cons_of_mem _ hv)
    have hchanges : changes codec replacementKeys (val :: vals) =
        changes codec replacementKeys [val] ++ changes codec replacementKeys vals :=
      List.filterMap_append (l := [val])
    rw [List.foldlM_cons, replaceValidator_eq hone, hchanges, GenesisDoc.replaceAll_append]
    refine (ih hrest).trans ?_
    -- what the first validator writes is not read by the changes of the others
    rw [GenesisDoc.replaceAll_write]
    rfl

theorem foldl_write (vals : List (Validator K)) :
    vals.foldl (fun doc val => doc.write val) doc =
      doc.withValidators (doc.stakingValidators ++ vals) := by
  induction vals generalizing doc with
  | nil => simp [GenesisDoc.withValidators]
  | cons val vals ih =>
    rw [List.foldl_cons, ih]
    simp [GenesisDoc.write, GenesisDoc.withValidators]

/-- A run goes over each list once. -/
theorem loadKeydataFromFile_eq (h : Decodable codec replacementKeys doc.stakingValidators) :
    loadKeydataFromFile codec replacementKeys doc =
      some ((doc.replaceAll codec
        (changes codec replacementKeys doc.stakingValidators)).withValidators
          (doc.stakingValidators.map (withNewKey codec replacementKeys))) := by
  unfold loadKeydataFromFile
  rw [foldlM_replaceValidator h, foldl_write, GenesisDoc.replaceAll_withValidators]
  rfl

/-- A run that ends has decoded every key. -/
theorem decodable_of_foldlM
    (h : vals.foldlM (replaceValidator codec replacementKeys) doc = some doc') :
    Decodable codec replacementKeys vals := by
  induction vals generalizing doc with
  | nil => exact fun val hval => absurd hval List.not_mem_nil
  | cons val vals ih =>
    rw [List.foldlM_cons] at h
    obtain ⟨mid, hone, hrest⟩ := Option.bind_eq_some_iff.mp h
    intro v hv replacement hreplaced
    rcases List.mem_cons.mp hv with rfl | hv
    · unfold replaceValidator at hone
      rw [hreplaced] at hone
      obtain ⟨key, hkey, -⟩ := Option.bind_eq_some_iff.mp hone
      exact Option.isSome_iff_exists.mpr ⟨key, hkey⟩
    · exact ih hrest v hv replacement hreplaced

end Run

/-! ### Records stay with their operators -/

section Follows

variable {R α : Type} {codec : KeyCodec K P}
  {replacementKeys : List ReplacementConfig} {vals : List (Validator K)}
  {doc doc' : GenesisDoc K P I M N}

/-- No key of the file has the name of the old key of a later validator. -/
def FreshNames (codec : KeyCodec K P) (replacementKeys : List ReplacementConfig) (nameOf : K → α)
    (vals : List (Validator K)) : Prop :=
  vals.Pairwise (fun val later => ∀ key, newKey codec replacementKeys val = some key →
    nameOf key ≠ nameOf later.consensusPubkey)

/-- A record before and after the run: its validator has it under the new key, with the rest
    of the record as it was, and a record of no validator is not touched. -/
structure Follows (codec : KeyCodec K P) (replacementKeys : List ReplacementConfig)
    (nameOf : K → α) (name : R → α) (write : K → R → R) (vals : List (Validator K))
    (r r' : R) : Prop where
  owned : ∀ val ∈ vals, name r = nameOf val.consensusPubkey →
    name r' = nameOf (withNewKey codec replacementKeys val).consensusPubkey
  content : ∀ val ∈ vals, name r = nameOf val.consensusPubkey →
    r' = (newKey codec replacementKeys val).elim r (fun key => write key r)
  other : (∀ val ∈ vals, name r ≠ nameOf val.consensusPubkey) → r' = r

theorem mem_changes {c : Change K} :
    c ∈ changes codec replacementKeys vals ↔
      ∃ val ∈ vals, val.consensusPubkey = c.oldKey ∧
        newKey codec replacementKeys val = some c.newKey := by
  unfold changes
  rw [List.mem_filterMap]
  constructor
  · rintro ⟨val, hval, hc⟩
    obtain ⟨key, hkey, rfl⟩ := Option.map_eq_some_iff.mp hc
    exact ⟨val, hval, rfl, hkey⟩
  · rintro ⟨val, hval, hold, hkey⟩
    exact ⟨val, hval, by rw [hkey, hold]; rfl⟩

theorem fresh_changes {nameOf : K → α} (h : FreshNames codec replacementKeys nameOf vals) :
    NamedUpdate.Fresh (fun c : Change K => nameOf c.oldKey) (fun c => nameOf c.newKey)
      (changes codec replacementKeys vals) := by
  apply List.pairwise_filterMap.mpr
  apply h.imp
  intro val later hne c hc d hd
  obtain ⟨key, hkey, rfl⟩ := Option.map_eq_some_iff.mp hc
  obtain ⟨key', -, rfl⟩ := Option.map_eq_some_iff.mp hd
  exact hne key hkey

theorem nodup_changes {nameOf : K → α}
    (h : (vals.map (fun val => nameOf val.consensusPubkey)).Nodup) :
    ((changes codec replacementKeys vals).map (fun c => nameOf c.oldKey)).Nodup := by
  apply List.pairwise_map.mpr
  apply List.pairwise_filterMap.mpr
  apply (List.pairwise_map.mp h).imp
  intro val later hne c hc d hd
  obtain ⟨key, -, rfl⟩ := Option.map_eq_some_iff.mp hc
  obtain ⟨key', -, rfl⟩ := Option.map_eq_some_iff.mp hd
  exact hne

/-- One record through all changes. -/
theorem follows_updateAll [DecidableEq α] {nameOf : K → α} {name : R → α} {write : K → R → R}
    (hwrite : ∀ key r, name (write key r) = nameOf key)
    (hnodup : (vals.map (fun val => nameOf val.consensusPubkey)).Nodup)
    (hfresh : FreshNames codec replacementKeys nameOf vals) (r : R) :
    Follows codec replacementKeys nameOf name write vals r
      (NamedUpdate.updateAll name (fun c : Change K => nameOf c.oldKey) (fun c => write c.newKey)
        (changes codec replacementKeys vals) r) := by
  have hcontent : ∀ val ∈ vals, name r = nameOf val.consensusPubkey →
      NamedUpdate.updateAll name (fun c : Change K => nameOf c.oldKey) (fun c => write c.newKey)
        (changes codec replacementKeys vals) r =
          (newKey codec replacementKeys val).elim r (fun key => write key r) := by
    intro val hval hname
    cases hkey : newKey codec replacementKeys val with
    | none =>
      -- the validators that get a key have other names
      apply NamedUpdate.updateAll_of_forall_ne
      intro c hc heq
      obtain ⟨val', hval', hold, hkey'⟩ := mem_changes.mp hc
      have hsame : val = val' := List.inj_on_of_nodup_map hnodup hval hval'
        (hname.symm.trans (heq.trans (congrArg nameOf hold.symm)))
      rw [hsame, hkey'] at hkey
      cases hkey
    | some key =>
      have hc : (⟨val.consensusPubkey, key⟩ : Change K) ∈ changes codec replacementKeys vals :=
        mem_changes.mpr ⟨val, hval, rfl, hkey⟩
      exact NamedUpdate.updateAll_of_mem (fun c r => hwrite c.newKey r) (fresh_changes hfresh)
        (nodup_changes hnodup) hc hname
  refine ⟨fun val hval hname => ?_, hcontent, fun hother => ?_⟩
  · rw [hcontent val hval hname]
    unfold withNewKey
    cases newKey codec replacementKeys val with
    | none => exact hname
    | some key => exact hwrite key r
  · apply NamedUpdate.updateAll_of_forall_ne
    intro c hc
    obtain ⟨val, hval, hold, -⟩ := mem_changes.mp hc
    rw [← hold]
    exact hother val hval

/-- One list of the document through a run. -/
theorem follows_replaceAll [DecidableEq α] {nameOf : K → α} {name : R → α} {write : K → R → R}
    (field : GenesisDoc K P I M N → List R)
    (hfield : ∀ doc c, field (doc.replace codec c) =
      (field doc).map (fun r => NamedUpdate.updateOne name (fun c : Change K => nameOf c.oldKey)
        (fun c => write c.newKey) r c))
    (hwrite : ∀ key r, name (write key r) = nameOf key)
    (hnodup : (vals.map (fun val => nameOf val.consensusPubkey)).Nodup)
    (hfresh : FreshNames codec replacementKeys nameOf vals) :
    List.Forall₂ (Follows codec replacementKeys nameOf name write vals) (field doc)
      (field (doc.replaceAll codec (changes codec replacementKeys vals))) := by
  rw [GenesisDoc.replaceAll_field field hfield, List.forall₂_map_right_iff, List.forall₂_same]
  exact fun r _ => follows_updateAll hwrite hnodup hfresh r

/-- The file after the keys are replaced. -/
structure KeysReplaced (codec : KeyCodec K P) (replacementKeys : List ReplacementConfig)
    (doc doc' : GenesisDoc K P I M N) : Prop where
  stakingValidators :
    doc'.stakingValidators = doc.stakingValidators.map (withNewKey codec replacementKeys)
  signingInfos : List.Forall₂
    (Follows codec replacementKeys codec.addressText SigningInfo.address
      (fun key => SigningInfo.setAddress (codec.addressText key)) doc.stakingValidators)
    doc.signingInfos doc'.signingInfos
  missedBlocks : List.Forall₂
    (Follows codec replacementKeys codec.addressText ValidatorMissedBlocks.address
      (fun key => ValidatorMissedBlocks.setAddress (codec.addressText key)) doc.stakingValidators)
    doc.missedBlocks doc'.missedBlocks
  validators : List.Forall₂
    (Follows codec replacementKeys codec.address GenesisValidator.address
      (GenesisValidator.setKey codec) doc.stakingValidators)
    doc.validators doc'.validators

/-- Slashing and Tendermint know every validator under its new key: the run replaces the keys
    of the validators that the file names and carries each record of theirs along. -/
theorem keys_replaced (hrun : loadKeydataFromFile codec replacementKeys doc = some doc')
    (hdistinct :
      (doc.stakingValidators.map (fun val => codec.address val.consensusPubkey)).Nodup)
    (hfresh : FreshNames codec replacementKeys codec.address doc.stakingValidators) :
    KeysReplaced codec replacementKeys doc doc' := by
  have htexts :
      (doc.stakingValidators.map (fun val => codec.addressText val.consensusPubkey)).Nodup := by
    have hmap := hdistinct.map codec.consAddressString_injective
    rw [List.map_map] at hmap
    exact hmap
  have hfreshTexts : FreshNames codec replacementKeys codec.addressText doc.stakingValidators :=
    hfresh.imp (fun hne key hkey heq => hne key hkey (codec.consAddressString_injective heq))
  rw [loadKeydataFromFile_eq (decodable_of_foldlM hrun)] at hrun
  obtain rfl := Option.some.inj hrun
  refine ⟨rfl, ?_, ?_, ?_⟩
  -- slashing compares the texts of the addresses, Tendermint the bytes
  · exact follows_replaceAll GenesisDoc.signingInfos (fun _ _ => rfl) (fun _ _ => rfl) htexts
      hfreshTexts
  · exact follows_replaceAll GenesisDoc.missedBlocks (fun _ _ => rfl) (fun _ _ => rfl) htexts
      hfreshTexts
  · exact follows_replaceAll GenesisDoc.validators (fun _ _ => rfl) (fun _ _ => rfl) hdistinct
      hfresh

end Follows

theorem charOfByte_injective : Function.Injective (fun b : UInt8 => Char.ofNat b.toNat) := by
  have htoNat : ∀ b : UInt8, (Char.ofNat b.toNat).toNat = b.toNat := by
    intro b
    have hvalid : b.toNat.isValidChar := Or.inl (by have := b.toNat_lt; omega)
    unfold Char.ofNat
    rw [dif_pos hvalid]
    rfl
  intro a b hab
  apply UInt8.toNat_inj.mp
  rw [← htoNat a, ← htoNat b]
  exact congrArg Char.toNat hab

/-- Keys of one byte, each its own address and spelled as one character. -/
def byteKeys : KeyCodec UInt8 UInt8 where
  unmarshal s := s.toList.head?.map (fun c => UInt8.ofNat c.toNat)
  address key := [key]
  tmPubKey key := key
  consAddressString bz := String.ofList (bz.map (fun b => Char.ofNat b.toNat))
  consAddressString_injective := fun _ _ hab =>
    charOfByte_injective.list_map (String.ofList_injective hab)

/-- Two validators, with the keys `A` and `B`. -/
def smallGenesis : GenesisDoc UInt8 UInt8 Unit Unit Unit where
  stakingValidators := [⟨"first", 65⟩, ⟨"second", 66⟩]
  signingInfos := [⟨"A", ⟨"A", ()⟩⟩, ⟨"B", ⟨"B", ()⟩⟩]
  missedBlocks := [⟨"B", ()⟩]
  validators := [⟨[65], 65, ()⟩, ⟨[66], 66, ()⟩]

theorem keys_replaced_small :
    KeysReplaced byteKeys [⟨"first", "C"⟩] smallGenesis
      { smallGenesis with
        stakingValidators := [⟨"first", 67⟩, ⟨"second", 66⟩]
        signingInfos := [⟨"C", ⟨"C", ()⟩⟩, ⟨"B", ⟨"B", ()⟩⟩]
        validators := [⟨[67], 67, ()⟩, ⟨[66], 66, ()⟩] } := by
  have hkey : newKey byteKeys [⟨"first", "C"⟩] ⟨"first", 65⟩ = some 67 := by decide
  have hfresh : FreshNames byteKeys [⟨"first", "C"⟩] byteKeys.address
      smallGenesis.stakingValidators := by
    apply List.pairwise_pair.mpr
    intro key hmem
    obtain rfl := Option.some.inj (hkey.symm.trans hmem)
    decide
  exact keys_replaced (by decide) (by decide) hfresh

/-- Validators that exchange their keys end with one address: the second change takes the
    records of the first along. -/
example : (loadKeydataFromFile byteKeys [⟨"first", "B"⟩, ⟨"second", "A"⟩] smallGenesis).map
    (fun doc => doc.signingInfos.map SigningInfo.address) = some ["A", "A"] := by decide

end TerraClassic.Legacy
