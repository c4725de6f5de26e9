import TerraClassic.Vesting.Account

/-! # Genesis accounts

    The `add-genesis-account` command of `genaccounts.go`.  It reads vesting schedules from a
    flag, groups them by denom in a map, makes an account of them, and adds the account and
    its coins to the genesis file.

    * `parseVestingSchedules_get`: the map of the flag gives each denom its schedules, in the
      order of the flag.
    * `vesting_flag_accepted`: what an accepted flag says is what the account does, whatever
      the order in which the map is ranged over.
    * `genesis_accounts_run`: the genesis file stays sound over any run of commands.
-/

namespace TerraClassic.Vesting

/-! ### Texts -/

/-- `strings.Split` with a separator of one character. -/
def splitOnChar (sep : Char) (s : String) : List String := (s.toList.splitOn sep).map String.ofList

/-- What `strconv.Atoi` objects to. -/
inductive NumError where
  | syntaxError
  | rangeError
  deriving DecidableEq

/-- The digits of a number, up to the `uint64` that `ParseUint` collects. -/
def parseUint (digits : List Char) : Except NumError ℕ :=
  if digits = [] then .error .syntaxError
  else digits.foldlM (fun n c =>
    if !c.isDigit then .error .syntaxError
    else if 2 ^ 64 ≤ n * 10 + (c.toNat - 48) then .error .rangeError
    else .ok (n * 10 + (c.toNat - 48))) 0

/-- `strconv.Atoi`. -/
def atoi (s : String) : Except NumError Int64 :=
  match s.toList with
  | '-' :: digits => do
    let n ← parseUint digits
    if 2 ^ 63 < n then .error .rangeError else return Int64.ofInt (-n)
  | '+' :: digits => do
    let n ← parseUint digits
    if 2 ^ 63 ≤ n then .error .rangeError else return Int64.ofInt n
  | digits => do
    let n ← parseUint digits
    if 2 ^ 63 ≤ n then .error .rangeError else return Int64.ofInt n

/-- `AddDate(0, 0, days).UTC().Unix()`. -/
def addDays (unix days : Int64) : Int64 := unix + 86400 * days

/-! ### Accounts and files -/

/-- The accounts that the command makes. -/
inductive GenesisAccount where
  | baseAccount (address : String)
  | lazyGradedVestingAccount (address : String) (originalVesting : Coins)
      (vestingSchedules : List VestingSchedule)
  deriving DecidableEq

namespace GenesisAccount

/-- The `Address` of the base account. -/
def address : GenesisAccount → String
  | .baseAccount address => address
  | .lazyGradedVestingAccount address _ _ => address

/-- `Validate`.  The accounts have no public key and nothing is delegated, so that the check
    of the base vesting account passes. -/
def validate : GenesisAccount → Except Error Unit
  | .baseAccount _ => .ok ()
  | .lazyGradedVestingAccount _ originalVesting vestingSchedules => do
    let _ ← vestingSchedules.foldlM LazyGradedVestingAccount.validateVestingSchedule []
    if !Coins.isAllLTE ∅ originalVesting then
      .error (.plain "delegated vesting amount cannot be greater than original vesting amount")
    else .ok ()

end GenesisAccount

/-- `banktypes.Balance`. -/
structure Balance where
  address : String
  coins : Coins
  deriving DecidableEq

/-- The genesis time, and the accounts of `auth` and the balances and the supply of `bank` in
    the genesis file. -/
structure GenesisFile where
  genesisTime : Int64
  accounts : List GenesisAccount
  balances : List Balance
  supply : Coins
  deriving DecidableEq

/-- The arguments and the flags of `add-genesis-account`. -/
structure AddGenesisAccountArgs where
  addressOrKeyName : String
  coins : String
  vestingAmt : String
  vestingSchedules : String

/-- What the command takes from the SDK, and the order in which Go ranges over its map.
    Sanitizing sorts the accounts by number, of which all are zero, and the balances by
    address. -/
structure Client where
  accAddressFromBech32 : String → Except String AccAddr
  accAddressString : AccAddr → String
  /-- Opening the keyring, finding a key there, and its address. -/
  keyring : Except String (String → Except String (Except String AccAddr))
  parseCoinsNormalized : String → Except String Coins
  newDecFromStr : String → Except String Dec
  quote : String → String
  rangeOrder : SortedMap Denom VestingSchedule → List (Denom × VestingSchedule)
  range_perm : ∀ m, (rangeOrder m).Perm m.entries
  sanitizeGenesisAccounts : List GenesisAccount → List GenesisAccount
  accounts_perm : ∀ l, (sanitizeGenesisAccounts l).Perm l
  sanitizeGenesisBalances : List Balance → List Balance
  balances_perm : ∀ l, (sanitizeGenesisBalances l).Perm l

/-! ### The command -/

/-- `fmt.Errorf` with a text before the error. -/
def wrapText (text : String) : Error → Error
  | .plain err => .plain (text ++ err)
  | err => err

namespace Client

variable (c : Client)

/-- An address, or the address of a key of that name. -/
def resolve (addressOrKeyName : String) : Except Error AccAddr :=
  match c.accAddressFromBech32 addressOrKeyName with
  | .ok addr => .ok addr
  | .error _ => do
    let kb ← c.keyring.mapError .plain
    let info ← (kb addressOrKeyName).mapError
      (fun err => .plain ("failed to get address from Keybase: " ++ err))
    info.mapError .plain

/-- `strconv.Atoi`, with the text of its error. -/
def parseDay (s : String) : Except Error Int64 :=
  (atoi s).mapError (fun err => .plain ("strconv.Atoi: parsing " ++ c.quote s ++
    match err with
    | .syntaxError => ": invalid syntax"
    | .rangeError => ": value out of range"))

/-- One item of the flag: `denom|start|end|ratio`. -/
def parseSchedule (genesisTime : Int64) (unparsedSchedule : String) :
    Except Error (Denom × Schedule) :=
  match splitOnChar '|' unparsedSchedule with
  | [denom, start, stop, ratio] => do
    let startDay ← c.parseDay start
    let endDay ← c.parseDay stop
    let ratio ← (c.newDecFromStr ratio).mapError .plain
    return (denom, ⟨addDays genesisTime startDay, addDays genesisTime endDay, ratio⟩)
  | _ => .error (.plain "vesting schedule parse error")

/-- `vestingSchedulesDenomMap`. -/
abbrev DenomMap : Type := SortedMap Denom VestingSchedule

/-- A schedule goes to the end of the schedules of its denom. -/
def addSchedule (denomMap : DenomMap) (item : Denom × Schedule) : DenomMap :=
  match denomMap.get item.1 with
  | some vs => denomMap.set item.1 { vs with schedules := vs.schedules ++ [item.2] }
  | none => denomMap.set item.1 ⟨item.1, [item.2]⟩

/-- The loop over the items of the flag. -/
def parseVestingSchedules (genesisTime : Int64) (vestingSchedules : String) :
    Except Error DenomMap :=
  (splitOnChar ',' vestingSchedules).foldlM (fun denomMap unparsedSchedule => do
    let item ← c.parseSchedule genesisTime unparsedSchedule
    return addSchedule denomMap item) ∅

/-- The schedules of the map, in the order of the range. -/
def rangeSchedules (denomMap : DenomMap) : List VestingSchedule :=
  (c.rangeOrder denomMap).map (fun e => { e.2 with denom := e.1 })

/-- `IsAnyGT`, which passes over the denoms that `coinsB` does not have. -/
def isAnyGT (coins coinsB : Coins) : Bool :=
  if coinsB.entries.length = 0 then false
  else coins.entries.any (fun coin =>
    coinsB.amountOf coin.1 < coin.2 && coinsB.amountOf coin.1 ≠ 0)

/-- The account for a vesting amount that is not zero. -/
def vestingAccount (genesisTime : Int64) (balances : Balance) (vestingAmt : Coins)
    (vestingSchedules : String) : Except Error GenesisAccount := do
  let denomMap ← c.parseVestingSchedules genesisTime vestingSchedules
  if vestingAmt.entries.any (fun coin => (denomMap.get coin.1).isNone) then
    .error (.plain "must provide vesting schedule for all vesting amount")
  else if (balances.coins.isZero && !vestingAmt.isZero) || isAnyGT vestingAmt balances.coins then
    .error (.plain "vesting amount cannot be greater than total amount")
  else
    return .lazyGradedVestingAccount balances.address vestingAmt (c.rangeSchedules denomMap)

/-- `genAccount`: a base account, if nothing vests. -/
def genAccount (genesisTime : Int64) (balances : Balance) (vestingAmt : Coins)
    (vestingSchedules : String) : Except Error GenesisAccount :=
  if !vestingAmt.isZero then c.vestingAccount genesisTime balances vestingAmt vestingSchedules
  else .ok (.baseAccount balances.address)

/-- `GetAddress`, which ignores the error. -/
def getAddress (acc : GenesisAccount) : AccAddr :=
  match c.accAddressFromBech32 acc.address with
  | .ok addr => addr
  | .error _ => ""

/-- `GenesisAccounts.Contains`. -/
def contains (accs : List GenesisAccount) (addr : AccAddr) : Bool :=
  accs.any (fun acc => c.getAddress acc = addr)

/-- The `RunE` of `AddGenesisAccountCmd`: the file that it exports. -/
def addGenesisAccountCmd (file : GenesisFile) (args : AddGenesisAccountArgs) :
    Except Error GenesisFile := do
  let addr ← c.resolve args.addressOrKeyName
  let coins ← (c.parseCoinsNormalized args.coins).mapError
    (fun err => .plain ("failed to parse coins: " ++ err))
  let vestingAmt ← (c.parseCoinsNormalized args.vestingAmt).mapError
    (fun err => .plain ("failed to parse vesting amount: " ++ err))
  let balances : Balance := ⟨c.accAddressString addr, coins⟩
  let genAccount ← c.genAccount file.genesisTime balances vestingAmt args.vestingSchedules
  (genAccount.validate).mapError (wrapText "failed to validate new genesis account: ")
  if c.contains file.accounts addr then
    .error (.plain ("cannot add account at existing address " ++ c.accAddressString addr))
  else do
    let supply ← SdkError.orPanic (file.supply.checkedAdd balances.coins)
    return { file with
      accounts := c.sanitizeGenesisAccounts (file.accounts ++ [genAccount])
      balances := c.sanitizeGenesisBalances (file.balances ++ [balances])
      supply := supply }

/-- A command that fails leaves the file as it was. -/
def runCommand (file : GenesisFile) (args : AddGenesisAccountArgs) : GenesisFile :=
  match c.addGenesisAccountCmd file args with
  | .ok file' => file'
  | .error _ => file

end Client

/-- A client for a few texts: addresses without a checksum and coins of two denoms. -/
def smallClient : Client where
  accAddressFromBech32 s := if s = "" then .error "empty address string is not allowed" else .ok s
  accAddressString addr := addr
  keyring := .error "unknown keyring backend"
  parseCoinsNormalized s :=
    if s = "3000000000uluna" then .ok (Coins.ofCoin microLunaDenom 3000000000)
    else if s = "1ukrw" then .ok (Coins.ofCoin "ukrw" 1)
    else if s = "" then .ok ∅
    else .error "invalid decimal coin expression"
  newDecFromStr s :=
    if s = "0.5" then .ok (Dec.withPrec 5 1) else .error "failed to set decimal string"
  quote s := s
  rangeOrder m := m.entries
  range_perm m := .refl m.entries
  sanitizeGenesisAccounts l := l
  accounts_perm l := .refl l
  sanitizeGenesisBalances l := l
  balances_perm l := .refl l

theorem threeThousand_valid : (Coins.ofCoin microLunaDenom 3000000000).Valid :=
  Coins.valid_ofCoin (by decide) (by decide)

/-- A genesis file without accounts, as `init` writes it. -/
def emptyGenesis : GenesisFile := ⟨1700000000, [], [], ∅⟩

/-- 3000 luna, of which one half vests in the second month and one over a year. -/
def halfAndHalf : AddGenesisAccountArgs :=
  ⟨"acc1", "3000000000uluna", "3000000000uluna", "uluna|30|60|0.5,uluna|0|365|0.5"⟩

namespace Client

variable (c : Client)

/-! ### The map of the flag -/

/-- The schedules of a denom among the items of the flag. -/
def schedulesOf (denom : Denom) (items : List (Denom × Schedule)) : List Schedule :=
  (items.filter (fun item => item.1 = denom)).map Prod.snd

theorem schedulesOf_append_singleton (denom : Denom) (items : List (Denom × Schedule))
    (item : Denom × Schedule) : schedulesOf denom (items ++ [item]) =
      schedulesOf denom items ++ if item.1 = denom then [item.2] else [] := by
  unfold schedulesOf
  rw [List.filter_append, List.map_append]
  by_cases h : item.1 = denom
  · simp [h]
  · simp [h]

/-- Grouping keeps the order of the items of each denom. -/
theorem get_foldl_addSchedule (items : List (Denom × Schedule)) (denom : Denom) :
    (items.foldl addSchedule ∅).get denom =
      if schedulesOf denom items = [] then none else some ⟨denom, schedulesOf denom items⟩ := by
  induction items using List.reverseRecOn with
  | nil => rfl
  | append_singleton items item ih =>
    rw [List.foldl_append, List.foldl_cons, List.foldl_nil, schedulesOf_append_singleton]
    generalize items.foldl addSchedule ∅ = denomMap at ih ⊢
    by_cases hdenom : item.1 = denom
    · subst hdenom
      rw [if_pos rfl]
      unfold addSchedule
      rw [ih]
      by_cases hnil : schedulesOf item.1 items = []
      · simp [hnil]
      · simp [hnil]
    · rw [if_neg hdenom, List.append_nil, ← ih]
      -- an item of another denom
      unfold addSchedule
      split
      · exact SortedMap.get_set_ne _ _ (Ne.symm hdenom)
      · exact SortedMap.get_set_ne _ _ (Ne.symm hdenom)

/-- The items that a flag stands for. -/
def Items (genesisTime : Int64) (vestingSchedules : String) (items : List (Denom × Schedule)) :
    Prop :=
  List.Forall₂ (fun unparsed item => c.parseSchedule genesisTime unparsed = .ok item)
    (splitOnChar ',' vestingSchedules) items

variable {c}

theorem foldlM_addSchedule {genesisTime : Int64} {unparsed : List String} {acc m : DenomMap}
    (h : unparsed.foldlM (fun denomMap text => do
      let item ← c.parseSchedule genesisTime text
      return addSchedule denomMap item) acc = .ok m) :
    ∃ items, List.Forall₂ (fun text item => c.parseSchedule genesisTime text = .ok item)
      unparsed items ∧ m = items.foldl addSchedule acc := by
  induction unparsed generalizing acc with
  | nil =>
    cases h
    exact ⟨[], .nil, rfl⟩
  | cons text rest ih =>
    rw [List.foldlM_cons] at h
    obtain ⟨acc', hfirst, hrest⟩ := Run.bind_eq_ok.mp h
    obtain ⟨item, hitem, hadd⟩ := Run.bind_eq_ok.mp hfirst
    cases hadd
    obtain ⟨items, hitems, rfl⟩ := ih hrest
    exact ⟨item :: items, .cons hitem hitems, rfl⟩

/-- The map of an accepted flag. -/
theorem parseVestingSchedules_get {genesisTime : Int64} {vestingSchedules : String}
    {denomMap : DenomMap}
    (h : c.parseVestingSchedules genesisTime vestingSchedules = .ok denomMap) :
    ∃ items, c.Items genesisTime vestingSchedules items ∧ ∀ denom, denomMap.get denom =
      if schedulesOf denom items = [] then none else some ⟨denom, schedulesOf denom items⟩ := by
  obtain ⟨items, hitems, rfl⟩ := foldlM_addSchedule h
  exact ⟨items, hitems, get_foldl_addSchedule items⟩

/-! ### The order of the range -/

theorem find?_schedules (denom : Denom) (l : List (Denom × VestingSchedule)) :
    (l.map (fun e => ({ e.2 with denom := e.1 } : VestingSchedule))).find?
      (fun vs => vs.denom = denom) =
      (SortedMap.lookup denom l).map (fun vs => { vs with denom := denom }) := by
  induction l with
  | nil => rfl
  | cons e rest ih =>
    rw [List.map_cons, List.find?_cons]
    by_cases h : e.1 = denom
    · subst h
      simp [SortedMap.lookup]
    · have h' : ¬ denom = e.1 := Ne.symm h
      simp only [h, decide_false, ih, SortedMap.lookup, if_neg h']

theorem find?_rangeSchedules (denomMap : DenomMap) (denom : Denom) :
    (c.rangeSchedules denomMap).find? (fun vs => vs.denom = denom) =
      (denomMap.get denom).map (fun vs => { vs with denom := denom }) := by
  unfold rangeSchedules
  rw [find?_schedules, SortedMap.lookup_perm (c.range_perm denomMap)]

end Client

/-! ### Accounts that `Validate` accepts -/

/-- The loop of `Validate` asks for schedules of distinct denoms, each of them valid. -/
theorem foldlM_validateVestingSchedule {l : List VestingSchedule} {seen : List Denom} :
    (∃ seen', l.foldlM LazyGradedVestingAccount.validateVestingSchedule seen = .ok seen') ↔
      (l.map VestingSchedule.denom).Nodup ∧ (∀ vs ∈ l, vs.denom ∉ seen) ∧
        ∀ vs ∈ l, vs.validate = .ok () := by
  induction l generalizing seen with
  | nil => exact ⟨fun _ => ⟨List.nodup_nil, nofun, nofun⟩, fun _ => ⟨seen, rfl⟩⟩
  | cons vs rest ih =>
    rw [List.foldlM_cons, List.map_cons, List.nodup_cons, List.forall_mem_cons,
      List.forall_mem_cons]
    constructor
    · rintro ⟨seen', h⟩
      obtain ⟨seen₁, hfirst, hrest⟩ := Run.bind_eq_ok.mp h
      -- the denom is checked against those seen before and then added to them
      unfold LazyGradedVestingAccount.validateVestingSchedule at hfirst
      split at hfirst
      · cases hfirst
      · next hnew =>
        obtain ⟨hvalid, hseen⟩ := Run.check_eq_ok.mp hfirst
        cases hseen
        obtain ⟨hnodup, hnotin, hall⟩ := ih.mp ⟨seen', hrest⟩
        refine ⟨⟨?_, hnodup⟩, ⟨hnew, ?_⟩, hvalid, hall⟩
        · intro hmem
          obtain ⟨vs', hvs', heq⟩ := List.mem_map.mp hmem
          exact hnotin vs' hvs' (by rw [heq]; exact List.mem_cons_self)
        · intro vs' hvs' hmem
          exact hnotin vs' hvs' (List.mem_cons_of_mem _ hmem)
    · rintro ⟨⟨hfresh, hnodup⟩, ⟨hnew, hnotin⟩, hvalid, hall⟩
      have hrest : ∀ vs' ∈ rest, vs'.denom ∉ vs.denom :: seen := by
        intro vs' hvs' hmem
        rcases List.mem_cons.mp hmem with heq | hmem
        · exact hfresh (List.mem_map.mpr ⟨vs', hvs', heq⟩)
        · exact hnotin vs' hvs' hmem
      obtain ⟨seen', h⟩ := ih.mpr ⟨hnodup, hrest, hall⟩
      refine ⟨seen', Run.bind_eq_ok.mpr ⟨vs.denom :: seen, ?_, h⟩⟩
      unfold LazyGradedVestingAccount.validateVestingSchedule
      rw [if_neg hnew]
      exact Run.check_eq_ok.mpr ⟨hvalid, rfl⟩

theorem GenesisAccount.validate_lazyGraded {address : String} {originalVesting : Coins}
    {l : List VestingSchedule} :
    (GenesisAccount.lazyGradedVestingAccount address originalVesting l).validate = .ok () ↔
      (l.map VestingSchedule.denom).Nodup ∧ ∀ vs ∈ l, vs.validate = .ok () := by
  have hloop := @foldlM_validateVestingSchedule l []
  constructor
  · intro h
    obtain ⟨seen', hseen, _⟩ := Run.bind_eq_ok.mp h
    obtain ⟨hnodup, _, hall⟩ := hloop.mp ⟨seen', hseen⟩
    exact ⟨hnodup, hall⟩
  · rintro ⟨hnodup, hall⟩
    obtain ⟨seen', hseen⟩ := hloop.mpr ⟨hnodup, fun _ _ => List.not_mem_nil, hall⟩
    exact Run.bind_eq_ok.mpr ⟨seen', hseen, rfl⟩

/-! ### What an accepted command does -/

namespace Client

variable {c : Client}

/-- The texts and amounts of an accepted command, and the account that it adds. -/
structure Accepted (c : Client) (file : GenesisFile) (args : AddGenesisAccountArgs) (addr : AccAddr)
    (coins vestingAmt : Coins) (genAccount : GenesisAccount) (supply : Coins) : Prop where
  resolved : c.resolve args.addressOrKeyName = .ok addr
  parsed : c.parseCoinsNormalized args.coins = .ok coins
  parsedVesting : c.parseCoinsNormalized args.vestingAmt = .ok vestingAmt
  account : vestingAmt.isZero = true ∧ genAccount = .baseAccount (c.accAddressString addr) ∨
    vestingAmt.isZero = false ∧ c.vestingAccount file.genesisTime ⟨c.accAddressString addr, coins⟩
      vestingAmt args.vestingSchedules = .ok genAccount
  valid : genAccount.validate = .ok ()
  fresh : ∀ acc ∈ file.accounts, c.getAddress acc ≠ addr
  added : file.supply.checkedAdd coins = some supply

theorem addGenesisAccountCmd_ok {file file' : GenesisFile} {args : AddGenesisAccountArgs}
    (h : c.addGenesisAccountCmd file args = .ok file') :
    ∃ addr coins vestingAmt genAccount supply,
      c.Accepted file args addr coins vestingAmt genAccount supply ∧
      file' = { file with
        accounts := c.sanitizeGenesisAccounts (file.accounts ++ [genAccount])
        balances := c.sanitizeGenesisBalances
          (file.balances ++ [⟨c.accAddressString addr, coins⟩])
        supply := supply } := by
  obtain ⟨addr, haddr, h⟩ := Run.bind_eq_ok.mp h
  obtain ⟨coins, hcoins, h⟩ := Run.bind_eq_ok.mp h
  obtain ⟨vestingAmt, hvestingAmt, h⟩ := Run.bind_eq_ok.mp h
  obtain ⟨genAccount, haccount, h⟩ := Run.bind_eq_ok.mp h
  obtain ⟨hvalid, h⟩ := Run.check_eq_ok.mp h
  rw [SdkError.mapError_eq_ok] at hcoins hvestingAmt hvalid
  split at h
  · cases h
  · next hcontains =>
    obtain ⟨supply, hsupply, h⟩ := Run.bind_eq_ok.mp h
    cases h
    refine ⟨addr, coins, vestingAmt, genAccount, supply, ⟨haddr, hcoins, hvestingAmt, ?_, hvalid,
      ?_, SdkError.orPanic_eq_ok.mp hsupply⟩, rfl⟩
    · unfold Client.genAccount at haccount
      split at haccount
      · next hzero => exact .inr ⟨by simpa using hzero, haccount⟩
      · next hzero =>
        cases haccount
        exact .inl ⟨by simpa using hzero, rfl⟩
    · intro acc hacc heq
      exact hcontains (List.any_eq_true.mpr ⟨acc, hacc, by simpa using heq⟩)

/-- Where `IsAnyGT` is false, nothing exceeds an amount that is there. -/
theorem le_of_not_isAnyGT {coins coinsB : Coins} (h : isAnyGT coins coinsB = false) {denom : Denom}
    {amount : ℤ} (hget : coins.get denom = some amount) :
    coinsB.amountOf denom = 0 ∨ amount ≤ coinsB.amountOf denom := by
  unfold isAnyGT at h
  split at h
  · next hempty =>
    left
    have hnone : coinsB.get denom = none := by
      unfold SortedMap.get
      rw [List.eq_nil_of_length_eq_zero hempty]
      rfl
    exact Coins.amountOf_of_get_none hnone
  · have hcoin := List.any_eq_false.mp h (denom, amount) (SortedMap.mem_entries.mpr hget)
    by_contra hnot
    push Not at hnot
    exact hcoin (by simp [hnot.1, hnot.2])

theorem vestingAccount_ok {genesisTime : Int64} {balances : Balance} {vestingAmt : Coins}
    {vestingSchedules : String} {genAccount : GenesisAccount} (hzero : vestingAmt.isZero = false)
    (h : c.vestingAccount genesisTime balances vestingAmt vestingSchedules = .ok genAccount) :
    ∃ denomMap, c.parseVestingSchedules genesisTime vestingSchedules = .ok denomMap ∧
      (∀ denom amount, vestingAmt.get denom = some amount → (denomMap.get denom).isSome) ∧
      balances.coins.isZero = false ∧
      (∀ denom amount, vestingAmt.get denom = some amount →
        balances.coins.amountOf denom = 0 ∨ amount ≤ balances.coins.amountOf denom) ∧
      genAccount = .lazyGradedVestingAccount balances.address vestingAmt
        (c.rangeSchedules denomMap) := by
  obtain ⟨denomMap, hparse, h⟩ := Run.bind_eq_ok.mp h
  split at h
  · cases h
  · next hscheduled =>
    split at h
    · cases h
    · next hamounts =>
      cases h
      simp only [hzero, Bool.not_false, Bool.and_true, Bool.or_eq_true, not_or,
        Bool.not_eq_true] at hamounts
      refine ⟨denomMap, hparse, ?_, hamounts.1, fun _ _ => le_of_not_isAnyGT hamounts.2, rfl⟩
      intro denom amount hget
      rw [List.any_eq_true] at hscheduled
      by_contra hnone
      refine hscheduled ⟨(denom, amount), SortedMap.mem_entries.mpr hget, ?_⟩
      simpa using hnone

/-! ### The flag and the account -/

/-- The account of the keeper with these coins and schedules. -/
def keeperAccount {originalVesting : Coins} (hvalid : originalVesting.Valid)
    (vestingSchedules : List VestingSchedule) : LazyGradedVestingAccount where
  originalVesting := originalVesting
  delegatedVesting := ∅
  baseAccountValidate := .ok ()
  original_valid := hvalid
  delegated_valid := Coins.valid_empty
  vestingSchedules := vestingSchedules

/-- Validation in the genesis file is validation in the keeper. -/
theorem keeperAccount_validate {originalVesting : Coins} (hvalid : originalVesting.Valid)
    (vestingSchedules : List VestingSchedule) (address : String) :
    (keeperAccount hvalid vestingSchedules).validate =
      (GenesisAccount.lazyGradedVestingAccount address originalVesting vestingSchedules).validate :=
  rfl

/-- In schedules of distinct denoms the order does not matter. -/
theorem find?_perm {l l' : List VestingSchedule} (hperm : l'.Perm l)
    (hnodup : (l.map VestingSchedule.denom).Nodup) (denom : Denom) :
    l'.find? (fun vs => vs.denom = denom) = l.find? (fun vs => vs.denom = denom) := by
  induction hperm with
  | nil => rfl
  | cons vs _ ih =>
    rw [List.find?_cons, List.find?_cons, ih (List.nodup_cons.mp hnodup).2]
  | swap vs vs' rest =>
    have hne : vs.denom ≠ vs'.denom := by
      intro heq
      exact (List.nodup_cons.mp hnodup).1 (by rw [heq]; exact List.mem_cons_self)
    rw [List.find?_cons, List.find?_cons, List.find?_cons, List.find?_cons]
    -- only one of the two can have the denom
    by_cases h : vs.denom = denom
    · have h' : vs'.denom ≠ denom := fun heq => hne (h.trans heq.symm)
      simp [h, h']
    · by_cases h' : vs'.denom = denom
      · simp [h, h']
      · simp [h, h']
  | trans hperm₁ hperm₂ ih₁ ih₂ =>
    have hnodup' := (hperm₂.map VestingSchedule.denom).nodup_iff.mpr hnodup
    rw [ih₁ hnodup', ih₂ hnodup]

/-- The account vests by the schedules of these items: whenever the vested coins are returned, a
    denom has the released part of its schedules, and amounts below `2^255` always return. -/
def VestsBy (items : List (Denom × Schedule)) (lgva : LazyGradedVestingAccount) : Prop :=
  ∀ blockTime,
    (∀ vested, lgva.getVestedCoins blockTime = some vested →
      ∀ denom, vested.amountOf denom = Dec.chopPrecisionAndRound
        (lgva.originalVesting.amountOf denom * Release.released
          (VestingSchedule.mk denom (schedulesOf denom items)).pieces blockTime.toInt)) ∧
    ((∀ denom amount, lgva.originalVesting.get denom = some amount → amount < 2 ^ 255) →
      (lgva.getVestedCoins blockTime).isSome)

theorem vestsBy_of_schedules {items : List (Denom × Schedule)} {lgva : LazyGradedVestingAccount}
    (h : lgva.validate = .ok ())
    (hschedule : ∀ denom amount, lgva.originalVesting.get denom = some amount →
      lgva.getVestingSchedule denom = some ⟨denom, schedulesOf denom items⟩) :
    VestsBy items lgva := by
  intro blockTime
  have hreturns := LazyGradedVestingAccount.returns_getVestedCoins h blockTime
  constructor
  · intro vested hvested denom
    have hfits := hreturns.isSome_iff.mp (hvested ▸ rfl)
    rw [hreturns.1 hfits] at hvested
    cases hvested
    rw [Coins.amountOf_collect]
    cases hget : lgva.originalVesting.get denom with
    | none =>
      rw [Coins.amountOf_of_get_none hget, zero_mul]
      rfl
    | some amount =>
      rw [Coins.amountOf_of_get hget,
        ← LazyGradedVestingAccount.vestedRatio_of_schedule (hschedule denom amount hget)]
      rfl
  · intro hlt
    rw [hreturns.isSome_iff]
    intro coin hcoin
    exact LazyGradedVestingAccount.coinFits_of_lt h blockTime
      (LazyGradedVestingAccount.original_pos hcoin).le
      (hlt coin.1 coin.2 (SortedMap.mem_entries.mp hcoin))

/-- An accepted flag is carried out: the account that the command adds to the file is one that
    the keeper accepts, each of its coins has a schedule in the flag, and in whatever order
    the map was ranged over, a denom finds its schedules in the order of the flag, and vests
    by the released part of these. -/
theorem vesting_flag_accepted {file file' : GenesisFile} {args : AddGenesisAccountArgs}
    {vestingAmt : Coins} (h : c.addGenesisAccountCmd file args = .ok file')
    (hamt : c.parseCoinsNormalized args.vestingAmt = .ok vestingAmt) (hvalid : vestingAmt.Valid)
    (hzero : vestingAmt.isZero = false) :
    ∃ addr items vestingSchedules,
      c.resolve args.addressOrKeyName = .ok addr ∧
      c.Items file.genesisTime args.vestingSchedules items ∧
      .lazyGradedVestingAccount (c.accAddressString addr) vestingAmt vestingSchedules ∈
        file'.accounts ∧
      (∀ denom amount, vestingAmt.get denom = some amount → schedulesOf denom items ≠ []) ∧
      ∀ l, l.Perm vestingSchedules →
        (keeperAccount hvalid l).validate = .ok () ∧
        (∀ denom, (keeperAccount hvalid l).getVestingSchedule denom =
          if schedulesOf denom items = [] then none else some ⟨denom, schedulesOf denom items⟩) ∧
        VestsBy items (keeperAccount hvalid l) := by
  obtain ⟨addr, coins, amt, genAccount, supply, haccepted, rfl⟩ := addGenesisAccountCmd_ok h
  obtain rfl : amt = vestingAmt := Except.ok.inj (haccepted.parsedVesting.symm.trans hamt)
  rcases haccepted.account with ⟨htrue, _⟩ | ⟨_, haccount⟩
  · rw [hzero] at htrue
    cases htrue
  · obtain ⟨denomMap, hparse, hscheduled, _, _, rfl⟩ := vestingAccount_ok hzero haccount
    obtain ⟨items, hitems, hget⟩ := parseVestingSchedules_get hparse
    obtain ⟨hnodup, hall⟩ := GenesisAccount.validate_lazyGraded.mp haccepted.valid
    have hcovered : ∀ denom amount, amt.get denom = some amount → schedulesOf denom items ≠ [] := by
      intro denom amount hcoin hnil
      have hsome := hscheduled denom amount hcoin
      rw [hget, if_pos hnil] at hsome
      cases hsome
    -- the schedules of the map have distinct denoms, so a denom finds its own in any order
    have hfind : ∀ l, l.Perm (c.rangeSchedules denomMap) → ∀ denom,
        (keeperAccount hvalid l).getVestingSchedule denom =
          if schedulesOf denom items = [] then none
          else some ⟨denom, schedulesOf denom items⟩ := by
      intro l hperm denom
      refine (find?_perm hperm hnodup denom).trans ?_
      rw [find?_rangeSchedules, hget]
      split <;> rfl
    refine ⟨addr, items, c.rangeSchedules denomMap, haccepted.resolved, hitems, ?_, hcovered, ?_⟩
    · exact (c.accounts_perm _).mem_iff.mpr (List.mem_append_right _ (List.mem_singleton.mpr rfl))
    · intro l hperm
      have hkeeper : (keeperAccount hvalid l).validate = .ok () := by
        rw [keeperAccount_validate hvalid l (c.accAddressString addr)]
        exact GenesisAccount.validate_lazyGraded.mpr
          ⟨(hperm.map VestingSchedule.denom).nodup_iff.mpr hnodup,
            fun vs hvs => hall vs (hperm.mem_iff.mp hvs)⟩
      refine ⟨hkeeper, hfind l hperm, vestsBy_of_schedules hkeeper ?_⟩
      intro denom amount hcoin
      rw [hfind l hperm, if_neg (hcovered denom amount hcoin)]

/-- The account of the command vests by its flag. -/
theorem vesting_flag_accepted_small :
    ∃ file' items vestingSchedules,
      smallClient.Items emptyGenesis.genesisTime halfAndHalf.vestingSchedules items ∧
      .lazyGradedVestingAccount "acc1" (Coins.ofCoin microLunaDenom 3000000000)
        vestingSchedules ∈ GenesisFile.accounts file' ∧
      VestsBy items (keeperAccount threeThousand_valid vestingSchedules) := by
  have hsome : (smallClient.addGenesisAccountCmd emptyGenesis halfAndHalf).toOption.isSome := by
    decide +kernel
  obtain ⟨file', hfile⟩ := Option.isSome_iff_exists.mp hsome
  have hamt : smallClient.parseCoinsNormalized halfAndHalf.vestingAmt =
      .ok (Coins.ofCoin microLunaDenom 3000000000) := rfl
  obtain ⟨addr, items, l, haddr, hitems, hmem, _, hall⟩ := vesting_flag_accepted
    (Run.eq_ok_of_toOption hfile) hamt threeThousand_valid (by decide)
  cases haddr
  exact ⟨file', items, l, hitems, hmem, (hall l (.refl l)).2.2⟩

/-! ### Runs of the command -/

/-- What the client relies on: the address of an account is read back from its text, and no
    amount that is read is negative. -/
structure Lawful (c : Client) : Prop where
  resolved : ∀ {name addr}, c.resolve name = .ok addr →
    c.accAddressFromBech32 (c.accAddressString addr) = .ok addr
  amounts : ∀ {text coins}, c.parseCoinsNormalized text = .ok coins →
    ∀ {denom amount}, coins.get denom = some amount → 0 ≤ amount

/-- What the command checks of a vesting account: each of its coins has a schedule, its owner has
    coins, and of the denoms that the owner has no more vests than there is. -/
def Checked (balances : List Balance) : GenesisAccount → Prop
  | .baseAccount _ => True
  | .lazyGradedVestingAccount address originalVesting vestingSchedules =>
    (∀ denom amount, originalVesting.get denom = some amount →
      ∃ vs ∈ vestingSchedules, vs.denom = denom) ∧
    ∃ b ∈ balances, b.address = address ∧ b.coins.isZero = false ∧
      ∀ denom, b.coins.amountOf denom = 0 ∨
        originalVesting.amountOf denom ≤ b.coins.amountOf denom

/-- No more vests than the owner has, in any denom. -/
def Covered (balances : List Balance) : GenesisAccount → Prop
  | .baseAccount _ => True
  | .lazyGradedVestingAccount address originalVesting _ =>
    ∃ b ∈ balances, b.address = address ∧
      ∀ denom, originalVesting.amountOf denom ≤ b.coins.amountOf denom

/-- The owner has coins of every denom that vests. -/
def HasVestingDenoms (balances : List Balance) : GenesisAccount → Prop
  | .baseAccount _ => True
  | .lazyGradedVestingAccount address originalVesting _ =>
    ∃ b ∈ balances, b.address = address ∧
      ∀ denom, 0 < originalVesting.amountOf denom → b.coins.amountOf denom ≠ 0

/-- What `auth` and `bank` ask of the genesis file at the start of the chain, and what the command
    has checked of its vesting accounts. -/
structure Sound (c : Client) (file : GenesisFile) : Prop where
  accounts_distinct : (file.accounts.map c.getAddress).Nodup
  accounts_valid : ∀ acc ∈ file.accounts, acc.validate = .ok ()
  balances_distinct : (file.balances.map Balance.address).Nodup
  balances_owned : ∀ b ∈ file.balances, ∃ acc ∈ file.accounts, acc.address = b.address
  supply : ∀ denom, file.supply.amountOf denom =
    (file.balances.map (fun b => b.coins.amountOf denom)).sum
  checked : ∀ acc ∈ file.accounts, Checked file.balances acc

theorem Checked.mono {balances balances' : List Balance} {acc : GenesisAccount}
    (h : Checked balances acc) (hsub : balances ⊆ balances') : Checked balances' acc := by
  cases acc with
  | baseAccount address => trivial
  | lazyGradedVestingAccount address originalVesting vestingSchedules =>
    obtain ⟨hscheduled, b, hb, hrest⟩ := h
    exact ⟨hscheduled, b, hsub hb, hrest⟩

/-- The check passes over the denoms that the owner does not have: an account that passed is
    covered if there are no such denoms, and only then. -/
theorem Checked.covered_iff {balances : List Balance} {acc : GenesisAccount}
    (h : Checked balances acc) (hdistinct : (balances.map Balance.address).Nodup) :
    Covered balances acc ↔ HasVestingDenoms balances acc := by
  cases acc with
  | baseAccount address => exact Iff.rfl
  | lazyGradedVestingAccount address originalVesting vestingSchedules =>
    obtain ⟨_, b, hb, howner, _, hle⟩ := h
    have hunique : ∀ b' ∈ balances, b'.address = address → b' = b := fun b' hb' howner' =>
      List.inj_on_of_nodup_map hdistinct hb' hb (howner'.trans howner.symm)
    constructor
    · rintro ⟨b', hb', howner', hcovers⟩
      refine ⟨b', hb', howner', ?_⟩
      intro denom hpos hzero
      have hle' := hcovers denom
      omega
    · rintro ⟨b', hb', howner', hhas⟩
      obtain rfl := hunique b' hb' howner'
      refine ⟨b', hb', howner', ?_⟩
      intro denom
      rcases hle denom with hzero | hle
      · by_contra hless
        exact hhas denom (by omega) hzero
      · exact hle

theorem getAddress_of_accepted {file : GenesisFile} {args : AddGenesisAccountArgs} {addr : AccAddr}
    {coins vestingAmt : Coins} {genAccount : GenesisAccount} {supply : Coins} (hlaw : c.Lawful)
    (h : c.Accepted file args addr coins vestingAmt genAccount supply) :
    genAccount.address = c.accAddressString addr ∧ c.getAddress genAccount = addr := by
  have haddress : genAccount.address = c.accAddressString addr := by
    rcases h.account with ⟨_, rfl⟩ | ⟨hzero, haccount⟩
    · rfl
    · obtain ⟨_, _, _, _, _, rfl⟩ := vestingAccount_ok hzero haccount
      rfl
  refine ⟨haddress, ?_⟩
  unfold getAddress
  rw [haddress, hlaw.resolved h.resolved]

theorem checked_of_accepted {file : GenesisFile} {args : AddGenesisAccountArgs} {addr : AccAddr}
    {coins vestingAmt : Coins} {genAccount : GenesisAccount} {supply : Coins} (hlaw : c.Lawful)
    (h : c.Accepted file args addr coins vestingAmt genAccount supply) {balances : List Balance}
    (hmem : ⟨c.accAddressString addr, coins⟩ ∈ balances) : Checked balances genAccount := by
  rcases h.account with ⟨_, rfl⟩ | ⟨hzero, haccount⟩
  · trivial
  · obtain ⟨denomMap, _, hscheduled, hcoins, hle, rfl⟩ := vestingAccount_ok hzero haccount
    refine ⟨?_, _, hmem, rfl, hcoins, ?_⟩
    · intro denom amount hget
      have hfind := find?_rangeSchedules (c := c) denomMap denom
      obtain ⟨vs, hvs⟩ := Option.isSome_iff_exists.mp (hscheduled denom amount hget)
      rw [hvs] at hfind
      exact ⟨_, List.mem_of_find?_eq_some hfind, rfl⟩
    · intro denom
      cases hget : vestingAmt.get denom with
      | none =>
        -- a denom that does not vest
        right
        rw [Coins.amountOf_of_get_none hget]
        cases hcoin : coins.get denom with
        | none => exact (Coins.amountOf_of_get_none hcoin).ge
        | some amount =>
          rw [Coins.amountOf_of_get hcoin]
          exact hlaw.amounts h.parsed hcoin
      | some amount =>
        rw [Coins.amountOf_of_get hget]
        exact hle denom amount hget

/-- One accepted command keeps the file sound. -/
theorem addGenesisAccountCmd_sound {file file' : GenesisFile} {args : AddGenesisAccountArgs}
    (hlaw : c.Lawful) (hsound : Sound c file)
    (h : c.addGenesisAccountCmd file args = .ok file') : Sound c file' := by
  obtain ⟨addr, coins, vestingAmt, genAccount, supply, haccepted, rfl⟩ := addGenesisAccountCmd_ok h
  obtain ⟨haddress, hget⟩ := getAddress_of_accepted hlaw haccepted
  have haccounts := c.accounts_perm (file.accounts ++ [genAccount])
  have hbalances := c.balances_perm (file.balances ++ [⟨c.accAddressString addr, coins⟩])
  have hold : file.balances ⊆
      c.sanitizeGenesisBalances (file.balances ++ [⟨c.accAddressString addr, coins⟩]) :=
    fun b hb => hbalances.mem_iff.mpr (List.mem_append_left _ hb)
  have hnew : (⟨c.accAddressString addr, coins⟩ : Balance) ∈
      c.sanitizeGenesisBalances (file.balances ++ [⟨c.accAddressString addr, coins⟩]) :=
    hbalances.mem_iff.mpr (List.mem_append_right _ (List.mem_singleton.mpr rfl))
  -- an owner of coins has an account, so a new account has no coins yet
  have hunowned : ∀ b ∈ file.balances, b.address ≠ c.accAddressString addr := by
    intro b hb heq
    obtain ⟨acc, hacc, howner⟩ := hsound.balances_owned b hb
    refine haccepted.fresh acc hacc ?_
    unfold getAddress
    rw [howner, heq, hlaw.resolved haccepted.resolved]
  refine ⟨?_, ?_, ?_, ?_, ?_, ?_⟩
  · rw [(haccounts.map c.getAddress).nodup_iff, List.map_append, List.nodup_append']
    refine ⟨hsound.accounts_distinct, List.nodup_singleton _, ?_⟩
    intro a ha hnew
    obtain ⟨acc, hacc, rfl⟩ := List.mem_map.mp ha
    exact haccepted.fresh acc hacc ((List.mem_singleton.mp hnew).trans hget)
  · intro acc hacc
    rcases List.mem_append.mp (haccounts.mem_iff.mp hacc) with hacc | hacc
    · exact hsound.accounts_valid acc hacc
    · rw [List.mem_singleton.mp hacc]
      exact haccepted.valid
  · rw [(hbalances.map Balance.address).nodup_iff, List.map_append, List.nodup_append']
    refine ⟨hsound.balances_distinct, List.nodup_singleton _, ?_⟩
    intro a ha hnew
    obtain ⟨b, hb, rfl⟩ := List.mem_map.mp ha
    exact hunowned b hb (List.mem_singleton.mp hnew)
  · intro b hb
    rcases List.mem_append.mp (hbalances.mem_iff.mp hb) with hb | hb
    · obtain ⟨acc, hacc, howner⟩ := hsound.balances_owned b hb
      exact ⟨acc, haccounts.mem_iff.mpr (List.mem_append_left _ hacc), howner⟩
    · rw [List.mem_singleton.mp hb]
      exact ⟨genAccount, haccounts.mem_iff.mpr
        (List.mem_append_right _ (List.mem_singleton.mpr rfl)), haddress⟩
  · intro denom
    obtain rfl := Coins.checkedAdd_ok haccepted.added
    rw [Coins.amountOf_add, hsound.supply, (hbalances.map _).sum_eq, List.map_append,
      List.sum_append]
    simp
  · intro acc hacc
    rcases List.mem_append.mp (haccounts.mem_iff.mp hacc) with hacc | hacc
    · exact (hsound.checked acc hacc).mono hold
    · rw [List.mem_singleton.mp hacc]
      exact checked_of_accepted hlaw haccepted hnew

theorem sound_run (hlaw : c.Lawful) {file : GenesisFile} (hsound : Sound c file)
    (commands : List AddGenesisAccountArgs) : Sound c (commands.foldl c.runCommand file) := by
  induction commands generalizing file with
  | nil => exact hsound
  | cons args rest ih =>
    rw [List.foldl_cons]
    apply ih
    unfold runCommand
    split
    · next file' h => exact addGenesisAccountCmd_sound hlaw hsound h
    · exact hsound

/-- The genesis file stays sound over any run of commands, accepted or not: no account is there
    twice, the supply is the sum of the balances, and the vesting accounts are valid and have
    passed the check.  Of these exactly the ones are covered by the balance of their owner that
    vest no denom of which the owner has nothing. -/
theorem genesis_accounts_run (hlaw : c.Lawful) {file : GenesisFile} (hsound : Sound c file)
    (commands : List AddGenesisAccountArgs) :
    Sound c (commands.foldl c.runCommand file) ∧
    ∀ acc ∈ (commands.foldl c.runCommand file).accounts,
      Covered (commands.foldl c.runCommand file).balances acc ↔
        HasVestingDenoms (commands.foldl c.runCommand file).balances acc := by
  have hrun := sound_run hlaw hsound commands
  exact ⟨hrun, fun acc hacc => (hrun.checked acc hacc).covered_iff hrun.balances_distinct⟩

theorem smallClient_lawful : Lawful smallClient := by
  refine ⟨?_, ?_⟩
  · intro name addr h
    unfold resolve smallClient at h
    by_cases hname : name = ""
    · simp only [hname] at h
      cases h
    · simp only [if_neg hname] at h
      cases h
      exact if_neg hname
  · intro text coins h denom amount hget
    unfold smallClient at h
    simp only at h
    split_ifs at h
    · cases h
      exact (threeThousand_valid.positive hget).le
    · cases h
      have hvalid : (Coins.ofCoin "ukrw" 1).Valid := Coins.valid_ofCoin (by decide) (by decide)
      exact (hvalid.positive hget).le
    · cases h
      cases hget

theorem emptyGenesis_sound (c : Client) : Sound c emptyGenesis :=
  ⟨List.nodup_nil, nofun, List.nodup_nil, nofun, fun _ => rfl, nofun⟩

theorem genesis_accounts_run_small :
    Sound smallClient
      ([halfAndHalf, halfAndHalf].foldl smallClient.runCommand emptyGenesis) :=
  (genesis_accounts_run smallClient_lawful (emptyGenesis_sound smallClient)
    [halfAndHalf, halfAndHalf]).1

-- an owner of nothing but one won vests 3000 luna: the check passes over the luna
example : (smallClient.addGenesisAccountCmd emptyGenesis
    { halfAndHalf with coins := "1ukrw" }).toOption.map (fun file =>
      (file.accounts.length, file.balances)) = some (1, [⟨"acc1", Coins.ofCoin "ukrw" 1⟩]) := by
  decide +kernel

end Client

end TerraClassic.Vesting
