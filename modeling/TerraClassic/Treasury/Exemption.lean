import TerraClassic.Ante.Tax
import TerraClassic.Lib.Simulation
import TerraClassic.Treasury.Genesis

/-! # The burn tax exemption list under governance

    `x/treasury/types/gov.go` and `proposal_handler.go`: proposals add addresses to the
    exemption list or remove them.  A proposal is checked when it is submitted and executed
    when it has passed, in a context of its own that is written back only without an error.

    The list is kept by the text of an address; the codec only checks the text.  A panic
    in a handler halts the chain.

    * `Executes`: a passed addition always goes through, a removal exactly when it names
      listed addresses and none of them twice.
    * `exemption_list_run`: no run of proposals panics, and after each an address is on
      the list exactly when the last executed proposal that names it added it.
-/

namespace TerraClassic.Treasury

/-- The registered errors of the handlers. -/
inductive ExemptionErrorKind where
  | noSuchBurnTaxExemptionAddress
  | invalidAddress
  | invalidProposalContent
  | unknownRequest
  deriving DecidableEq, Repr

abbrev ExemptionError : Type := SdkError ExemptionErrorKind

/-! ### Proposals -/

/-- The content of a proposal that is routed to the treasury. -/
inductive Content where
  | addBurnTaxExemptionAddress (title description : String) (addresses : List String)
  | removeBurnTaxExemptionAddress (title description : String) (addresses : List String)
  | other (typeName : String)
  deriving DecidableEq

/-- The check of the addresses that both `ValidateBasic` end with. -/
def validateAddresses (bech32 : Bech32) (addresses : List String) : Except ExemptionError Unit :=
  addresses.forM (fun address =>
    match bech32.accAddressFromBech32 address with
    | .error err => .error (.wrap .invalidAddress (err ++ ": " ++ address))
    | .ok _ => .ok ())

/-- `ValidateBasic`, after the check of title and description that the gov module has for
    every content. -/
def Content.validateBasic (bech32 : Bech32)
    (validateAbstract : String → String → Except String Unit) :
    Content → Except ExemptionError Unit
  | .addBurnTaxExemptionAddress title description addresses => do
    SdkError.wrapErr .invalidProposalContent id (validateAbstract title description)
    validateAddresses bech32 addresses
  | .removeBurnTaxExemptionAddress title description addresses => do
    SdkError.wrapErr .invalidProposalContent id (validateAbstract title description)
    validateAddresses bech32 addresses
  -- not a content of this module
  | .other _ => .ok ()

/-- `NewProposalHandler`, on the exemption list.  `none` is a panic. -/
def newProposalHandler (bech32 : Bech32) (exempt : SortedMap String Unit) :
    Content → Option (Except ExemptionError (SortedMap String Unit))
  | .addBurnTaxExemptionAddress _ _ addresses =>
    (addresses.foldlM (addBurnTaxExemptionAddress bech32) exempt).map .ok
  | .removeBurnTaxExemptionAddress _ _ addresses =>
    (removeAll bech32 addresses exempt).map
      (Except.mapError (.wrap .noSuchBurnTaxExemptionAddress))
  | .other typeName => some (.error
      (.wrap .unknownRequest ("unrecognized treasury proposal content type: " ++ typeName)))

/-! ### Runs of proposals -/

/-- The list, the proposals that are voted on, and those that were executed, in order. -/
structure GovState where
  exempt : SortedMap String Unit
  proposals : SortedMap ℕ Content
  executed : List Content

inductive GovEvent where
  /-- A proposal is submitted under a new number. -/
  | submit (id : ℕ) (content : Content)
  /-- A proposal has passed. -/
  | pass (id : ℕ)
  /-- A proposal was voted down. -/
  | reject (id : ℕ)
  deriving DecidableEq

/-- What the gov module does.  `none` is a panic in the end blocker. -/
def govStep (bech32 : Bech32) (validateAbstract : String → String → Except String Unit)
    (s : GovState) : GovEvent → Option GovState
  | .submit id content =>
    match content.validateBasic bech32 validateAbstract with
    | .error _ => some s
    | .ok () => some { s with proposals := s.proposals.set id content }
  | .pass id =>
    match s.proposals.get id with
    | none => some s
    | some content =>
      match newProposalHandler bech32 s.exempt content with
      | none => none
      | some (.ok exempt) => some ⟨exempt, s.proposals.erase id, s.executed ++ [content]⟩
      -- what the handler wrote before its error is dropped
      | some (.error _) => some { s with proposals := s.proposals.erase id }
  | .reject id => some { s with proposals := s.proposals.erase id }

/-- What a content decides about an address. -/
def Content.decision (address : String) : Content → Option Bool
  | .addBurnTaxExemptionAddress _ _ addresses => if address ∈ addresses then some true else none
  | .removeBurnTaxExemptionAddress _ _ addresses =>
    if address ∈ addresses then some false else none
  | .other _ => none

/-- The last decision about an address; before any, what it was at the start. -/
def lastDecision (address : String) (start : Bool) (executed : List Content) : Bool :=
  executed.foldl (fun listed content => (content.decision address).getD listed) start

/-- The addresses are listed, and none of them comes twice. -/
def Removable (exempt : SortedMap String Unit) (addresses : List String) : Prop :=
  addresses.Nodup ∧ ∀ address ∈ addresses, (exempt.get address).isSome

/-- When a content that has passed is executed. -/
def Content.Executes (exempt : SortedMap String Unit) : Content → Prop
  | .addBurnTaxExemptionAddress _ _ _ => True
  | .removeBurnTaxExemptionAddress _ _ addresses => Removable exempt addresses
  | .other _ => False

/-! ### The handlers -/

section Handlers

variable {bech32 : Bech32} {exempt : SortedMap String Unit} {addresses : List String}

/-- Every text of a list is an address. -/
def Parse (bech32 : Bech32) (addresses : List String) : Prop :=
  ∀ address ∈ addresses, ∃ addr, bech32.accAddressFromBech32 address = .ok addr

theorem validateAddresses_ok (h : validateAddresses bech32 addresses = .ok ()) :
    Parse bech32 addresses := by
  intro address hmem
  have haddress := Run.forM_eq_ok.mp h address hmem
  cases hparse : bech32.accAddressFromBech32 address with
  | error err =>
    rw [hparse] at haddress
    cases haddress
  | ok addr => exact ⟨addr, rfl⟩

/-- Additions of texts that parse go through. -/
theorem addAll_eq (h : Parse bech32 addresses) :
    addresses.foldlM (addBurnTaxExemptionAddress bech32) exempt =
      some (addresses.foldl (fun exempt address => exempt.set address ()) exempt) := by
  induction addresses generalizing exempt with
  | nil => rfl
  | cons address rest ih =>
    obtain ⟨addr, haddr⟩ := h address List.mem_cons_self
    have hadd : addBurnTaxExemptionAddress bech32 exempt address =
        some (exempt.set address ()) := by
      unfold addBurnTaxExemptionAddress
      rw [haddr]
    rw [List.foldlM_cons, hadd]
    exact ih (fun a ha => h a (List.mem_cons_of_mem address ha))

/-- One removal of a text that parses. -/
theorem remove_eq (exempt : SortedMap String Unit) {address : String}
    (h : ∃ addr, bech32.accAddressFromBech32 address = .ok addr) :
    removeBurnTaxExemptionAddress bech32 exempt address =
      if (exempt.get address).isNone then some (.error ("address = " ++ address))
      else some (.ok (exempt.erase address)) := by
  obtain ⟨addr, haddr⟩ := h
  unfold removeBurnTaxExemptionAddress
  rw [haddr]

/-- After the first of the addresses is removed, the others have to be removable. -/
theorem removable_cons_iff {address : String} {rest : List String}
    (hget : (exempt.get address).isSome) :
    Removable exempt (address :: rest) ↔ Removable (exempt.erase address) rest := by
  constructor
  · rintro ⟨hnodup, hall⟩
    obtain ⟨hnot, hnodup⟩ := List.nodup_cons.mp hnodup
    refine ⟨hnodup, ?_⟩
    intro a ha
    have hne : a ≠ address := by
      rintro rfl
      exact hnot ha
    rw [SortedMap.get_erase_ne exempt hne]
    exact hall a (List.mem_cons_of_mem address ha)
  · rintro ⟨hnodup, hall⟩
    have hne : ∀ a ∈ rest, a ≠ address := by
      rintro a ha rfl
      have := hall a ha
      rw [SortedMap.get_erase_self] at this
      cases this
    refine ⟨List.nodup_cons.mpr ⟨fun hmem => hne address hmem rfl, hnodup⟩, ?_⟩
    intro a ha
    rcases List.mem_cons.mp ha with rfl | ha
    · exact hget
    · rw [← SortedMap.get_erase_ne exempt (hne a ha)]
      exact hall a ha

/-- A removal of texts that parse takes all of them off the list, or fails at one of them. -/
theorem removeAll_cases (exempt : SortedMap String Unit) (h : Parse bech32 addresses) :
    (Removable exempt addresses ∧
      removeAll bech32 addresses exempt = some (.ok (addresses.foldl SortedMap.erase exempt))) ∨
    (¬ Removable exempt addresses ∧ ∃ address ∈ addresses,
      removeAll bech32 addresses exempt = some (.error ("address = " ++ address))) := by
  induction addresses generalizing exempt with
  | nil => exact Or.inl ⟨⟨List.nodup_nil, fun _ h => absurd h List.not_mem_nil⟩, rfl⟩
  | cons address rest ih =>
    have hremove := remove_eq exempt (h address List.mem_cons_self)
    have hrest : Parse bech32 rest := fun a ha => h a (List.mem_cons_of_mem address ha)
    cases hget : exempt.get address with
    | none =>
      refine Or.inr ⟨?_, address, List.mem_cons_self, ?_⟩
      · -- the first address is not on the list
        rintro ⟨_, hall⟩
        have := hall address List.mem_cons_self
        rw [hget] at this
        cases this
      · rw [hget] at hremove
        simp only [removeAll, hremove, Option.isNone_none, if_true]
    | some mark =>
      rw [removable_cons_iff (by rw [hget]; rfl)]
      have hstep : removeAll bech32 (address :: rest) exempt =
          removeAll bech32 rest (exempt.erase address) := by
        rw [hget] at hremove
        simp only [removeAll, hremove, Option.isNone_some, Bool.false_eq_true, if_false]
      rw [hstep]
      -- the rest is removed from the list without the first
      rcases ih (exempt.erase address) hrest with ⟨hok, heq⟩ | ⟨hbad, a, ha, heq⟩
      · exact Or.inl ⟨hok, heq⟩
      · exact Or.inr ⟨hbad, a, List.mem_cons_of_mem address ha, heq⟩

end Handlers

/-! ### Runs -/

section Runs

variable {bech32 : Bech32} {validateAbstract : String → String → Except String Unit}

/-- The addresses a content names. -/
def Content.addresses : Content → List String
  | .addBurnTaxExemptionAddress _ _ addresses => addresses
  | .removeBurnTaxExemptionAddress _ _ addresses => addresses
  | .other _ => []

theorem Content.validateBasic_ok {content : Content}
    (h : content.validateBasic bech32 validateAbstract = .ok ()) :
    Parse bech32 content.addresses := by
  cases content with
  | addBurnTaxExemptionAddress title description addresses =>
    exact validateAddresses_ok (Run.check_eq_ok.mp h).2
  | removeBurnTaxExemptionAddress title description addresses =>
    exact validateAddresses_ok (Run.check_eq_ok.mp h).2
  | other typeName => exact fun _ h => absurd h List.not_mem_nil

/-- What a proposal with good addresses can do when it has passed: it decides about the
    addresses it names and no others, or it fails without a panic. -/
theorem newProposalHandler_cases {content : Content} (exempt : SortedMap String Unit)
    (h : Parse bech32 content.addresses) :
    (content.Executes exempt ∧
      ∃ exempt', newProposalHandler bech32 exempt content = some (.ok exempt') ∧
        ∀ address, (exempt'.get address).isSome =
          (content.decision address).getD (exempt.get address).isSome) ∨
    (¬ content.Executes exempt ∧
      ∃ err, newProposalHandler bech32 exempt content = some (.error err)) := by
  cases content with
  | addBurnTaxExemptionAddress title description addresses =>
    refine Or.inl ⟨trivial,
      addresses.foldl (fun exempt address => exempt.set address ()) exempt, ?_, ?_⟩
    · have hadd : addresses.foldlM (addBurnTaxExemptionAddress bech32) exempt = _ := addAll_eq h
      simp only [newProposalHandler, hadd, Option.map_some]
    intro address
    rw [SortedMap.get_foldl_set (fun _ => ()) addresses exempt address]
    show _ = ((if address ∈ addresses then some true else none).getD _)
    split
    · rfl
    · rfl
  | removeBurnTaxExemptionAddress title description addresses =>
    rcases removeAll_cases exempt h with ⟨hok, heq⟩ | ⟨hbad, a, _, heq⟩
    · refine Or.inl ⟨hok, addresses.foldl SortedMap.erase exempt,
        congrArg (Option.map (Except.mapError _)) heq, ?_⟩
      intro address
      rw [SortedMap.get_foldl_erase]
      show (if address ∈ addresses then none else exempt.get address).isSome =
        (if address ∈ addresses then some false else none).getD _
      split
      · rfl
      · rfl
    · exact Or.inr ⟨hbad, _, congrArg (Option.map (Except.mapError _)) heq⟩
  | other typeName => exact Or.inr ⟨id, _, rfl⟩

/-- What a run keeps: open proposals name good addresses, and the list is what the executed
    ones made of the list at the start. -/
structure GovInv (bech32 : Bech32) (start : SortedMap String Unit) (s : GovState) : Prop where
  parse : ∀ id content, s.proposals.get id = some content → Parse bech32 content.addresses
  listed : ∀ address, (s.exempt.get address).isSome =
    lastDecision address (start.get address).isSome s.executed

theorem GovInv.erase {start : SortedMap String Unit} {s : GovState}
    (h : GovInv bech32 start s) (id : ℕ) :
    GovInv bech32 start { s with proposals := s.proposals.erase id } := by
  refine ⟨?_, h.listed⟩
  intro id' content hget
  rw [SortedMap.get_erase] at hget
  split at hget
  · cases hget
  · exact h.parse id' content hget

/-- What a proposal that has passed does to the state. -/
theorem pass_cases {start : SortedMap String Unit} {s : GovState} (h : GovInv bech32 start s)
    {id : ℕ} {content : Content} (hget : s.proposals.get id = some content) :
    ∃ s', govStep bech32 validateAbstract s (.pass id) = some s' ∧ GovInv bech32 start s' ∧
      (content.Executes s.exempt ∧ s'.executed = s.executed ++ [content] ∨
        ¬ content.Executes s.exempt ∧ s'.executed = s.executed ∧ s'.exempt = s.exempt) := by
  simp only [govStep, hget]
  rcases newProposalHandler_cases s.exempt (h.parse id content hget) with
    ⟨hexec, exempt, hok, hexempt⟩ | ⟨hexec, err, herr⟩
  -- a handler that fails leaves the list, and the proposal is closed either way
  · refine ⟨⟨exempt, s.proposals.erase id, s.executed ++ [content]⟩, by simp only [hok],
      ⟨(h.erase id).parse, ?_⟩, Or.inl ⟨hexec, rfl⟩⟩
    intro address
    rw [hexempt, h.listed]
    unfold lastDecision
    rw [List.foldl_append, List.foldl_cons, List.foldl_nil]
  · exact ⟨{ s with proposals := s.proposals.erase id }, by simp only [herr], h.erase id,
      Or.inr ⟨hexec, rfl, rfl⟩⟩

/-- One step never panics and keeps the invariant. -/
theorem govStep_inv {start : SortedMap String Unit} (s : GovState) (event : GovEvent)
    (h : GovInv bech32 start s) :
    ∃ s', govStep bech32 validateAbstract s event = some s' ∧ GovInv bech32 start s' := by
  cases event with
  | submit id content =>
    simp only [govStep]
    cases hcheck : content.validateBasic bech32 validateAbstract with
    | error err => exact ⟨s, rfl, h⟩
    | ok u =>
      -- only proposals that pass the basic check are stored
      refine ⟨_, rfl, ?_, h.listed⟩
      intro id' content' hget
      rw [SortedMap.get_set] at hget
      split at hget
      · cases hget
        exact Content.validateBasic_ok hcheck
      · exact h.parse id' content' hget
  | pass id =>
    cases hget : s.proposals.get id with
    | none => exact ⟨s, by simp only [govStep, hget], h⟩
    | some content =>
      obtain ⟨s', hs', hinv, _⟩ := pass_cases h hget
      exact ⟨s', hs', hinv⟩
  | reject id => exact ⟨_, rfl, h.erase id⟩

/-- In every run of submissions and decisions from any exemption list no proposal panics.  In
    the state reached, the treasury answers `HasBurnTaxExemptionAddress` by the last executed
    proposal that names the text of an address (and by the list at the start where none does).
    An open proposal that passes there is executed if `Executes` says so; otherwise the list
    stays as it is. -/
theorem exemption_list_run (bech32 : Bech32)
    (validateAbstract : String → String → Except String Unit) (start : SortedMap String Unit)
    (events : List GovEvent) :
    ∃ s, Run.run (govStep bech32 validateAbstract) events ⟨start, ∅, []⟩ = some s ∧
      (∀ (tk : Ante.TreasuryKeeper) (addresses : List String),
        Ante.hasBurnTaxExemptionAddress { tk with burnTaxExemptionList := s.exempt.keys }
          addresses = addresses.all (fun address =>
            lastDecision address (start.get address).isSome s.executed)) ∧
      ∀ id content, s.proposals.get id = some content →
        ∃ s', govStep bech32 validateAbstract s (.pass id) = some s' ∧
          (content.Executes s.exempt ∧ s'.executed = s.executed ++ [content] ∨
            ¬ content.Executes s.exempt ∧ s'.executed = s.executed ∧ s'.exempt = s.exempt) := by
  have hstart : GovInv bech32 start ⟨start, ∅, []⟩ :=
    ⟨fun _ _ hget => (by cases hget), fun _ => rfl⟩
  obtain ⟨s, hrun, hs⟩ := Simulation.exists_run govStep_inv events hstart
  refine ⟨s, hrun, ?_, ?_⟩
  · intro tk addresses
    unfold Ante.hasBurnTaxExemptionAddress
    refine congrArg addresses.all (funext fun address => ?_)
    rw [← hs.listed, Bool.eq_iff_iff, List.contains_iff_mem, SortedMap.mem_keys]
  · intro id content hget
    obtain ⟨s', hs', _, hcases⟩ := pass_cases hs hget
    exact ⟨s', hs', hcases⟩

end Runs

end TerraClassic.Treasury
