import TerraClassic.Lib.Run
import TerraClassic.Oracle.Types

/-! # The two checks of the oracle parameters

    `Params.Validate` sees the whole parameter set and runs at genesis.  A
    governance proposal writes one parameter at a time, and the value it writes
    is checked by the validator that `ParamSetPairs` registers for its key,
    which sees that value only.
-/

namespace TerraClassic.Oracle

/-! ### Defaults -/

/-- `DefaultTobinTax`. -/
def defaultTobinTax : Dec := Dec.withPrec 25 4

/-- `DefaultParams`. -/
def defaultParams : Params where
  votePeriod := 5
  voteThreshold := Dec.withPrec 50 2
  rewardBand := Dec.withPrec 2 2
  rewardDistributionWindow := 10 * 60 * 24 * 365
  whitelist := [⟨"ukrw", defaultTobinTax⟩, ⟨"usdr", defaultTobinTax⟩, ⟨"uusd", defaultTobinTax⟩,
    ⟨"umnt", Dec.withPrec (25 * 8) 4⟩]
  slashFraction := Dec.withPrec 1 4
  slashWindow := blocksPerWeek
  minValidPerWindow := Dec.withPrec 5 2

/-! ### The validators of `ParamSetPairs` -/

/-- The check of a length that must be positive. -/
def validatePositive (name : String) (v : UInt64) : Except String Unit :=
  if v = 0 then .error (name ++ " must be positive: " ++ toString v) else .ok ()

def validateVotePeriod : UInt64 → Except String Unit := validatePositive "vote period"

def validateRewardDistributionWindow : UInt64 → Except String Unit :=
  validatePositive "reward distribution window"

def validateSlashWindow : UInt64 → Except String Unit := validatePositive "slash window"

/-- `validateVoteThreshold`.  33 percent itself passes here, which it does not in
    `Params.Validate`; the upper bound is only here. -/
def validateVoteThreshold (v : Dec) : Except String Unit :=
  if v < Dec.withPrec 33 2 then .error ("vote threshold must be bigger than 33%: " ++ v.string)
  else if v > Dec.one then .error ("vote threshold too large: " ++ v.string)
  else .ok ()

/-- The check of a fraction. -/
def validateFraction (name : String) (v : Dec) : Except String Unit :=
  if v.isNegative then .error (name ++ " must be positive: " ++ v.string)
  else if v > Dec.one then .error (name ++ " is too large: " ++ v.string)
  else .ok ()

def validateRewardBand : Dec → Except String Unit := validateFraction "reward band"

def validateSlashFraction : Dec → Except String Unit := validateFraction "slash fraction"

def validateMinValidPerWindow : Dec → Except String Unit :=
  validateFraction "min valid per window"

/-- `validateWhitelist`: the loop of `Params.Validate` once more. -/
def validateWhitelist (v : List DenomItem) : Except String Unit := v.forM validateDenomItem

/-! ### Governance updates -/

/-- A new value for one key of `ParamSetPairs`. -/
inductive ParamChange where
  | votePeriod (v : UInt64)
  | voteThreshold (v : Dec)
  | rewardBand (v : Dec)
  | rewardDistributionWindow (v : UInt64)
  | whitelist (v : List DenomItem)
  | slashFraction (v : Dec)
  | slashWindow (v : UInt64)
  | minValidPerWindow (v : Dec)
  deriving DecidableEq

/-- The validator registered for the key. -/
def ParamChange.validate : ParamChange → Except String Unit
  | .votePeriod v => validateVotePeriod v
  | .voteThreshold v => validateVoteThreshold v
  | .rewardBand v => validateRewardBand v
  | .rewardDistributionWindow v => validateRewardDistributionWindow v
  | .whitelist v => validateWhitelist v
  | .slashFraction v => validateSlashFraction v
  | .slashWindow v => validateSlashWindow v
  | .minValidPerWindow v => validateMinValidPerWindow v

/-- The parameter set with the new value. -/
def Params.write (p : Params) : ParamChange → Params
  | .votePeriod v => { p with votePeriod := v }
  | .voteThreshold v => { p with voteThreshold := v }
  | .rewardBand v => { p with rewardBand := v }
  | .rewardDistributionWindow v => { p with rewardDistributionWindow := v }
  | .whitelist v => { p with whitelist := v }
  | .slashFraction v => { p with slashFraction := v }
  | .slashWindow v => { p with slashWindow := v }
  | .minValidPerWindow v => { p with minValidPerWindow := v }

/-- `ParamSetPairs`: each key with the value of the set. -/
def Params.paramSetPairs (p : Params) : List ParamChange :=
  [.votePeriod p.votePeriod, .voteThreshold p.voteThreshold, .rewardBand p.rewardBand,
    .rewardDistributionWindow p.rewardDistributionWindow, .whitelist p.whitelist,
    .slashFraction p.slashFraction, .slashWindow p.slashWindow,
    .minValidPerWindow p.minValidPerWindow]

/-- The checks of `SetParamSet`. -/
def Params.checkPairs (p : Params) : Except String Unit :=
  p.paramSetPairs.forM ParamChange.validate

/-- `Subspace.Update`; `none` is a refused value. -/
def Params.update (p : Params) (c : ParamChange) : Option Params :=
  match c.validate with
  | .ok () => some (p.write c)
  | .error _ => none

/-! ### What the checks accept -/

/-- A check in front of the others. -/
theorem check_eq_ok {c : Prop} [Decidable c] {e : String} {rest : Unit → Except String Unit} :
    (if c then (throw e >>= rest) else rest ()) = .ok () ↔ ¬ c ∧ rest () = .ok () := by
  by_cases hc : c
  · rw [if_pos hc]
    constructor
    · intro h
      cases h
    · intro h
      exact absurd hc h.1
  · rw [if_neg hc]
    exact ⟨fun h => ⟨hc, h⟩, fun h => h.2⟩

/-- A value inside `[0, 1]`. -/
def InUnit (d : Dec) : Prop := 0 ≤ d.i ∧ d ≤ Dec.one

theorem notInUnit_eq_false {d : Dec} : notInUnit d = false ↔ InUnit d := by
  unfold notInUnit InUnit Dec.isNegative
  rw [Bool.or_eq_false_iff, decide_eq_false_iff_not, decide_eq_false_iff_not, not_lt, not_lt]
  exact And.comm

/-- A whitelist entry that passes. -/
def DenomItem.Valid (item : DenomItem) : Prop :=
  InUnit item.tobinTax ∧ item.name.utf8ByteSize ≠ 0

theorem validateDenomItem_eq_ok {item : DenomItem} :
    validateDenomItem item = .ok () ↔ item.Valid := by
  unfold validateDenomItem DenomItem.Valid
  rw [check_eq_ok, Bool.not_eq_true, notInUnit_eq_false]
  by_cases hname : item.name.utf8ByteSize = 0
  · rw [if_pos hname]
    constructor
    · intro h
      cases h.2
    · intro h
      exact absurd hname h.2
  · rw [if_neg hname]
    exact ⟨fun h => ⟨h.1, hname⟩, fun h => ⟨h.1, rfl⟩⟩

theorem validateWhitelist_eq_ok {v : List DenomItem} :
    validateWhitelist v = .ok () ↔ ∀ item ∈ v, item.Valid := by
  unfold validateWhitelist
  rw [Run.forM_eq_ok]
  simp only [validateDenomItem_eq_ok]

theorem Params.checkPairs_eq_ok {p : Params} :
    p.checkPairs = .ok () ↔ ∀ c ∈ p.paramSetPairs, c.validate = .ok () := Run.forM_eq_ok

theorem validateFraction_eq_ok {name : String} {v : Dec} :
    validateFraction name v = .ok () ↔ InUnit v := by
  unfold validateFraction InUnit Dec.isNegative
  by_cases hneg : v.i < 0
  · simp [hneg]
  · by_cases hone : v > Dec.one
    · simp [hneg, hone]
    · simp [hneg, hone, not_lt.mp hneg, not_lt.mp hone]

theorem validatePositive_eq_ok {name : String} {v : UInt64} :
    validatePositive name v = .ok () ↔ v ≠ 0 := by
  unfold validatePositive
  by_cases h : v = 0
  · simp [h]
  · simp [h]

theorem validateVoteThreshold_eq_ok {v : Dec} :
    validateVoteThreshold v = .ok () ↔ Dec.withPrec 33 2 ≤ v ∧ v ≤ Dec.one := by
  unfold validateVoteThreshold
  by_cases hlow : v < Dec.withPrec 33 2
  · simp [hlow]
  · by_cases hhigh : v > Dec.one
    · simp [hlow, hhigh]
    · simp [hlow, hhigh, not_lt.mp hlow, not_lt.mp hhigh]

/-- What `Params.Validate` accepts. -/
structure Params.Valid (p : Params) : Prop where
  votePeriod : p.votePeriod ≠ 0
  voteThreshold : Dec.withPrec 33 2 < p.voteThreshold
  rewardBand : InUnit p.rewardBand
  rewardDistributionWindow : p.votePeriod ≤ p.rewardDistributionWindow
  slashFraction : InUnit p.slashFraction
  slashWindow : p.votePeriod ≤ p.slashWindow
  minValidPerWindow : InUnit p.minValidPerWindow
  whitelist : ∀ item ∈ p.whitelist, item.Valid

theorem Params.validate_eq_ok {p : Params} : p.validate = .ok () ↔ p.Valid := by
  unfold Params.validate
  rw [check_eq_ok, check_eq_ok, check_eq_ok, check_eq_ok, check_eq_ok, check_eq_ok, check_eq_ok,
    ← validateWhitelist, validateWhitelist_eq_ok]
  simp only [Bool.not_eq_true, notInUnit_eq_false, not_le, UInt64.not_lt]
  constructor
  · rintro ⟨h₁, h₂, h₃, h₄, h₅, h₆, h₇, h₈⟩
    exact ⟨h₁, h₂, h₃, h₄, h₅, h₆, h₇, h₈⟩
  · rintro ⟨h₁, h₂, h₃, h₄, h₅, h₆, h₇, h₈⟩
    exact ⟨h₁, h₂, h₃, h₄, h₅, h₆, h₇, h₈⟩

/-! ### Runs of updates -/

/-- A parameter set that passes `Params.Validate`, with what the end blocker relies
    on: a slash window has a vote period, a period pays out at most the whole pool. -/
structure Params.Consistent (p : Params) : Prop where
  validated : p.validate = .ok ()
  periodsPerWindow : 1 ≤ p.slashWindow.toNat / p.votePeriod.toNat
  rewardRatio : p.votePeriod.toNat ≤ p.rewardDistributionWindow.toNat
  voteThreshold : Dec.withPrec 33 2 < p.voteThreshold
  fractions : InUnit p.rewardBand ∧ InUnit p.slashFraction ∧ InUnit p.minValidPerWindow

theorem Params.consistent_iff {p : Params} : p.Consistent ↔ p.Valid := by
  constructor
  · intro h
    exact Params.validate_eq_ok.mp h.validated
  · intro h
    have hperiod : 0 < p.votePeriod.toNat := by
      rw [Nat.pos_iff_ne_zero]
      intro h0
      exact h.votePeriod (UInt64.toNat_inj.mp h0)
    refine ⟨Params.validate_eq_ok.mpr h, ?_, UInt64.le_iff_toNat_le.mp h.rewardDistributionWindow,
      h.voteThreshold, h.rewardBand, h.slashFraction, h.minValidPerWindow⟩
    rw [Nat.le_div_iff_mul_le hperiod, one_mul]
    exact UInt64.le_iff_toNat_le.mp h.slashWindow

/-- What the registered validators do not check: the relations between the vote
    period and the two windows, and that 33 percent is too low. -/
def RespectsOthers (p : Params) : ParamChange → Prop
  | .votePeriod v => v ≤ p.rewardDistributionWindow ∧ v ≤ p.slashWindow
  | .voteThreshold v => v ≠ Dec.withPrec 33 2
  | .rewardDistributionWindow v => p.votePeriod ≤ v
  | .slashWindow v => p.votePeriod ≤ v
  | .rewardBand _ => True
  | .whitelist _ => True
  | .slashFraction _ => True
  | .minValidPerWindow _ => True

instance (p : Params) : (c : ParamChange) → Decidable (RespectsOthers p c)
  | .votePeriod v =>
    inferInstanceAs (Decidable (v ≤ p.rewardDistributionWindow ∧ v ≤ p.slashWindow))
  | .voteThreshold v => inferInstanceAs (Decidable (v ≠ Dec.withPrec 33 2))
  | .rewardDistributionWindow v => inferInstanceAs (Decidable (p.votePeriod ≤ v))
  | .slashWindow v => inferInstanceAs (Decidable (p.votePeriod ≤ v))
  | .rewardBand _ => inferInstanceAs (Decidable True)
  | .whitelist _ => inferInstanceAs (Decidable True)
  | .slashFraction _ => inferInstanceAs (Decidable True)
  | .minValidPerWindow _ => inferInstanceAs (Decidable True)

theorem update_eq_some {p p' : Params} {c : ParamChange} (h : p.update c = some p') :
    c.validate = .ok () ∧ p' = p.write c := by
  unfold Params.update at h
  split at h
  · next hok => exact ⟨hok, (Option.some.inj h).symm⟩
  · cases h

/-- A write puts the new value in the place of the old one. -/
theorem paramSetPairs_write (p : Params) (c : ParamChange) :
    ∃ n, (p.write c).paramSetPairs = p.paramSetPairs.set n c := by
  cases c with
  | votePeriod v => exact ⟨0, rfl⟩
  | voteThreshold v => exact ⟨1, rfl⟩
  | rewardBand v => exact ⟨2, rfl⟩
  | rewardDistributionWindow v => exact ⟨3, rfl⟩
  | whitelist v => exact ⟨4, rfl⟩
  | slashFraction v => exact ⟨5, rfl⟩
  | slashWindow v => exact ⟨6, rfl⟩
  | minValidPerWindow v => exact ⟨7, rfl⟩

/-- The parameter store only ever holds values that their validators accept. -/
theorem update_checkPairs {p p' : Params} {c : ParamChange} (h : p.update c = some p')
    (hp : p.checkPairs = .ok ()) : p'.checkPairs = .ok () := by
  obtain ⟨hok, rfl⟩ := update_eq_some h
  rw [Params.checkPairs_eq_ok] at hp ⊢
  obtain ⟨n, hpairs⟩ := paramSetPairs_write p c
  rw [hpairs]
  intro c' hc'
  rcases List.mem_or_eq_of_mem_set hc' with hc' | rfl
  · exact hp c' hc'
  · exact hok

/-- One accepted update keeps a valid set valid exactly when it respects the other
    parameters. -/
theorem update_valid_iff {p p' : Params} {c : ParamChange} (h : p.update c = some p')
    (hp : p.Valid) : p'.Valid ↔ RespectsOthers p c := by
  obtain ⟨hok, rfl⟩ := update_eq_some h
  constructor
  · intro hp'
    cases c with
    | votePeriod v => exact ⟨hp'.rewardDistributionWindow, hp'.slashWindow⟩
    | voteThreshold v => exact ne_of_gt hp'.voteThreshold
    | rewardDistributionWindow v => exact hp'.rewardDistributionWindow
    | slashWindow v => exact hp'.slashWindow
    | rewardBand v => trivial
    | whitelist v => trivial
    | slashFraction v => trivial
    | minValidPerWindow v => trivial
  · intro hc
    cases c with
    | votePeriod v =>
      exact { hp with
        votePeriod := validatePositive_eq_ok.mp hok
        rewardDistributionWindow := hc.1
        slashWindow := hc.2 }
    | voteThreshold v =>
      -- the registered validator lets the bound itself pass
      have hle := (validateVoteThreshold_eq_ok.mp hok).1
      exact { hp with voteThreshold := lt_of_le_of_ne hle (Ne.symm hc) }
    | rewardDistributionWindow v => exact { hp with rewardDistributionWindow := hc }
    | slashWindow v => exact { hp with slashWindow := hc }
    | rewardBand v => exact { hp with rewardBand := validateFraction_eq_ok.mp hok }
    | whitelist v => exact { hp with whitelist := validateWhitelist_eq_ok.mp hok }
    | slashFraction v => exact { hp with slashFraction := validateFraction_eq_ok.mp hok }
    | minValidPerWindow v =>
      exact { hp with minValidPerWindow := validateFraction_eq_ok.mp hok }

/-- Along a run of accepted updates from a valid set, every set reached is consistent
    exactly when every update respects the parameters it does not write. -/
theorem params_consistent_iff (p : Params) (hp : p.validate = .ok ()) (changes : List ParamChange)
    (p' : Params) (hrun : Run.run Params.update changes p = some p') :
    (∀ done q, done <+: changes → Run.run Params.update done p = some q → q.Consistent) ↔
      Run.Along Params.update RespectsOthers changes p := by
  simp only [Params.consistent_iff]
  exact Run.forall_prefix_iff_along (fun _ _ _ h hq => update_valid_iff h hq) hrun
    (Params.validate_eq_ok.mp hp)

/-- Twenty vote periods to a slash window, then ten. -/
theorem params_consistent_shorter_window :
    ∃ p', Run.run Params.update [.slashWindow 100, .votePeriod 10] defaultParams = some p' ∧
      p'.Consistent := by
  have hrun : Run.run Params.update [.slashWindow 100, .votePeriod 10] defaultParams =
      some { defaultParams with slashWindow := 100, votePeriod := 10 } := by decide +kernel
  refine ⟨_, hrun, ?_⟩
  refine (params_consistent_iff defaultParams (by decide +kernel) _ _ hrun).mpr ?_ _ _
    (List.prefix_refl _) hrun
  refine ⟨by decide, ?_⟩
  intro q hq
  obtain ⟨_, rfl⟩ := update_eq_some hq
  exact ⟨by decide, fun _ _ => trivial⟩

/-- Either of two accepted updates makes the default parameters fail: a slash window
    shorter than a vote period, and a threshold of 33 percent. -/
theorem params_inconsistent_short_window :
    defaultParams.validate = .ok () ∧
    (∃ p', Run.run Params.update [.slashWindow 4] defaultParams = some p' ∧
      p'.validate = .error
        "oracle parameter SlashWindow must be greater than or equal with VotePeriod" ∧
      p'.slashWindow.toNat / p'.votePeriod.toNat = 0) ∧
    ∃ p', Run.run Params.update [.voteThreshold (Dec.withPrec 33 2)] defaultParams = some p' ∧
      p'.validate = .error "oracle parameter VoteThreshold must be greater than 33 percent" := by
  refine ⟨by decide +kernel, ⟨{ defaultParams with slashWindow := 4 }, ?_⟩,
    ⟨{ defaultParams with voteThreshold := Dec.withPrec 33 2 }, ?_⟩⟩
  · decide +kernel
  · decide +kernel

end TerraClassic.Oracle
