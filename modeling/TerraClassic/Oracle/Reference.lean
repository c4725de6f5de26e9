import TerraClassic.Oracle.BallotMap

/-! # The reference denom is the leading one

    `PickReferenceTerra` looks at the ballots in the order of a Go map, with a running maximum
    that starts at zero, and deletes from both maps on the way.  Whatever the order: the result
    leads the eligible denoms by power and then by name, the vote map keeps the
    eligible ballots, and the vote targets lose those whose ballot did not pass.

    The empty string stands for "no reference".  It is also a possible key of the maps, so a
    ballot under the empty name looks like no reference.
-/

namespace TerraClassic.Oracle

/-- A vote target with a passing ballot. -/
def Eligible (threshold : ℤ) (voteTargets : SortedMap Denom Dec)
    (voteMap : SortedMap Denom ExchangeRateBallot) (d : Denom) (b : ExchangeRateBallot) : Prop :=
  voteMap.get d = some b ∧ (voteTargets.get d).isSome ∧ passes threshold b = true

/-- No eligible denom has more power, and none of the same power an earlier name. -/
def Leads (threshold : ℤ) (voteTargets : SortedMap Denom Dec)
    (voteMap : SortedMap Denom ExchangeRateBallot) (d : Denom) : Prop :=
  ∃ b, Eligible threshold voteTargets voteMap d b ∧
    ∀ d' b', Eligible threshold voteTargets voteMap d' b' →
      power b' < power b ∨ power b' = power b ∧ d ≤ d'

section

variable {threshold : ℤ} {voteTargets : SortedMap Denom Dec}
  {voteMap : SortedMap Denom ExchangeRateBallot}

theorem get_kept_iff {d : Denom} {b : ExchangeRateBallot} :
    (voteMap.filter (keeps voteTargets threshold)).get d = some b ↔
      Eligible threshold voteTargets voteMap d b := by
  rw [SortedMap.get_filter, Option.filter_eq_some_iff]
  unfold Eligible keeps
  rw [Bool.and_eq_true]

theorem mem_kept_iff {d : Denom} {b : ExchangeRateBallot} :
    (d, b) ∈ (voteMap.filter (keeps voteTargets threshold)).entries ↔
      Eligible threshold voteTargets voteMap d b :=
  SortedMap.mem_entries.trans get_kept_iff

/-- What the loop leaves of the reference, in terms of the maps it started with. -/
theorem leads_or_none {ref : Denom}
    (h : IsReference (voteMap.filter (keeps voteTargets threshold)).entries ref) :
    (ref = "" ∧ ∀ d b, ¬ Eligible threshold voteTargets voteMap d b) ∨
      Leads threshold voteTargets voteMap ref := by
  rcases h with ⟨hnil, href⟩ | ⟨b, hmem, hmax⟩
  · left
    refine ⟨href, ?_⟩
    intro d b hd
    have hmem := mem_kept_iff.mpr hd
    rw [hnil] at hmem
    cases hmem
  · right
    refine ⟨b, mem_kept_iff.mp hmem, ?_⟩
    intro d' b' hd'
    exact hmax (d', b') (mem_kept_iff.mpr hd')

theorem Leads.unique {d₁ d₂ : Denom} (h₁ : Leads threshold voteTargets voteMap d₁)
    (h₂ : Leads threshold voteTargets voteMap d₂) : d₁ = d₂ := by
  obtain ⟨b₁, he₁, hmax₁⟩ := h₁
  obtain ⟨b₂, he₂, hmax₂⟩ := h₂
  rcases hmax₁ d₂ b₂ he₂ with h | ⟨_, hle₁⟩
  · rcases hmax₂ d₁ b₁ he₁ with h' | ⟨h', _⟩
    · omega
    · omega
  · rcases hmax₂ d₁ b₁ he₁ with h' | ⟨_, hle₂⟩
    · omega
    · exact le_antisymm hle₁ hle₂

end

/-- For every order of the loop: the result leads the eligible denoms if there are any, and is
    the empty string if there are none or if the empty name itself leads; the vote map
    keeps the eligible ballots as they were; the vote targets lose exactly those with a ballot
    that does not pass. -/
theorem reference_leads (sched : Schedule) (threshold : ℤ) (voteTargets : SortedMap Denom Dec)
    (voteMap : SortedMap Denom ExchangeRateBallot) :
    ((∃ d b, Eligible threshold voteTargets voteMap d b) →
      Leads threshold voteTargets voteMap
        (pickReferenceTerra sched threshold voteTargets voteMap).referenceTerra) ∧
    ((pickReferenceTerra sched threshold voteTargets voteMap).referenceTerra = "" ↔
      (∀ d b, ¬ Eligible threshold voteTargets voteMap d b) ∨
        Leads threshold voteTargets voteMap "") ∧
    (∀ d b, (pickReferenceTerra sched threshold voteTargets voteMap).voteMap.get d = some b ↔
      Eligible threshold voteTargets voteMap d b) ∧
    ∀ d tax, (pickReferenceTerra sched threshold voteTargets voteMap).voteTargets.get d =
        some tax ↔
      voteTargets.get d = some tax ∧ ∀ b, voteMap.get d = some b → passes threshold b = true := by
  have hcases := leads_or_none (pick_reference sched threshold voteTargets voteMap)
  refine ⟨?_, ?_, ?_, ?_⟩
  · rintro ⟨d, b, hd⟩
    rcases hcases with ⟨_, hnone⟩ | hleads
    · exact absurd hd (hnone d b)
    · exact hleads
  · constructor
    · intro href
      rcases hcases with ⟨_, hnone⟩ | hleads
      · exact Or.inl hnone
      · exact Or.inr (href ▸ hleads)
    · rintro (hnone | hempty)
      · rcases hcases with ⟨href, _⟩ | ⟨b, hb, _⟩
        · exact href
        · exact absurd hb (hnone _ b)
      · rcases hcases with ⟨href, _⟩ | hleads
        · exact href
        · exact hleads.unique hempty
  · intro d b
    rw [pick_voteMap, get_kept_iff]
  · intro d tax
    rw [pick_voteTargets, SortedMap.get_filter, Option.filter_eq_some_iff]
    refine and_congr_right (fun _ => ?_)
    cases hget : voteMap.get d with
    | none =>
      -- a target without votes is left alone
      exact ⟨fun _ b hb => (by cases hb), fun _ => rfl⟩
    | some b =>
      constructor
      · intro hpass b' hb'
        cases hb'
        exact hpass
      · intro hall
        exact hall b rfl

/-- A ballot under the empty name passes, and the result is the empty string although
    there is an eligible denom. -/
theorem empty_name_leads :
    let voteTargets := (∅ : SortedMap Denom Dec).set "" Dec.zero
    let voteMap := (∅ : SortedMap Denom ExchangeRateBallot).set "" [⟨"", Dec.one, "a", 1⟩]
    (pickReferenceTerra Schedule.inOrder 1 voteTargets voteMap).referenceTerra = "" ∧
      Eligible 1 voteTargets voteMap "" [⟨"", Dec.one, "a", 1⟩] := by
  unfold Eligible
  decide +kernel

end TerraClassic.Oracle
