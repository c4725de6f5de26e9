import Mathlib.Data.List.Nodup

/-! # Updates of named records, one after another

    Each change of a list looks for the records that bear its old name and rewrites them under
    its new name.  A later change sees what an earlier one has written.  When no new name is
    the old name of a later change, a record is rewritten at most once, by the change that
    has its name.
-/

namespace TerraClassic.NamedUpdate

variable {R C α : Type*} [DecidableEq α] {name : R → α} {old new : C → α} {write : C → R → R}
  {cs : List C} {r : R} {c : C}

/-- One change: the records with the old name are rewritten. -/
def updateOne (name : R → α) (old : C → α) (write : C → R → R) (r : R) (c : C) : R :=
  if name r = old c then write c r else r

/-- All changes, in their order. -/
def updateAll (name : R → α) (old : C → α) (write : C → R → R) (cs : List C) (r : R) : R :=
  cs.foldl (updateOne name old write) r

/-- No change gives the old name of a later one. -/
def Fresh (old new : C → α) (cs : List C) : Prop := cs.Pairwise (fun c d => new c ≠ old d)

theorem updateAll_of_forall_ne (h : ∀ c ∈ cs, name r ≠ old c) :
    updateAll name old write cs r = r := by
  induction cs with
  | nil => rfl
  | cons c cs ih =>
    have hc : updateOne name old write r c = r := if_neg (h c (List.mem_cons_self ..))
    show updateAll name old write cs (updateOne name old write r c) = r
    rw [hc]
    exact ih (fun d hd => h d (List.mem_cons_of_mem _ hd))

theorem updateAll_of_mem (hwrite : ∀ c r, name (write c r) = new c) (hfresh : Fresh old new cs)
    (hnodup : (cs.map old).Nodup) (hc : c ∈ cs) (hname : name r = old c) :
    updateAll name old write cs r = write c r := by
  induction cs with
  | nil => cases hc
  | cons d cs ih =>
    obtain ⟨hd, hfresh⟩ := List.pairwise_cons.mp hfresh
    obtain ⟨hnotMem, hnodup⟩ := List.nodup_cons.mp hnodup
    show updateAll name old write cs (updateOne name old write r d) = write c r
    rcases List.mem_cons.mp hc with rfl | hc
    · -- the name it bears now is not looked for any more
      have hone : updateOne name old write r c = write c r := if_pos hname
      rw [hone]
      apply updateAll_of_forall_ne
      intro e he
      rw [hwrite]
      exact hd e he
    · have hne : name r ≠ old d := by
        intro heq
        exact hnotMem (heq ▸ hname ▸ List.mem_map_of_mem hc)
      have hone : updateOne name old write r d = r := if_neg hne
      rw [hone]
      exact ih hfresh hnodup hc

/-- A loop that maps each change over all records does to each record what the changes do. -/
theorem foldl_map_updateOne (rs : List R) :
    cs.foldl (fun rs c => rs.map (fun r => updateOne name old write r c)) rs =
      rs.map (updateAll name old write cs) := by
  induction cs generalizing rs with
  | nil => exact (List.map_id rs).symm
  | cons c cs ih =>
    show cs.foldl _ (rs.map (fun r => updateOne name old write r c)) = _
    rw [ih, List.map_map]
    rfl

end TerraClassic.NamedUpdate
