import TerraClassic.Lib.Run
import Mathlib.Data.Option.Basic

/-! # Two computations side by side

    `Option.Rel R x y`: both computations return, with results related by `R`, or both
    panic.  The rules follow the way the computations are written: one for `bind`, one for
    a loop, one for a run of events.  `exists_run` is the rule for a machine whose steps
    all return.  `RelExcept` is the same for computations that fail with an error.
-/

namespace TerraClassic.Simulation

variable {σ τ σ' τ' α : Type} {ι : Type*} {R : σ → τ → Prop} {S : σ' → τ' → Prop}

theorem rel_bind {x : Option σ} {y : Option τ} {f : σ → Option σ'} {g : τ → Option τ'}
    (h : Option.Rel R x y) (hfg : ∀ a b, R a b → Option.Rel S (f a) (g b)) :
    Option.Rel S (x.bind f) (y.bind g) := by
  cases h with
  | some hab => exact hfg _ _ hab
  | none => exact .none

/-- The same, with the result of the second computation at hand. -/
theorem rel_bind_eq {x : Option σ} {y : Option τ} {f : σ → Option σ'} {g : τ → Option τ'}
    (h : Option.Rel R x y) (hfg : ∀ a b, y = some b → R a b → Option.Rel S (f a) (g b)) :
    Option.Rel S (x.bind f) (y.bind g) := by
  cases h with
  | some hab => exact hfg _ _ rfl hab
  | none => exact .none

/-- Two computations that first read the same value. -/
theorem rel_bind_same {x : Option α} {f : α → Option σ'} {g : α → Option τ'}
    (hfg : ∀ a, x = some a → Option.Rel S (f a) (g a)) : Option.Rel S (x.bind f) (x.bind g) := by
  cases hx : x with
  | none => exact .none
  | some a => exact hfg a hx

/-- A last step that only the second computation makes. -/
theorem rel_bind_right {S : σ → τ' → Prop} {x : Option σ} {y : Option τ} {g : τ → Option τ'}
    (h : Option.Rel R x y) (hg : ∀ a b, R a b → Option.Rel S (some a) (g b)) :
    Option.Rel S x (y.bind g) := by
  cases h with
  | some hab => exact hg _ _ hab
  | none => exact .none

/-- A read that only the first computation makes. -/
theorem rel_bind_read {x : Option α} {a : α} (hx : x = some a) {f : α → Option σ'}
    {y : Option τ'} (h : Option.Rel S (f a) y) : Option.Rel S (x.bind f) y := by
  rw [hx]
  exact h

theorem rel_foldlM {f : σ → ι → Option σ} {g : τ → ι → Option τ} {l : List ι}
    (hstep : ∀ s t, ∀ a ∈ l, R s t → Option.Rel R (f s a) (g t a)) {s : σ} {t : τ} (h : R s t) :
    Option.Rel R (l.foldlM f s) (l.foldlM g t) := by
  induction l generalizing s t with
  | nil => exact .some h
  | cons a rest ih =>
    rw [List.foldlM_cons, List.foldlM_cons]
    refine rel_bind (hstep s t a List.mem_cons_self h) ?_
    intro s' t' h'
    exact ih (fun s t b hb => hstep s t b (List.mem_cons_of_mem a hb)) h'

/-- A loop whose rounds all return, beside a loop that has no way to fail. -/
theorem exists_foldlM {f : σ → ι → Option σ} {g : τ → ι → τ} {l : List ι}
    (hstep : ∀ s t, ∀ a ∈ l, R s t → ∃ s', f s a = some s' ∧ R s' (g t a)) {s : σ} {t : τ}
    (h : R s t) : ∃ s', l.foldlM f s = some s' ∧ R s' (l.foldl g t) := by
  induction l generalizing s t with
  | nil => exact ⟨s, rfl, h⟩
  | cons a rest ih =>
    obtain ⟨s', hs', h'⟩ := hstep s t a List.mem_cons_self h
    obtain ⟨u, hu, h''⟩ := ih (fun s t b hb => hstep s t b (List.mem_cons_of_mem a hb)) h'
    refine ⟨u, ?_, h''⟩
    rw [List.foldlM_cons, hs']
    exact hu

/-- Steps that match one by one give runs that match. -/
theorem rel_run {f : σ → ι → Option σ} {g : τ → ι → Option τ}
    (hstep : ∀ s t a, R s t → Option.Rel R (f s a) (g t a)) (events : List ι) {s : σ} {t : τ}
    (h : R s t) : Option.Rel R (Run.run f events s) (Run.run g events t) :=
  rel_foldlM (fun s t a _ => hstep s t a) h

theorem rel_mono {S : σ → τ → Prop} {x : Option σ} {y : Option τ} (h : Option.Rel R x y)
    (hRS : ∀ a b, R a b → S a b) : Option.Rel S x y := by
  cases h with
  | some hab => exact .some (hRS _ _ hab)
  | none => exact .none

/-- The same, with the two results at hand. -/
theorem rel_mono_eq {S : σ → τ → Prop} {x : Option σ} {y : Option τ} (h : Option.Rel R x y)
    (hRS : ∀ a b, x = some a → y = some b → R a b → S a b) : Option.Rel S x y := by
  cases h with
  | some hab => exact .some (hRS _ _ rfl rfl hab)
  | none => exact .none

/-- The second result in another form. -/
theorem rel_of_map {S : σ → τ' → Prop} {x : Option σ} {y : Option τ} {f : τ → τ'}
    (h : Option.Rel S x (y.map f)) : Option.Rel (fun a b => S a (f b)) x y := by
  cases y with
  | none =>
    cases h
    exact .none
  | some b =>
    cases h with
    | some hab => exact .some hab

theorem rel_of_eq_some {x : Option σ} {y : Option τ} {a : σ} (h : Option.Rel R x y)
    (hx : x = some a) : ∃ b, y = some b ∧ R a b := by
  subst hx
  cases h with
  | some hab => exact ⟨_, rfl, hab⟩

/-- A machine whose steps return and keep `I` wherever `I` holds runs through every list of
    events. -/
theorem exists_run {step : σ → ι → Option σ} {I : σ → Prop}
    (hstep : ∀ s a, I s → ∃ s', step s a = some s' ∧ I s') (events : List ι) {s : σ} (hs : I s) :
    ∃ s', Run.run step events s = some s' ∧ I s' := by
  induction events generalizing s with
  | nil => exact ⟨s, rfl, hs⟩
  | cons a rest ih =>
    obtain ⟨t, ht, hI⟩ := hstep s a hs
    obtain ⟨s', hs', hI'⟩ := ih hI
    refine ⟨s', ?_, hI'⟩
    show (step s a >>= fun t => rest.foldlM step t) = some s'
    rw [ht]
    exact hs'

/-! ### Computations that fail with an error -/

/-- Both return, with results related by `R`, or both fail with the same error. -/
inductive RelExcept {ε : Type} (R : σ → τ → Prop) : Except ε σ → Except ε τ → Prop where
  | ok {a : σ} {b : τ} (h : R a b) : RelExcept R (.ok a) (.ok b)
  | error (err : ε) : RelExcept R (.error err) (.error err)

namespace RelExcept

variable {ε : Type}

/-- Two computations that first make the same one. -/
theorem bind_same {x : Except ε α} {f : α → Except ε σ'} {g : α → Except ε τ'}
    (hfg : ∀ a, x = .ok a → RelExcept S (f a) (g a)) : RelExcept S (x >>= f) (x >>= g) := by
  cases hx : x with
  | error err => exact .error err
  | ok a => exact hfg a hx

/-- The second computation reads the result in another form. -/
theorem bind_map {β : Type} {x : Except ε α} {form : α → β} {f : α → Except ε σ'}
    {g : β → Except ε τ'} (hfg : ∀ a, x = .ok a → RelExcept S (f a) (g (form a))) :
    RelExcept S (x >>= f) (x.map form >>= g) := by
  cases hx : x with
  | error err => exact .error err
  | ok a => exact hfg a hx

end RelExcept

end TerraClassic.Simulation
