import Mathlib.Init

/-! # Fallible steps and their runs

    * `bind_eq_ok` peels one step off a computation that returned.
    * `foldlM_ok` carries an invariant through a loop that returned, and
      `foldlM_simulates` a relation through two of them.
    * `run` takes a list of events from a state; a step that halts ends the
      run with `none`.  `run_invariant` is the induction over runs.
-/

namespace TerraClassic.Run

variable {σ α β ε : Type*}

theorem bind_eq_ok {α β ε : Type} {x : Except ε α} {f : α → Except ε β} {r : β} :
    (x >>= f) = .ok r ↔ ∃ a, x = .ok a ∧ f a = .ok r := by
  cases x with
  | error e =>
    constructor
    · intro h
      cases h
    · rintro ⟨a, h, _⟩
      cases h
  | ok a =>
    constructor
    · intro h
      exact ⟨a, rfl, h⟩
    · rintro ⟨b, h, hb⟩
      cases h
      exact hb

/-- A sequence fails where its first part fails, or its second. -/
theorem bind_eq_error {α β ε : Type} {x : Except ε α} {f : α → Except ε β} {err : ε} :
    (x >>= f) = .error err ↔ x = .error err ∨ ∃ a, x = .ok a ∧ f a = .error err := by
  cases x with
  | error e =>
    constructor
    · intro h
      cases h
      exact Or.inl rfl
    · rintro (h | ⟨a, h, _⟩)
      · cases h
        rfl
      · cases h
  | ok a =>
    constructor
    · intro h
      exact Or.inr ⟨a, rfl, h⟩
    · rintro (h | ⟨b, h, hb⟩)
      · cases h
      · cases h
        exact hb

/-- A check in front of a computation. -/
theorem check_eq_ok {β ε : Type} {x : Except ε Unit} {f : Unit → Except ε β} {r : β} :
    (x >>= f) = .ok r ↔ x = .ok () ∧ f () = .ok r := by
  rw [bind_eq_ok]
  constructor
  · intro ⟨_, h⟩
    exact h
  · intro h
    exact ⟨(), h⟩

/-- A result whose error is dropped. -/
theorem eq_ok_of_toOption {α ε : Type} {x : Except ε α} {a : α} (h : x.toOption = some a) :
    x = .ok a := by
  cases x with
  | error err => cases h
  | ok b => exact congrArg Except.ok (Option.some.inj h)

/-- A loop of checks. -/
theorem forM_eq_ok {α ε : Type} {f : α → Except ε Unit} {l : List α} :
    l.forM f = .ok () ↔ ∀ a ∈ l, f a = .ok () := by
  induction l with
  | nil =>
    constructor
    · intro _ a ha
      cases ha
    · intro _
      rfl
  | cons a rest ih =>
    show (do f a; rest.forM f) = .ok () ↔ _
    rw [check_eq_ok, ih, List.forall_mem_cons]

/-- A loop that returned keeps what each of its rounds keeps. -/
theorem foldlM_ok {σ ε : Type} {f : σ → α → Except ε σ} {I : σ → Prop}
    (hstep : ∀ s a s', f s a = .ok s' → I s → I s') {l : List α} {s s' : σ}
    (h : l.foldlM f s = .ok s') (hs : I s) : I s' := by
  induction l generalizing s with
  | nil =>
    cases h
    exact hs
  | cons a rest ih =>
    rw [List.foldlM_cons] at h
    obtain ⟨t, ht, hrest⟩ := bind_eq_ok.mp h
    exact ih hrest (hstep s a t ht hs)

/-- Two loops over one list: where every round of the first that returned is matched by one of
    the second, so is the loop. -/
theorem foldlM_simulates {σ τ ε : Type} {f : τ → α → Except ε τ} {g : σ → α → Option σ}
    {R : σ → τ → Prop}
    (hstep : ∀ a s t t', R s t → f t a = .ok t' → ∃ s', g s a = some s' ∧ R s' t')
    {l : List α} {s : σ} {t t' : τ} (hR : R s t) (h : l.foldlM f t = .ok t') :
    ∃ s', l.foldlM g s = some s' ∧ R s' t' := by
  induction l generalizing s t with
  | nil =>
    cases h
    exact ⟨s, rfl, hR⟩
  | cons a rest ih =>
    rw [List.foldlM_cons] at h
    obtain ⟨t₁, ht, hrest⟩ := bind_eq_ok.mp h
    obtain ⟨s₁, hs, hR₁⟩ := hstep a s t t₁ hR ht
    rw [List.foldlM_cons, hs]
    exact ih hR₁ hrest

/-! ### Runs -/

/-- The state after a list of events. -/
def run {σ : Type} (step : σ → α → Option σ) (events : List α) (s : σ) : Option σ :=
  events.foldlM step s

/-- Every step of a run meets `C`, in the state it is taken from. -/
def Along {σ : Type} (step : σ → α → Option σ) (C : σ → α → Prop) : List α → σ → Prop
  | [], _ => True
  | a :: rest, s => C s a ∧ ∀ s', step s a = some s' → Along step C rest s'

/-- A condition on the events alone. -/
theorem Along.of_mem {σ : Type} {step : σ → α → Option σ} {P : α → Prop} {events : List α}
    (hP : ∀ a ∈ events, P a) (s : σ) : Along step (fun _ a => P a) events s := by
  induction events generalizing s with
  | nil => trivial
  | cons a rest ih =>
    exact ⟨hP a List.mem_cons_self,
      fun s' _ => ih (fun b hb => hP b (List.mem_cons_of_mem a hb)) s'⟩

/-- What every step that meets `C` keeps, a run along `C` keeps. -/
theorem run_invariant_along {σ : Type} {step : σ → α → Option σ} {C : σ → α → Prop}
    {I : σ → Prop} (hstep : ∀ s a s', step s a = some s' → C s a → I s → I s')
    {events : List α} {s s' : σ} (h : run step events s = some s')
    (hC : Along step C events s) (hs : I s) : I s' := by
  unfold run at h
  induction events generalizing s with
  | nil =>
    cases h
    exact hs
  | cons a rest ih =>
    rw [List.foldlM_cons] at h
    obtain ⟨t, ht, hrest⟩ := Option.bind_eq_some_iff.mp h
    exact ih hrest (hC.2 t ht) (hstep s a t ht hC.1 hs)

/-- A run of two parts. -/
theorem run_append_eq_some {σ : Type} {step : σ → α → Option σ} {l l' : List α} {s s' : σ} :
    run step (l ++ l') s = some s' ↔ ∃ t, run step l s = some t ∧ run step l' t = some s' := by
  unfold run
  rw [List.foldlM_append]
  exact Option.bind_eq_some_iff

/-- What every step keeps, every run keeps. -/
theorem run_invariant {σ : Type} {step : σ → α → Option σ} {I : σ → Prop}
    (hstep : ∀ s a s', step s a = some s' → I s → I s') {events : List α} {s s' : σ}
    (h : run step events s = some s') (hs : I s) : I s' :=
  run_invariant_along (fun s a s' hs' _ => hstep s a s' hs') h
    (Along.of_mem (fun _ _ => trivial) s) hs

theorem Along.and_mem {σ : Type} {step : σ → α → Option σ} {C : σ → α → Prop} {P : α → Prop}
    {events : List α} {s : σ} (h : Along step C events s) (hP : ∀ a ∈ events, P a) :
    Along step (fun s a => C s a ∧ P a) events s := by
  induction events generalizing s with
  | nil => trivial
  | cons a rest ih =>
    refine ⟨⟨h.1, hP a List.mem_cons_self⟩, ?_⟩
    intro s' hs'
    exact ih (h.2 s' hs') (fun b hb => hP b (List.mem_cons_of_mem a hb))

/-- Two conditions that agree wherever an invariant holds. -/
theorem along_congr {σ : Type} {step : σ → α → Option σ} {C C' : σ → α → Prop} {I : σ → Prop}
    (hI : ∀ s a s', step s a = some s' → I s → I s') {events : List α}
    (hC : ∀ a ∈ events, ∀ s, I s → (C s a ↔ C' s a)) {s : σ} (hs : I s) :
    Along step C events s ↔ Along step C' events s := by
  induction events generalizing s with
  | nil => exact Iff.rfl
  | cons a rest ih =>
    have hrest : ∀ s', step s a = some s' →
        (Along step C rest s' ↔ Along step C' rest s') := fun s' hs' =>
      ih (fun b hb => hC b (List.mem_cons_of_mem a hb)) (hI s a s' hs' hs)
    exact and_congr (hC a List.mem_cons_self s hs)
      ⟨fun h s' hs' => (hrest s' hs').mp (h s' hs'), fun h s' hs' => (hrest s' hs').mpr (h s' hs')⟩

/-- Where every step that meets `C` returns a state related by `R`, so does a run along `C`. -/
theorem exists_run_of_along {σ : Type} {step : σ → α → Option σ} {C : σ → α → Prop}
    {R : σ → σ → Prop} (hrefl : ∀ s, R s s) (htrans : ∀ s t u, R s t → R t u → R s u)
    (hstep : ∀ s a, C s a → ∃ s', step s a = some s' ∧ R s s') {events : List α} {s : σ}
    (h : Along step C events s) {done : List α} (hdone : done <+: events) :
    ∃ t, run step done s = some t ∧ R s t := by
  unfold run
  induction done generalizing events s with
  | nil => exact ⟨s, rfl, hrefl s⟩
  | cons a rest ih =>
    obtain ⟨later, rfl⟩ := hdone
    obtain ⟨hC, hrest⟩ := h
    obtain ⟨u, hu, hsu⟩ := hstep s a hC
    obtain ⟨t, ht, hut⟩ := ih (hrest u hu) (List.prefix_append rest later)
    refine ⟨t, ?_, htrans s u t hsu hut⟩
    rw [List.foldlM_cons, hu]
    exact ht

/-- Where a step keeps `I` exactly when it meets `C`, all states of a run have `I` exactly
    when the run is along `C`. -/
theorem forall_prefix_iff_along {σ : Type} {step : σ → α → Option σ} {C : σ → α → Prop}
    {I : σ → Prop} (hstep : ∀ s a s', step s a = some s' → I s → (I s' ↔ C s a))
    {events : List α} {s s' : σ} (h : run step events s = some s') (hs : I s) :
    (∀ done t, done <+: events → run step done s = some t → I t) ↔ Along step C events s := by
  unfold run at h
  induction events generalizing s with
  | nil =>
    constructor
    · intro _
      trivial
    · intro _ done t hdone ht
      rw [List.prefix_nil.mp hdone] at ht
      cases ht
      exact hs
  | cons a rest ih =>
    rw [List.foldlM_cons] at h
    obtain ⟨u, hu, hrest⟩ := Option.bind_eq_some_iff.mp h
    have hrun : ∀ done, run step (a :: done) s = run step done u := by
      intro done
      show (step s a >>= fun s => done.foldlM step s) = _
      rw [hu]
      rfl
    constructor
    · intro hall
      -- the state after the first step, then the others
      have hI : I u := hall [a] u (by simp) (by rw [hrun]; rfl)
      refine ⟨(hstep s a u hu hs).mp hI, ?_⟩
      intro u' hu'
      rw [hu] at hu'
      cases hu'
      refine (ih hrest hI).mp ?_
      intro done t hdone ht
      exact hall (a :: done) t (List.cons_prefix_cons.mpr ⟨rfl, hdone⟩) (by rw [hrun]; exact ht)
    · intro halong done t hdone ht
      have hI : I u := (hstep s a u hu hs).mpr halong.1
      rcases List.prefix_cons_iff.mp hdone with rfl | ⟨done, rfl, hrest'⟩
      · cases ht
        exact hs
      · rw [hrun] at ht
        exact (ih hrest hI).mpr (halong.2 u hu) done t hrest' ht

end TerraClassic.Run
