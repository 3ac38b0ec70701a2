import Mathlib.Data.List.Forall2

/-! # Traversals that stop at the first failure

A traversal succeeds when every element does, with the results in the order of the elements, and
otherwise fails as the first element that does. -/
namespace EnumWire.Traversal

variable {α β ε : Type} {f : α → Except ε β}

theorem bind_eq_ok {γ : Type} {first : Except ε α} {next : α → Except ε γ} {result : γ} :
    first >>= next = .ok result ↔ ∃ value, first = .ok value ∧ next value = .ok result := by
  cases first <;> simp [bind, Except.bind]

theorem mapM_eq_ok_iff {xs : List α} {ys : List β} :
    xs.mapM f = .ok ys ↔ List.Forall₂ (fun x y => f x = .ok y) xs ys := by
  induction xs generalizing ys with
  | nil =>
    rw [List.mapM_nil, List.forall₂_nil_left_iff]
    exact ⟨fun h => (Except.ok.inj h).symm, fun h => h ▸ rfl⟩
  | cons x xs ih =>
    rw [List.mapM_cons, bind_eq_ok, List.forall₂_cons_left_iff]
    constructor
    · rintro ⟨y, hx, hrest⟩
      obtain ⟨rest, hxs, heq⟩ := bind_eq_ok.1 hrest
      exact ⟨y, rest, hx, ih.1 hxs, (Except.ok.inj heq).symm⟩
    · rintro ⟨y, rest, hx, hxs, rfl⟩
      exact ⟨y, hx, bind_eq_ok.2 ⟨rest, ih.2 hxs, rfl⟩⟩

/-- `flaw?` tells beforehand whether an element fails, and how. -/
theorem mapM_eq_error_iff {flaw? : α → Option ε} {xs : List α}
    (hflaw : ∀ x ∈ xs, ∀ error, f x = .error error ↔ flaw? x = some error) {error : ε} :
    xs.mapM f = .error error ↔ xs.findSome? flaw? = some error := by
  induction xs with
  | nil => exact ⟨nofun, nofun⟩
  | cons x xs ih =>
    have hrest := ih fun y hy => hflaw y (List.mem_cons_of_mem x hy)
    have hx := hflaw x List.mem_cons_self
    rw [List.mapM_cons, List.findSome?_cons]
    cases hvalue : f x with
    | error e =>
      rw [(hx e).1 hvalue]
      exact ⟨fun h => congrArg some (Except.error.inj h), fun h => congrArg _ (Option.some.inj h)⟩
    | ok y =>
      have hnone : flaw? x = none := Option.eq_none_iff_forall_ne_some.2 fun e he =>
        nomatch hvalue.symm.trans ((hx e).2 he)
      rw [hnone, ← hrest]
      cases xs.mapM f with
      | error e => exact Iff.rfl
      | ok ys => exact ⟨nofun, nofun⟩

/-- What a result fails with. -/
def failure? : Except ε β → Option ε
  | .ok _ => none
  | .error error => some error

theorem failure?_eq_none_iff {result : Except ε β} :
    failure? result = none ↔ ∃ value, result = .ok value := by
  cases result <;> simp [failure?]

theorem failure?_eq_some_iff {result : Except ε β} {error : ε} :
    failure? result = some error ↔ result = .error error := by
  cases result <;> simp [failure?]

/-- A traversal fails as the first element that does. -/
theorem mapM_eq_error_iff_exists {xs : List α} {error : ε} :
    xs.mapM f = .error error ↔ ∃ before x after, xs = before ++ x :: after ∧
      (∀ y ∈ before, ∃ value, f y = .ok value) ∧ f x = .error error := by
  rw [mapM_eq_error_iff fun x _ error => failure?_eq_some_iff.symm, List.findSome?_eq_some_iff]
  simp only [failure?_eq_some_iff, failure?_eq_none_iff, and_comm]

theorem map_eq_error_iff {γ : Type} {g : β → γ} {result : Except ε β} {error : ε} :
    result.map g = .error error ↔ result = .error error := by
  cases result <;> simp [Except.map]

theorem map_eq_ok_iff {γ : Type} {g : β → γ} {result : Except ε β} {value : γ} :
    result.map g = .ok value ↔ ∃ inner, result = .ok inner ∧ g inner = value := by
  cases result <;> simp [Except.map]

theorem map_map_eq {γ δ : Type} {g : β → γ} {k : γ → δ} {result : Except ε β} :
    (result.map g).map k = result.map (k ∘ g) := by
  cases result <;> rfl

theorem map_id_eq (result : Except ε β) : result.map (fun value => value) = result := by
  cases result <;> rfl

/-! ### Folds -/

section Fold

variable {σ : Type} {step : σ → α → Except ε σ} {Reads : α → β → Prop} {next : σ → β → σ}
  {xs : List α} {s t : σ}

/-- What an element contributes to a fold does not depend on what came before it. -/
theorem foldlM_eq_ok_iff (hstep : ∀ s x t, step s x = .ok t ↔ ∃ y, Reads x y ∧ t = next s y) :
    xs.foldlM step s = .ok t ↔ ∃ ys, List.Forall₂ Reads xs ys ∧ t = ys.foldl next s := by
  induction xs generalizing s with
  | nil =>
    simp only [List.foldlM_nil, List.forall₂_nil_left_iff, exists_eq_left, List.foldl_nil]
    exact ⟨fun h => (Except.ok.inj h).symm, fun h => h ▸ rfl⟩
  | cons x xs ih =>
    rw [List.foldlM_cons, bind_eq_ok]
    constructor
    · rintro ⟨between, hx, hxs⟩
      obtain ⟨y, hy, rfl⟩ := (hstep s x between).1 hx
      obtain ⟨ys, hys, rfl⟩ := ih.1 hxs
      exact ⟨y :: ys, .cons hy hys, rfl⟩
    · rintro ⟨_, hall, rfl⟩
      obtain ⟨y, ys, hy, hys, rfl⟩ := List.forall₂_cons_left_iff.1 hall
      exact ⟨next s y, (hstep s x _).2 ⟨y, hy, rfl⟩, ih.2 ⟨ys, hys, rfl⟩⟩

/-- A fold of which `flaw?` tells beforehand where a step fails. -/
theorem foldlM_eq_error_iff_flaw (flaw? : α → Option ε) {error : ε}
    (hflaw : ∀ s x error, step s x = .error error ↔ flaw? x = some error) :
    xs.foldlM step s = .error error ↔ xs.findSome? flaw? = some error := by
  induction xs generalizing s with
  | nil => exact ⟨nofun, nofun⟩
  | cons x xs ih =>
    rw [List.foldlM_cons, List.findSome?_cons]
    cases hx : step s x with
    | error failure =>
      rw [(hflaw s x failure).1 hx]
      exact ⟨fun h => congrArg some (Except.error.inj h), fun h => congrArg _ (Option.some.inj h)⟩
    | ok between =>
      have hnone : flaw? x = none := Option.eq_none_iff_forall_ne_some.2 fun failure h =>
        nomatch hx.symm.trans ((hflaw s x failure).2 h)
      rw [hnone]
      exact ih

/-- Where what comes before an element does not matter, a fold fails as the first element that
does. -/
theorem foldlM_eq_error_iff {Fails : α → ε → Prop}
    (hstep : ∀ s x t, step s x = .ok t ↔ ∃ y, Reads x y ∧ t = next s y)
    (herror : ∀ s x error, step s x = .error error ↔ Fails x error) {error : ε} :
    xs.foldlM step s = .error error ↔ ∃ before x after, xs = before ++ x :: after ∧
      (∀ y ∈ before, ∃ z, Reads y z) ∧ Fails x error := by
  have hflaw (other : σ) (x : α) (failure : ε) :
      step other x = .error failure ↔ failure? (step s x) = some failure := by
    rw [failure?_eq_some_iff, herror, herror]
  have hreads (x : α) : failure? (step s x) = none ↔ ∃ y, Reads x y := by
    simp only [failure?_eq_none_iff, hstep, exists_comm, exists_and_left, exists_eq, and_true]
  rw [foldlM_eq_error_iff_flaw _ hflaw, List.findSome?_eq_some_iff]
  simp only [hreads, failure?_eq_some_iff, herror, and_comm]

end Fold

/-- What stands on the right has its counterpart on the left. -/
theorem exists_of_mem_right {α β : Type} {R : α → β → Prop} {as : List α} {bs : List β}
    (h : List.Forall₂ R as bs) {b : β} (hb : b ∈ bs) : ∃ a ∈ as, R a b := by
  induction h with
  | nil => cases hb
  | cons hhead _ ih =>
    rcases List.mem_cons.1 hb with rfl | htail
    · exact ⟨_, List.mem_cons_self, hhead⟩
    · obtain ⟨a, ha, hab⟩ := ih htail
      exact ⟨a, List.mem_cons_of_mem _ ha, hab⟩

end EnumWire.Traversal
