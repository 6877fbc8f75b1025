import Mathlib.Data.List.Forall2

/-!
# Peeling `Except` computations

Go's `(value, err)` returns are `Except String` here, with `xerrors.Errorf` wrapping as
`Except.mapError`. These lemmas take a successful computation apart, so that later proofs
never unfold a `do` block: a bind succeeds when both halves do, a wrapped error does not
touch a success, and a `mapM` succeeds exactly when every element does (`mapM_eq_ok`).
-/

namespace SentinelVisor

variable {ε ε' α β : Type}

@[simp] theorem except_bind_eq_ok {x : Except ε α} {f : α → Except ε β} {b : β} :
    x >>= f = .ok b ↔ ∃ a, x = .ok a ∧ f a = .ok b := by
  cases x <;> simp [bind, Except.bind]

@[simp] theorem except_mapError_eq_ok {x : Except ε α} {g : ε → ε'} {a : α} :
    x.mapError g = .ok a ↔ x = .ok a := by
  cases x <;> simp [Except.mapError]

@[simp] theorem except_map_eq_ok {x : Except ε α} {f : α → β} {b : β} :
    f <$> x = .ok b ↔ ∃ a, x = .ok a ∧ f a = b := by
  cases x <;> simp [Functor.map, Except.map]

@[simp] theorem except_pure_eq_ok {a b : α} : (pure a : Except ε α) = .ok b ↔ a = b := by
  simp [pure, Except.pure]

@[simp] theorem except_bind_eq_error {x : Except ε α} {f : α → Except ε β} {e : ε} :
    x >>= f = .error e ↔ x = .error e ∨ ∃ a, x = .ok a ∧ f a = .error e := by
  cases x <;> simp [bind, Except.bind]

@[simp] theorem except_mapError_eq_error {x : Except ε α} {g : ε → ε'} {e : ε'} :
    x.mapError g = .error e ↔ ∃ e', x = .error e' ∧ g e' = e := by
  cases x <;> simp [Except.mapError]

@[simp] theorem except_ok_bind {a : α} {f : α → Except ε β} : Except.ok a >>= f = f a := rfl

@[simp] theorem except_error_bind {e : ε} {f : α → Except ε β} :
    (Except.error e : Except ε α) >>= f = .error e := rfl

@[simp] theorem except_map_ok {a : α} {f : α → β} :
    f <$> (Except.ok a : Except ε α) = .ok (f a) := rfl

@[simp] theorem except_map_error {e : ε} {f : α → β} :
    f <$> (Except.error e : Except ε α) = .error e := rfl

@[simp] theorem except_pure {a : α} : (pure a : Except ε α) = .ok a := rfl

@[simp] theorem except_mapError_ok {a : α} {g : ε → ε'} :
    (Except.ok a : Except ε α).mapError g = .ok a := rfl

@[simp] theorem except_mapError_error {e : ε} {g : ε → ε'} :
    (Except.error e : Except ε α).mapError g = .error (g e) := rfl

/-- Wrapping the error of a bind wraps the error of each half. -/
theorem except_mapError_bind {x : Except ε α} {f : α → Except ε β} {g : ε → ε'} :
    (x >>= f).mapError g = x.mapError g >>= fun a => (f a).mapError g := by
  cases x <;> rfl

/-- `mapM` succeeds exactly when every element does, with the results in order. -/
theorem mapM_eq_ok {f : α → Except ε β} :
    ∀ {l : List α} {out : List β}, l.mapM f = .ok out ↔ List.Forall₂ (fun a b => f a = .ok b) l out
  | [], out => by
    rw [List.mapM_nil, except_pure_eq_ok, List.forall₂_nil_left_iff, eq_comm]
  | a :: l, out => by
    simp only [List.mapM_cons, except_bind_eq_ok, except_pure_eq_ok, mapM_eq_ok]
    cases out with
    | nil => simp
    | cons b out =>
      simp only [List.forall₂_cons, List.cons.injEq]
      constructor
      · rintro ⟨b', hb', bs, hbs, rfl, rfl⟩
        exact ⟨hb', hbs⟩
      · rintro ⟨hb, hbs⟩
        exact ⟨b, hb, out, hbs, rfl, rfl⟩

/-- A `mapM` of computations that cannot fail. -/
theorem mapM_except_ok (f : α → β) :
    ∀ l : List α, (l.mapM fun a => (Except.ok (f a) : Except ε β)) = .ok (l.map f)
  | [] => rfl
  | a :: l => by simp only [List.mapM_cons, mapM_except_ok f l]; rfl

/-- Every result of a successful `mapM` is the result of one of its elements. -/
theorem exists_of_mapM_eq_ok {f : α → Except ε β} {l : List α} {out : List β}
    (h : l.mapM f = .ok out) {b : β} (hb : b ∈ out) : ∃ a ∈ l, f a = .ok b := by
  induction mapM_eq_ok.1 h with
  | nil => simp at hb
  | cons hab _ ih =>
    rcases List.mem_cons.1 hb with rfl | hb
    · exact ⟨_, List.mem_cons_self _ _, hab⟩
    · obtain ⟨a, ha, hfa⟩ := ih (mapM_eq_ok.2 (by assumption)) hb
      exact ⟨a, List.mem_cons_of_mem _ ha, hfa⟩

/-- A `mapM` that succeeds on a list succeeds on each of its permutations, with the results
permuted alike. -/
theorem mapM_perm {f : α → Except ε β} {l l' : List α} (hp : l.Perm l') :
    ∀ {out : List β}, l.mapM f = .ok out → ∃ out', l'.mapM f = .ok out' ∧ out.Perm out' := by
  induction hp with
  | nil => exact fun h => ⟨_, h, .refl _⟩
  | cons a _ ih =>
    intro out h
    simp only [List.mapM_cons, except_bind_eq_ok, except_pure_eq_ok] at h
    obtain ⟨b, hb, bs, hbs, rfl⟩ := h
    obtain ⟨bs', hbs', hp⟩ := ih hbs
    exact ⟨b :: bs', by rw [List.mapM_cons, hb, hbs']; rfl, hp.cons b⟩
  | swap a a' l =>
    intro out h
    simp only [List.mapM_cons, except_bind_eq_ok, except_pure_eq_ok] at h
    obtain ⟨b, hb, _, ⟨b', hb', bs, hbs, rfl⟩, rfl⟩ := h
    exact ⟨b' :: b :: bs, by rw [List.mapM_cons, List.mapM_cons, hb, hb', hbs]; rfl, .swap _ _ _⟩
  | trans _ _ ih₁ ih₂ =>
    intro out h
    obtain ⟨o₁, h₁, p₁⟩ := ih₁ h
    obtain ⟨o₂, h₂, p₂⟩ := ih₂ h₁
    exact ⟨o₂, h₂, p₁.trans p₂⟩

end SentinelVisor
