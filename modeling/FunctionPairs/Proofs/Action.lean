import FunctionPairs.Action

/-!
Steps seen without their records. A sequence of steps ends well exactly if its first step does
and the others do from what it leaves.
-/
namespace FunctionPairs.Action

variable {σ α β : Type}

@[simp] theorem value_pure (a : α) (s : σ) : ((pure a : Action σ α) s).value = (.ok a, s) := rfl

@[simp] theorem value_ofLogged (l : Logged α) (s : σ) :
    (ofLogged l s).value = (.ok l.value, s) := rfl

theorem value_bind_of_ok {m : Action σ α} {s s' : σ} {a : α} (h : (m s).value = (.ok a, s'))
    (f : α → Action σ β) : ((m >>= f) s).value = (f a s').value := by
  simp only [bind, h]

theorem value_bind_of_error {m : Action σ α} {s s' : σ} {e : Failure}
    (h : (m s).value = (.error e, s')) (f : α → Action σ β) :
    ((m >>= f) s).value = (.error e, s') := by
  simp only [bind, h]

theorem bind_eq_ok {m : Action σ α} {f : α → Action σ β} {s s'' : σ} {b : β} :
    ((m >>= f) s).value = (.ok b, s'') ↔
      ∃ a s', (m s).value = (.ok a, s') ∧ (f a s').value = (.ok b, s'') := by
  constructor
  · intro h
    cases hm : (m s).value with
    | mk outcome s' =>
      cases outcome with
      | ok a => exact ⟨a, s', rfl, (value_bind_of_ok hm f).symm.trans h⟩
      | error e =>
        rw [value_bind_of_error hm] at h
        cases h
  · rintro ⟨a, s', hm, hf⟩
    exact (value_bind_of_ok hm f).trans hf

theorem bind_cases {m : Action σ α} {f : α → Action σ β} {s s' : σ} {r : Except Failure β}
    (h : ((m >>= f) s).value = (r, s')) :
    (∃ e, (m s).value = (.error e, s') ∧ r = .error e) ∨
      ∃ a s₁, (m s).value = (.ok a, s₁) ∧ (f a s₁).value = (r, s') := by
  cases hm : (m s).value with
  | mk outcome s₁ =>
    cases outcome with
    | error e =>
      rw [value_bind_of_error hm] at h
      cases h
      exact .inl ⟨e, rfl, rfl⟩
    | ok a =>
      rw [value_bind_of_ok hm] at h
      exact .inr ⟨a, s₁, rfl, h⟩

theorem bind_related {r : σ → σ → Prop} (htrans : ∀ s s' s'', r s s' → r s' s'' → r s s'')
    {m : Action σ α} {f : α → Action σ β} {s : σ} (hm : r s (m s).value.2)
    (hf : ∀ a s', (m s).value = (.ok a, s') → r s' (f a s').value.2) :
    r s ((m >>= f) s).value.2 := by
  cases h : (m s).value with
  | mk outcome s' =>
    rw [h] at hm
    cases outcome with
    | error e =>
      rw [value_bind_of_error h]
      exact hm
    | ok a =>
      rw [value_bind_of_ok h]
      exact htrans _ _ _ hm (hf a s' h)

theorem ofExcept_eq_ok {x : Except Failure α} {s s' : σ} {a : α} :
    (ofExcept x s).value = (.ok a, s') ↔ x = .ok a ∧ s' = s := by
  cases x with
  | ok b =>
    show (Except.ok b, s) = (Except.ok a, s') ↔ _
    rw [Prod.mk.injEq, eq_comm (a := s)]
  | error e =>
    show (Except.error e, s) = (Except.ok a, s') ↔ _
    rw [Prod.mk.injEq]
    exact ⟨fun h => (nomatch h.1), fun h => (nomatch h.1)⟩

theorem value_bind_ofExcept {x : Except Failure α} {a : α} (h : x = .ok a) (f : α → Action σ β)
    (s : σ) : ((ofExcept x >>= f) s).value = (f a s).value :=
  value_bind_of_ok (ofExcept_eq_ok.mpr ⟨h, rfl⟩) f

theorem bind_ofExcept_cases {x : Except Failure α} {f : α → Action σ β} {s s' : σ}
    {r : Except Failure β} (h : ((ofExcept x >>= f) s).value = (r, s')) :
    (∃ e, x = .error e ∧ r = .error e ∧ s' = s) ∨ ∃ a, x = .ok a ∧ (f a s).value = (r, s') := by
  cases x with
  | error e =>
    cases h
    exact .inl ⟨e, rfl, rfl, rfl⟩
  | ok a => exact .inr ⟨a, rfl, (value_bind_ofExcept rfl f s).symm.trans h⟩

end FunctionPairs.Action
