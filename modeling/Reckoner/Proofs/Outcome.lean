/-
  Reckoner/Proofs/Outcome.lean
  ============================
  **Chains of steps.**  How an outcome passes through the steps behind it: a
  failure unchanged, a value into the next step.  The stages of the calculator
  build lists in front of what later tokens give, so mapped `++` gets two laws of
  its own.

  A step's part in the failures of a chain is told by the kinds that it may give
  (`FailsOnly`): a failure of any other kind comes from a later step.
-/
import Reckoner.Failure

namespace Reckoner.Outcome

variable {α β γ : Type}

@[simp] theorem ok_bind (a : α) (f : α → Outcome β) : ((.ok a : Outcome α) >>= f) = f a := rfl

@[simp] theorem error_bind (failure : Failure) (f : α → Outcome β) :
    ((.error failure : Outcome α) >>= f) = .error failure := rfl

@[simp] theorem map_ok (f : α → β) (a : α) : f <$> (.ok a : Outcome α) = .ok (f a) := rfl

@[simp] theorem map_error (f : α → β) (failure : Failure) :
    f <$> (.error failure : Outcome α) = .error failure := rfl

theorem bind_eq_ok {x : Outcome α} {f : α → Outcome β} {b : β} :
    (x >>= f) = .ok b ↔ ∃ a, x = .ok a ∧ f a = .ok b := by
  cases x with
  | ok a => simp
  | error failure => simp

theorem map_eq_ok {f : α → β} {x : Outcome α} {b : β} :
    f <$> x = .ok b ↔ ∃ a, x = .ok a ∧ f a = b := by
  cases x with
  | ok a => simp
  | error failure => simp

theorem map_eq_error {f : α → β} {x : Outcome α} {failure : Failure} :
    f <$> x = .error failure ↔ x = .error failure := by
  cases x with
  | ok a => simp
  | error failure' => simp

theorem map_bind (f : α → β) (x : Outcome α) (g : β → Outcome γ) :
    (f <$> x) >>= g = x >>= fun a => g (f a) := by
  cases x <;> rfl

/-! ### Lists built in front -/

theorem nil_append_map (x : Outcome (List α)) : ([] ++ ·) <$> x = x := by
  cases x <;> rfl

theorem append_map_append_map (xs ys : List α) (x : Outcome (List α)) :
    (xs ++ ·) <$> ((ys ++ ·) <$> x) = ((xs ++ ys) ++ ·) <$> x := by
  cases x with
  | ok zs => simp
  | error failure => rfl

theorem cons_map (a : α) (x : Outcome (List α)) : (a :: ·) <$> x = ([a] ++ ·) <$> x := rfl

/-! ### Kinds of failures -/

/-- A failure can only be of one of some kinds, and it has the message of its
    kind. -/
def FailsOnly (kinds : List FailureKind) (x : Outcome α) : Prop :=
  ∀ failure, x = .error failure → ∃ kind ∈ kinds, failure = .of kind

namespace FailsOnly

variable {kinds later : List FailureKind} {x : Outcome α}

theorem ok (kinds : List FailureKind) (a : α) : FailsOnly kinds (.ok a : Outcome α) := by
  intro failure h
  cases h

theorem fail {kind : FailureKind} (h : kind ∈ kinds) : FailsOnly kinds (fail kind : Outcome α) := by
  intro failure hfailure
  cases hfailure
  exact ⟨kind, h, rfl⟩

theorem kind_mem (h : FailsOnly kinds x) {failure : Failure} (hx : x = .error failure) :
    failure.kind ∈ kinds := by
  obtain ⟨kind, hkind, rfl⟩ := h failure hx
  exact hkind

theorem mono (h : FailsOnly kinds x) (hsub : kinds ⊆ later) : FailsOnly later x := by
  intro failure hfailure
  obtain ⟨kind, hkind, hof⟩ := h failure hfailure
  exact ⟨kind, hsub hkind, hof⟩

theorem map (h : FailsOnly kinds x) (f : α → β) : FailsOnly kinds (f <$> x) := by
  intro failure hfailure
  cases x with
  | ok a => cases hfailure
  | error failure' =>
    cases hfailure
    exact h _ rfl

theorem bind (h : FailsOnly kinds x) {f : α → Outcome β}
    (hf : ∀ a, x = .ok a → FailsOnly later (f a)) : FailsOnly (kinds ++ later) (x >>= f) := by
  cases x with
  | ok a => exact (hf a rfl).mono (List.subset_append_right kinds later)
  | error failure =>
    intro failure' hfailure
    cases hfailure
    exact h.mono (List.subset_append_left kinds later) failure rfl

/-- A failure of a kind that a step cannot give comes from what is behind it. -/
theorem bind_eq_error (h : FailsOnly kinds x) {f : α → Outcome β} {failure : Failure}
    (hkind : failure.kind ∉ kinds) :
    (x >>= f) = .error failure ↔ ∃ a, x = .ok a ∧ f a = .error failure := by
  cases x with
  | ok a => simp
  | error failure' =>
    constructor
    · intro hfailure
      cases hfailure
      exact absurd (h.kind_mem rfl) hkind
    · rintro ⟨a, ha, -⟩
      cases ha

end FailsOnly

end Reckoner.Outcome

namespace Reckoner

theorem Failure.invalidToken_eq (text : String) :
    Failure.invalidToken text = ⟨.invalidExpression, "invalid token: " ++ text⟩ := by
  have hne : ("invalid token: " ++ text).isEmpty = false := by simp
  rw [invalidToken, saying, if_neg (by simp [hne])]

end Reckoner
