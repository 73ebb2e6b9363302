/-!
# Computations with a state that may fail

How a sequence of computations comes to succeed or to fail, in terms of its parts.
-/

namespace StackScript

variable {ε σ α β : Type}

/-- A sequence succeeds exactly if its first part does and the second does from there. -/
theorem bind_eq_ok {first : EStateM ε σ α} {next : α → EStateM ε σ β} {state state' : σ}
    {result : β} :
    (first >>= next) state = .ok result state' ↔
      ∃ value middle, first state = .ok value middle ∧ next value middle = .ok result state' := by
  simp only [bind, EStateM.bind]
  cases first state with
  | ok value middle => simp [and_assoc]
  | error error middle => simp

/-- A sequence fails exactly if its first part does, or the second does after it. -/
theorem bind_eq_error {first : EStateM ε σ α} {next : α → EStateM ε σ β} {state state' : σ}
    {error : ε} :
    (first >>= next) state = .error error state' ↔
      first state = .error error state' ∨
        ∃ value middle, first state = .ok value middle ∧
          next value middle = .error error state' := by
  simp only [bind, EStateM.bind]
  cases first state with
  | ok value middle => simp [and_assoc]
  | error error middle => simp

/-- After its first part has succeeded, a sequence goes on with the second. -/
theorem bind_of_ok {first : EStateM ε σ α} {next : α → EStateM ε σ β} {state middle : σ}
    {value : α} (h : first state = .ok value middle) :
    (first >>= next) state = next value middle := by
  simp only [bind, EStateM.bind, h]

/-- Reading the state hands it on and keeps it. -/
theorem get_bind {next : σ → EStateM ε σ β} {state : σ} :
    ((get : EStateM ε σ σ) >>= next) state = next state state :=
  rfl

/-- Changing the state succeeds. -/
theorem modify_eq {change : σ → σ} {state : σ} :
    (modify change : EStateM ε σ Unit) state = .ok () (change state) :=
  rfl

theorem pure_eq_ok {value result : α} {state state' : σ} :
    (pure value : EStateM ε σ α) state = .ok result state' ↔ value = result ∧ state = state' := by
  simp [pure, EStateM.pure]

theorem throw_ne_ok {error : ε} {result : α} {state state' : σ} :
    (throw error : EStateM ε σ α) state ≠ .ok result state' := by
  intro h
  cases h

theorem pure_ne_error {error : ε} {result : α} {state state' : σ} :
    (pure result : EStateM ε σ α) state ≠ .error error state' := by
  simp [pure, EStateM.pure]

theorem throw_eq_error {error error' : ε} {state state' : σ} :
    (throw error : EStateM ε σ α) state = .error error' state' ↔
      error = error' ∧ state = state' := by
  constructor
  · intro h
    cases h
    exact ⟨rfl, rfl⟩
  · rintro ⟨rfl, rfl⟩
    rfl

end StackScript
