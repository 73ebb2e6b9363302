import StackScript.Proofs.Computation

/-!
# Computations that track each other

Two computations track each other if from states that correspond they end in the same way: both
with the same result or both with the same error, in states that correspond again. The rules below
follow the ways to put computations together.
-/

namespace StackScript

variable {ε σ τ α β : Type}

/-- Two computations ended in the same way, in states that correspond. -/
inductive SameEnd (states : σ → τ → Prop) :
    EStateM.Result ε σ α → EStateM.Result ε τ α → Prop
  | ok {result : α} {state : σ} {state' : τ} (h : states state state') :
      SameEnd states (.ok result state) (.ok result state')
  | error {error : ε} {state : σ} {state' : τ} (h : states state state') :
      SameEnd states (.error error state) (.error error state')

/-- From states that correspond, two computations end in the same way. -/
def Tracks (states : σ → τ → Prop) (left : EStateM ε σ α) (right : EStateM ε τ α) : Prop :=
  ∀ state state', states state state' → SameEnd states (left state) (right state')

namespace Tracks

variable {states : σ → τ → Prop}

theorem pure {result : α} :
    Tracks states (Pure.pure result : EStateM ε σ α) (Pure.pure result) := by
  intro state state' h
  exact .ok h

theorem throw {error : ε} :
    Tracks states (MonadExcept.throw error : EStateM ε σ α) (MonadExcept.throw error) := by
  intro state state' h
  exact .error h

theorem bind {first : EStateM ε σ α} {first' : EStateM ε τ α} {next : α → EStateM ε σ β}
    {next' : α → EStateM ε τ β} (h : Tracks states first first')
    (hnext : ∀ value, Tracks states (next value) (next' value)) :
    Tracks states (first >>= next) (first' >>= next') := by
  intro state state' hstates
  have hfirst := h state state' hstates
  simp only [Bind.bind, EStateM.bind]
  generalize first state = left, first' state' = right at hfirst
  cases hfirst with
  | ok hmiddle => exact hnext _ _ _ hmiddle
  | error hmiddle => exact .error hmiddle

/-- The same test on both sides decides for both. -/
theorem ite {test : Prop} [Decidable test] {yes no : EStateM ε σ α} {yes' no' : EStateM ε τ α}
    (hyes : Tracks states yes yes') (hno : Tracks states no no') :
    Tracks states (if test then yes else no) (if test then yes' else no') := by
  split
  · exact hyes
  · exact hno

end Tracks

end StackScript
