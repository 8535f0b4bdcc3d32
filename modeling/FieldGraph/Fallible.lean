/-! # Computations that may be refused

A computation over a state may be refused at any point; what it changed before that stays changed.
-/

namespace FieldGraph

/-- A computation over a state `σ` that may be refused for a reason in `ε`. -/
abbrev Fallible (ε σ : Type) := ExceptT ε (StateM σ)

namespace Fallible

variable {ε σ α : Type}

/-- Takes over a result that does not depend on the state. -/
def ofExcept (result : Except ε α) : Fallible ε σ α := ExceptT.mk (pure result)

def outcome (action : Fallible ε σ α) (state : σ) : Except ε α × σ :=
  (ExceptT.run action).run state

def ofOutcome (outcome : σ → Except ε α × σ) : Fallible ε σ α := ExceptT.mk outcome

@[simp]
theorem outcome_ofOutcome (f : σ → Except ε α × σ) (state : σ) :
    (ofOutcome f).outcome state = f state := rfl

end Fallible

end FieldGraph
