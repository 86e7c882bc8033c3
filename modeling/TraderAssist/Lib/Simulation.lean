/-
TraderAssist/Lib/Simulation.lean

Machines that take a list of inputs one by one and give an output for each.

`outputs_forall₂` is the simulation rule for two such machines on the same
inputs: a relation between their states, which may depend on the inputs
consumed so far, that every step keeps while the outputs are related.  `Along` is a
condition on every input of a run in the state it comes to, `Along.invariant` the rule for
what the steps keep under it.
-/
import Mathlib.Data.List.Forall2
import Mathlib.Data.List.Infix

namespace Py

variable {σ τ ι ο ο' : Type}

/-- The outputs of a machine on a list of inputs. -/
def outputs (step : σ → ι → σ × ο) : σ → List ι → List ο
  | _, [] => []
  | s, x :: xs => (step s x).2 :: outputs step (step s x).1 xs

/-- The state of a machine after a list of inputs. -/
def stateAfter (step : σ → ι → σ × ο) (s : σ) (xs : List ι) : σ :=
  xs.foldl (fun s x => (step s x).1) s

/-- **Simulation.** The relation holds between the states on what has been
consumed, a step keeps it and relates the outputs. -/
theorem outputs_forall₂ {step : σ → ι → σ × ο} {step' : τ → ι → τ × ο'}
    {R : List ι → σ → τ → Prop} {O : ο → ο' → Prop} {all : List ι}
    (hstep : ∀ done x s t, done ++ [x] <+: all → R done s t →
      R (done ++ [x]) (step s x).1 (step' t x).1 ∧ O (step s x).2 (step' t x).2) :
    ∀ (xs done : List ι) (s : σ) (t : τ), done ++ xs = all → R done s t →
      List.Forall₂ O (outputs step s xs) (outputs step' t xs) := by
  intro xs
  induction xs with
  | nil => exact fun _ _ _ _ _ => .nil
  | cons x xs ih =>
    intro done s t hall hR
    have hspl : (done ++ [x]) ++ xs = all := by simpa using hall
    obtain ⟨hR', hO⟩ := hstep done x s t ⟨xs, hspl⟩ hR
    exact .cons hO (ih (done ++ [x]) _ _ hspl hR')

/-- What holds of two states and is kept by a step on both holds after any
inputs. -/
theorem stateAfter_related {step : σ → ι → σ × ο} {step' : τ → ι → τ × ο'} {R : σ → τ → Prop}
    (hstep : ∀ x s t, R s t → R (step s x).1 (step' t x).1) (xs : List ι) :
    ∀ {s : σ} {t : τ}, R s t → R (stateAfter step s xs) (stateAfter step' t xs) := by
  induction xs with
  | nil => exact fun h => h
  | cons x xs ih => exact fun h => ih (hstep x _ _ h)

/-! ### Conditions along a run -/

/-- Every input meets a condition on the state it comes to. -/
def Along (step : σ → ι → σ) (C : σ → ι → Prop) : σ → List ι → Prop
  | _, [] => True
  | s, x :: xs => C s x ∧ Along step C (step s x) xs

theorem Along.invariant {step : σ → ι → σ} {C : σ → ι → Prop} {I : σ → Prop}
    (hstep : ∀ s x, I s → C s x → I (step s x)) {xs : List ι} :
    ∀ {s : σ}, Along step C s xs → I s → I (xs.foldl step s) := by
  induction xs with
  | nil => exact fun _ h => h
  | cons x xs ih => exact fun hC h => ih hC.2 (hstep _ x h hC.1)

end Py
