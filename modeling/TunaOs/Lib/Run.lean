import Mathlib.Logic.Basic
import Mathlib.Tactic.Common

/-!
# Runs of a transition system

A system is a set of initial states and a step relation.  `Reachable` closes
the first under the second, and `Reachable.invariant` is the induction every
safety theorem of the development goes through.
-/

namespace Run

variable {S : Type}

/-- The states a run can reach. -/
inductive Reachable (init : S → Prop) (step : S → S → Prop) : S → Prop
  | init {s : S} : init s → Reachable init step s
  | step {s t : S} : Reachable init step s → step s t → Reachable init step t

/-- A property of the initial states that every step keeps holds in every
reachable state. -/
theorem Reachable.invariant {init : S → Prop} {step : S → S → Prop} {P : S → Prop}
    (hinit : ∀ s, init s → P s) (hstep : ∀ s t, P s → step s t → P t) {s : S}
    (h : Reachable init step s) : P s := by
  induction h with
  | init h0 => exact hinit _ h0
  | step _ hst ih => exact hstep _ _ ih hst

/-- Reachability is monotone in both relations. -/
theorem Reachable.mono {init init' : S → Prop} {step step' : S → S → Prop}
    (hinit : ∀ s, init s → init' s) (hstep : ∀ s t, step s t → step' s t) {s : S}
    (h : Reachable init step s) : Reachable init' step' s := by
  induction h with
  | init h0 => exact .init (hinit _ h0)
  | step _ hst ih => exact .step ih (hstep _ _ hst)

/-! ## Labels -/

/-- Runs of steps that carry labels, through states with the property `P`, with the labels
in order. -/
inductive Traced {L : Type} (step : S → List L → S → Prop) (P : S → Prop) : S → List L → S → Prop
  | refl {s : S} : P s → Traced step P s [] s
  | step {s t u : S} {ls l : List L} : Traced step P s ls t → step t l u → P u →
      Traced step P s (ls ++ l) u

end Run
