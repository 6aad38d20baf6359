import Mathlib.Logic.Basic
import Mathlib.Tactic.Common

/-!
# Schedules

Several parties act on one state, one turn at a time, in an order that a schedule says.  A
turn is a label, and what it does to a state is a function.

`run_invariant` is the rule for what holds at all times.  `eventually_of_helpful` is the rule
for what holds at some time: if the turns of some kind come often enough, and each of them
brings the goal closer while no other turn takes it away.
-/

namespace Fair

variable {S T : Type}

/-- The state after `n` turns. -/
def run (turn : T → S → S) (sched : Nat → T) (s : S) : Nat → S
  | 0 => s
  | n + 1 => turn (sched n) (run turn sched s n)

/-- The schedule from a time on. -/
def after (sched : Nat → T) (n : Nat) : Nat → T := fun m => sched (n + m)

/-- There are turns of a kind at arbitrarily late times. -/
def Often (sched : Nat → T) (P : T → Prop) : Prop := ∀ n, ∃ m, n ≤ m ∧ P (sched m)

theorem Often.after {sched : Nat → T} {P : T → Prop} (h : Often sched P) (n : Nat) :
    Often (after sched n) P := by
  intro k
  obtain ⟨m, hm, hP⟩ := h (n + k)
  refine ⟨m - n, by omega, ?_⟩
  rw [Fair.after, Nat.add_sub_cancel' (by omega)]
  exact hP

section

variable {turn : T → S → S}

theorem run_add (sched : Nat → T) (s : S) (n : Nat) : ∀ m,
    run turn sched s (n + m) = run turn (after sched n) (run turn sched s n) m
  | 0 => rfl
  | m + 1 => congrArg (turn (sched (n + m))) (run_add sched s n m)

/-- What every turn keeps holds at all times. -/
theorem run_invariant {I : S → Prop} (hstep : ∀ t s, I s → I (turn t s)) {s : S} (h0 : I s)
    (sched : Nat → T) : ∀ n, I (run turn sched s n)
  | 0 => h0
  | n + 1 => hstep _ _ (run_invariant hstep h0 sched n)

/-- If the goal is not reached within `n` turns, the turns have kept `J` and not raised the
measure. -/
theorem run_keeps {J G : S → Prop} {μ : S → Nat}
    (hstep : ∀ t s, J s → ¬ G s → G (turn t s) ∨ J (turn t s) ∧ μ (turn t s) ≤ μ s)
    {sched : Nat → T} {s : S} (hJ : J s) : ∀ {n : Nat}, (∀ m ≤ n, ¬ G (run turn sched s m)) →
      J (run turn sched s n) ∧ μ (run turn sched s n) ≤ μ s
  | 0, _ => ⟨hJ, Nat.le_refl _⟩
  | n + 1, hno => by
      obtain ⟨hJn, hμn⟩ := run_keeps hstep hJ fun m hm => hno m (Nat.le_succ_of_le hm)
      rcases hstep (sched n) _ hJn (hno n (Nat.le_succ n)) with hG | ⟨hJ', hμ'⟩
      · exact absurd hG (hno (n + 1) (Nat.le_refl _))
      · exact ⟨hJ', Nat.le_trans hμ' hμn⟩

/-- Turns that come often enough and lower a measure that no turn raises reach the goal. -/
theorem eventually_of_helpful {J G : S → Prop} (μ : S → Nat) {helpful : T → Prop}
    (hstep : ∀ t s, J s → ¬ G s → G (turn t s) ∨ J (turn t s) ∧ μ (turn t s) ≤ μ s)
    (hdec : ∀ t s, helpful t → J s → ¬ G s →
      G (turn t s) ∨ J (turn t s) ∧ μ (turn t s) < μ s)
    {sched : Nat → T} (hoften : Often sched helpful) {s : S} (hJ : J s) :
    ∃ n, G (run turn sched s n) := by
  -- by induction on the measure, with the schedule from the next helpful turn on
  induction hμ : μ s using Nat.strongRecOn generalizing s sched with
  | ind k ih =>
      by_contra hnone
      have hno : ∀ n, ¬ G (run turn sched s n) := fun n hG => hnone ⟨n, hG⟩
      obtain ⟨m, -, hhelp⟩ := hoften 0
      obtain ⟨hJm, hμm⟩ := run_keeps hstep hJ fun n (_ : n ≤ m) => hno n
      rcases hdec (sched m) _ hhelp hJm (hno m) with hG | ⟨hJ', hμ'⟩
      · exact hno (m + 1) hG
      · have hlt : μ (run turn sched s (m + 1)) < k := by
          rw [← hμ]
          exact Nat.lt_of_lt_of_le hμ' hμm
        obtain ⟨n, hG⟩ := ih _ hlt (hoften.after (m + 1)) hJ' rfl
        refine hno (m + 1 + n) ?_
        rw [run_add]
        exact hG

end

end Fair
