import Mathlib.Data.List.Induction
import Mathlib.Tactic.Common

/-!
# Radix trees in a store

A store `G` gives every node `t` an entry `G t i` for each index `i`, and an
entry may point to a child.  `follow` goes down from a root along a path of
indices.  A tree is `Unshared` down to depth `d` if no node is reached by two
paths.  Under that condition a change of one entry is felt on the paths through
it only: `follow_congr` covers entries that keep their child, and `follow_link`
an entry that gets a new, empty node as its child.
-/

namespace Radix

variable {α ι ε : Type} {child : ε → Option α} {G G' : α → ι → ε} {r : α} {d : Nat}

/-- The node reached from `r` along a path. -/
def follow (child : ε → Option α) (G : α → ι → ε) : α → List ι → Option α
  | r, [] => some r
  | r, i :: p => (child (G r i)).bind fun c => follow child G c p

@[simp] theorem follow_nil : follow child G r [] = some r := rfl

/-- Going one step further. -/
theorem follow_concat (p : List ι) (i : ι) :
    follow child G r (p ++ [i]) = (follow child G r p).bind fun t => child (G t i) := by
  induction p generalizing r with
  | nil => simp [follow]
  | cons j p ih =>
      rw [List.cons_append, follow, follow]
      cases child (G r j) with
      | none => rfl
      | some c => exact ih

theorem follow_append (p q : List ι) :
    follow child G r (p ++ q) = (follow child G r p).bind fun t => follow child G t q := by
  induction p generalizing r with
  | nil => rfl
  | cons j p ih =>
      rw [List.cons_append, follow, follow]
      cases child (G r j) with
      | none => rfl
      | some c => exact ih

/-- A node further down is reached through the nodes above it. -/
theorem follow_of_append {p q : List ι} {u : α} (h : follow child G r (p ++ q) = some u) :
    ∃ t, follow child G r p = some t ∧ follow child G t q = some u := by
  rw [follow_append] at h
  exact Option.bind_eq_some_iff.mp h

/-- No node is reached by two paths of length at most `d`. -/
def Unshared (child : ε → Option α) (G : α → ι → ε) (r : α) (d : Nat) : Prop :=
  ∀ p q t, p.length ≤ d → q.length ≤ d →
    follow child G r p = some t → follow child G r q = some t → p = q

/-- Paths read the children of the nodes above depth `d`. -/
theorem follow_congr
    (h : ∀ p t, p.length < d → follow child G r p = some t →
      ∀ i, child (G' t i) = child (G t i)) :
    ∀ p : List ι, p.length ≤ d → follow child G' r p = follow child G r p := by
  intro p
  induction p using List.reverseRecOn with
  | nil => exact fun _ => rfl
  | append_singleton p i ih =>
      intro hp
      rw [List.length_append, List.length_singleton] at hp
      rw [follow_concat, follow_concat, ih (by omega)]
      cases ht : follow child G r p with
      | none => rfl
      | some t => exact h p t (by omega) ht i

theorem Unshared.congr (hu : Unshared child G r d)
    (h : ∀ p : List ι, p.length ≤ d → follow child G' r p = follow child G r p) :
    Unshared child G' r d := by
  intro p q t hp hq hpt hqt
  rw [h p hp] at hpt
  rw [h q hq] at hqt
  exact hu p q t hp hq hpt hqt

/-- A node `f` that was not in the tree becomes the child at index `i` of the
node at path `p`. -/
structure Links (child : ε → Option α) (G G' : α → ι → ε) (r : α) (d : Nat) (p : List ι) (i : ι)
    (t f : α) : Prop where
  /-- The place of the new child. -/
  place : follow child G r p = some t
  /-- The place is above the last level. -/
  above : p.length < d
  /-- It was empty. -/
  empty : child (G t i) = none
  /-- The new node was not in the tree. -/
  fresh : ∀ q, q.length ≤ d → follow child G r q ≠ some f
  /-- Now it is linked. -/
  linked : child (G' t i) = some f
  /-- It has no children. -/
  leafless : ∀ j, child (G' f j) = none
  /-- Other entries keep their children. -/
  other : ∀ q u, q.length < d → follow child G r q = some u →
    ∀ j, ¬ (u = t ∧ j = i) → child (G' u j) = child (G u j)

theorem follow_link [DecidableEq ι] {p : List ι} {i : ι} {t f : α}
    (hu : Unshared child G r d) (hl : Links child G G' r d p i t f) :
    ∀ q : List ι, q.length ≤ d →
      follow child G' r q = if q = p ++ [i] then some f else follow child G r q := by
  intro q
  induction q using List.reverseRecOn with
  | nil =>
      intro _
      rw [if_neg (by simp)]
      rfl
  | append_singleton q j ih =>
      intro hq
      rw [List.length_append, List.length_singleton] at hq
      rw [follow_concat, follow_concat, ih (by omega)]
      by_cases hqp : q = p ++ [i]
      · -- below the new node there is nothing
        subst hqp
        have hne : p ++ [i] ++ [j] ≠ p ++ [i] := by simp
        rw [if_pos rfl, if_neg hne, follow_concat, hl.place]
        simp only [Option.bind_some, hl.leafless j, hl.empty, Option.bind_none]
      · rw [if_neg hqp]
        cases hqu : follow child G r q with
        | none =>
            have hne : q ++ [j] ≠ p ++ [i] := fun heq => by
              obtain ⟨rfl, -⟩ := List.append_inj' heq rfl
              rw [hl.place] at hqu
              cases hqu
            rw [if_neg hne]
            rfl
        | some u =>
            by_cases hat : u = t ∧ j = i
            · obtain ⟨rfl, rfl⟩ := hat
              obtain rfl := hu q p u (by omega) (Nat.le_of_lt hl.above) hqu hl.place
              rw [if_pos rfl]
              exact hl.linked
            · have hne : q ++ [j] ≠ p ++ [i] := fun heq => by
                obtain ⟨rfl, hj⟩ := List.append_inj' heq rfl
                rw [hl.place] at hqu
                exact hat ⟨(Option.some.inj hqu).symm, by simpa using hj⟩
              rw [if_neg hne]
              exact hl.other q u (by omega) hqu j hat

theorem Unshared.link [DecidableEq ι] {p : List ι} {i : ι} {t f : α}
    (hu : Unshared child G r d) (hl : Links child G G' r d p i t f) : Unshared child G' r d := by
  have hf := follow_link hu hl
  intro q q' u hq hq' hqu hqu'
  rw [hf q hq] at hqu
  rw [hf q' hq'] at hqu'
  by_cases h : q = p ++ [i] <;> by_cases h' : q' = p ++ [i]
  · rw [h, h']
  · rw [if_pos h] at hqu
    rw [if_neg h', ← Option.some.inj hqu] at hqu'
    exact absurd hqu' (hl.fresh q' hq')
  · rw [if_pos h'] at hqu'
    rw [if_neg h, ← Option.some.inj hqu'] at hqu
    exact absurd hqu (hl.fresh q hq)
  · rw [if_neg h] at hqu
    rw [if_neg h'] at hqu'
    exact hu q q' u hq hq' hqu hqu'

end Radix
