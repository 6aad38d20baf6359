import Mathlib.Logic.Basic
import Mathlib.Tactic.Common

/-!
# Counted loops

`forRange a b body x` is `for (i = a; i < b; i++) x = body i x`.  Its rule
`forRange_induct` carries an invariant indexed by the counter.  `search f i n`
is a counted loop that returns from inside: it tries `f i`, `f (i + 1)`, up to
`n` of them, and stops at the first result.
-/

namespace Loop

variable {α β : Type}

/-- `n` turns of a loop whose counter starts at `a`. -/
def turns (body : Nat → α → α) (a : Nat) : Nat → α → α
  | 0, x => x
  | n + 1, x => body (a + n) (turns body a n x)

/-- `for (i = a; i < b; i++) x = body i x`. -/
def forRange (a b : Nat) (body : Nat → α → α) (x : α) : α := turns body a (b - a) x

theorem turns_induct {body : Nat → α → α} {a : Nat} {P : Nat → α → Prop} {x : α}
    (h0 : P a x) : ∀ n, (∀ i y, a ≤ i → i < a + n → P i y → P (i + 1) (body i y)) →
      P (a + n) (turns body a n x)
  | 0, _ => h0
  | n + 1, hs => by
      have ih := turns_induct h0 n (fun i y h1 h2 => hs i y h1 (by omega))
      exact hs (a + n) _ (by omega) (by omega) ih

/-- An invariant that holds at the first counter value and that every turn
carries to the next one holds at the end. -/
theorem forRange_induct (body : Nat → α → α) {a b : Nat} {P : Nat → α → Prop} {x : α}
    (hab : a ≤ b) (h0 : P a x) (hs : ∀ i y, a ≤ i → i < b → P i y → P (i + 1) (body i y)) :
    P b (forRange a b body x) := by
  have h := turns_induct h0 (b - a) (fun i y h1 h2 => hs i y h1 (by omega))
  rwa [Nat.add_sub_cancel' hab] at h

/-- A loop whose range is empty does nothing. -/
theorem forRange_of_le {body : Nat → α → α} {a b : Nat} {x : α} (h : b ≤ a) :
    forRange a b body x = x := by
  rw [forRange, Nat.sub_eq_zero_of_le h, turns]

/-- A property that every turn preserves holds at the end. -/
theorem forRange_preserves {body : Nat → α → α} {a b : Nat} {P : α → Prop} {x : α}
    (h0 : P x) (hs : ∀ i y, a ≤ i → i < b → P y → P (body i y)) :
    P (forRange a b body x) := by
  rcases Nat.le_total a b with hab | hba
  · exact forRange_induct body (P := fun _ => P) hab h0 hs
  · rwa [forRange_of_le hba]

/-- A loop commutes with an operation that every turn commutes with. -/
theorem forRange_comm {body : Nat → α → α} {g : α → α} (h : ∀ i x, body i (g x) = g (body i x))
    (a b : Nat) (x : α) : forRange a b body (g x) = g (forRange a b body x) := by
  have hturns : ∀ n, turns body a n (g x) = g (turns body a n x) := by
    intro n
    induction n with
    | zero => rfl
    | succ n ih => rw [turns, ih, h, turns]
  exact hturns (b - a)

/-! ## Loops that return -/

/-- The first result of `f i`, `f (i + 1)`, ..., at most `n` of them. -/
def search (f : Nat → Option β) : Nat → Nat → Option β
  | _, 0 => none
  | i, n + 1 =>
      match f i with
      | some b => some b
      | none => search f (i + 1) n

theorem search_eq_some {f : Nat → Option β} {b : β} : ∀ {n i : Nat},
    search f i n = some b → ∃ j, i ≤ j ∧ j < i + n ∧ f j = some b ∧
      ∀ k, i ≤ k → k < j → f k = none
  | 0, _, h => by cases h
  | n + 1, i, h => by
      cases hf : f i with
      | some c =>
          simp only [search, hf, Option.some.injEq] at h
          subst h
          exact ⟨i, Nat.le_refl i, by omega, hf, fun k h1 h2 => by omega⟩
      | none =>
          simp only [search, hf] at h
          obtain ⟨j, h1, h2, hj, hk⟩ := search_eq_some h
          refine ⟨j, by omega, by omega, hj, fun k hik hkj => ?_⟩
          rcases Nat.eq_or_lt_of_le hik with heq | hlt
          · exact heq ▸ hf
          · exact hk k hlt hkj

theorem search_eq_none {f : Nat → Option β} : ∀ {n i : Nat},
    search f i n = none ↔ ∀ j, i ≤ j → j < i + n → f j = none
  | 0, _ => by
      constructor
      · intro _ j h1 h2
        omega
      · intro _
        rfl
  | n + 1, i => by
      constructor
      · intro h
        cases hf : f i with
        | some c => simp [search, hf] at h
        | none =>
            simp only [search, hf] at h
            intro j h1 h2
            rcases Nat.eq_or_lt_of_le h1 with heq | hlt
            · exact heq ▸ hf
            · exact search_eq_none.mp h j hlt (by omega)
      · intro h
        simp only [search, h i (Nat.le_refl i) (by omega)]
        exact search_eq_none.mpr fun j h1 h2 => h j (by omega) (by omega)

end Loop
