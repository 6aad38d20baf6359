import Mathlib.Data.List.TakeWhile
import Mathlib.Tactic.Common

/-!
# Texts with fields

A text of literals and fields is read from the front.  `lit` reads a literal.  A field is all
characters up to the first one that cannot be part of it, so in front of such a character it
is read back exactly (`takeWhile_field`, `dropWhile_field`).
-/

namespace Field

variable {α : Type} [DecidableEq α]

/-- What follows a literal at the front of a text. -/
def lit : List α → List α → Option (List α)
  | [], t => some t
  | _ :: _, [] => none
  | c :: l, d :: t => if c = d then lit l t else none

@[simp] theorem lit_append : ∀ l t : List α, lit l (l ++ t) = some t
  | [], _ => rfl
  | c :: l, t => by rw [List.cons_append, lit, if_pos rfl, lit_append]

omit [DecidableEq α]

/-- A field in front of a character that cannot be part of it. -/
theorem takeWhile_field {p : α → Bool} {u r : List α} {c : α} (hu : ∀ x ∈ u, p x = true)
    (hc : p c = false) : (u ++ c :: r).takeWhile p = u := by
  have hstop : ¬ p c = true := ne_true_of_eq_false hc
  rw [List.takeWhile_append_of_pos hu, List.takeWhile_cons_of_neg hstop, List.append_nil]

/-- What follows it. -/
theorem dropWhile_field {p : α → Bool} {u r : List α} {c : α} (hu : ∀ x ∈ u, p x = true)
    (hc : p c = false) : (u ++ c :: r).dropWhile p = c :: r := by
  have hstop : ¬ p c = true := ne_true_of_eq_false hc
  rw [List.dropWhile_append_of_pos hu, List.dropWhile_cons_of_neg hstop]

end Field
