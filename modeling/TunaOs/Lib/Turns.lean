import Mathlib.Data.List.Count
import Mathlib.Data.List.Nodup
import Mathlib.Data.List.TakeWhile
import Mathlib.Tactic.Common

/-!
# Taking turns

A list is read in a circle, from the element behind the one whose turn it is.
`ahead x y l` counts how often `y` comes before `x`: what lies behind `x` does not
matter (`ahead_append_of_mem`), nor do the other elements (`ahead_filter`).
`next_split` reads the same circle from the element that is next.
-/

namespace Turns

variable {α : Type} [DecidableEq α] {x y : α} {l l' : List α}

/-- How often `y` comes before `x`. -/
def ahead (x y : α) (l : List α) : Nat := (l.takeWhile (· ≠ x)).count y

theorem ahead_cons_self : ahead x y (x :: l) = 0 := by simp [ahead]

theorem ahead_of_not_mem (h : x ∉ l) : ahead x y l = l.count y := by
  have hall : ∀ z ∈ l, decide (z ≠ x) = true := fun z hz =>
    decide_eq_true fun heq => h (heq ▸ hz)
  rw [ahead, List.takeWhile_eq_self_iff.mpr hall]

theorem ahead_append_of_mem (h : x ∈ l) : ahead x y (l ++ l') = ahead x y l := by
  rw [ahead, ahead, List.takeWhile_append, if_neg]
  intro hlen
  have hpre := List.takeWhile_prefix (l := l) (fun z => decide (z ≠ x))
  exact of_decide_eq_true (List.takeWhile_eq_self_iff.mp (hpre.eq_of_length hlen) x h) rfl

theorem ahead_append_of_not_mem (h : x ∉ l) : ahead x y (l ++ l') = l.count y + ahead x y l' := by
  have hall : ∀ z ∈ l, decide (z ≠ x) = true := fun z hz =>
    decide_eq_true fun heq => h (heq ▸ hz)
  rw [ahead, ahead, List.takeWhile_append_of_pos hall, List.count_append]

/-- Other elements do not matter. -/
theorem ahead_filter {p : α → Bool} (hx : p x = true) (hy : p y = true) :
    ∀ l : List α, ahead x y (l.filter p) = ahead x y l
  | [] => rfl
  | z :: l => by
      by_cases hzx : z = x
      · subst hzx
        rw [List.filter_cons_of_pos hx, ahead_cons_self, ahead_cons_self]
      · have hcons : ∀ l' : List α, ahead x y (z :: l') = [z].count y + ahead x y l' := fun l' =>
          ahead_append_of_not_mem (l := [z]) (by simpa using Ne.symm hzx)
        rw [hcons, ← ahead_filter hx hy l]
        cases hp : p z with
        | true => rw [List.filter_cons_of_pos hp, hcons]
        | false =>
            have hzy : z ≠ y := by
              rintro rfl
              rw [hy] at hp
              cases hp
            rw [List.filter_cons_of_neg (by simp [hp]), List.count_singleton,
              if_neg (by simpa using hzy),
              Nat.zero_add]

omit [DecidableEq α] in
/-- The first good element `d` behind `c`, in a circle that is read from anywhere. -/
theorem next_split {l₁ l₂ : List α} {c d : α} {good : α → Bool}
    (h : (l₂ ++ l₁).find? good = some d) :
    ∃ pre suf L₁ L₂, l₂ ++ l₁ = pre ++ d :: suf ∧ (∀ z ∈ pre, good z = false) ∧
      l₁ ++ c :: l₂ = L₁ ++ d :: L₂ ∧ L₂ ++ L₁ = suf ++ c :: pre := by
  rw [List.find?_append] at h
  cases h₂ : l₂.find? good with
  | some e =>
      rw [h₂, Option.some_or] at h
      obtain rfl := Option.some.inj h
      obtain ⟨-, pre, suf, rfl, hpre⟩ := List.find?_eq_some_iff_append.mp h₂
      exact ⟨pre, suf ++ l₁, l₁ ++ c :: pre, suf, by simp, fun z hz => by simpa using hpre z hz,
        by simp, by simp⟩
  | none =>
      rw [h₂, Option.none_or] at h
      obtain ⟨-, pre, suf, rfl, hpre⟩ := List.find?_eq_some_iff_append.mp h
      refine ⟨l₂ ++ pre, suf, pre, suf ++ c :: l₂, by simp, fun z hz => ?_, by simp, by simp⟩
      rcases List.mem_append.mp hz with hz | hz
      · exact Bool.eq_false_iff.mpr (List.find?_eq_none.mp h₂ z hz)
      · simpa using hpre z hz

end Turns
