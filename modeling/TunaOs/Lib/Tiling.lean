import Mathlib.Algebra.BigOperators.Group.List.Basic
import Mathlib.Algebra.GroupWithZero.Nat
import Mathlib.Tactic.Common

/-!
# Blocks laid end to end

A list of blocks, each with a size, tiles a range of addresses: the first block
starts at the given address and every other one where its predecessor ends.
`place` pairs the blocks with their addresses.  Placed blocks stay inside the
range (`mem_place_bounds`) and do not overlap (`place_disjoint`).
-/

namespace Tiling

variable {β : Type} (size : β → Nat)

/-- The length of the range the blocks tile. -/
def total (bs : List β) : Nat := (bs.map size).sum

/-- The blocks with their addresses, the first one at `a`. -/
def place : Nat → List β → List (Nat × β)
  | _, [] => []
  | a, b :: bs => (a, b) :: place (a + size b) bs

@[simp] theorem total_nil : total size [] = 0 := rfl

@[simp] theorem total_cons (b : β) (bs : List β) :
    total size (b :: bs) = size b + total size bs := by
  simp [total]

@[simp] theorem total_append (bs cs : List β) :
    total size (bs ++ cs) = total size bs + total size cs := by
  simp [total]

@[simp] theorem place_nil (a : Nat) : place size a [] = [] := rfl

@[simp] theorem place_cons (a : Nat) (b : β) (bs : List β) :
    place size a (b :: bs) = (a, b) :: place size (a + size b) bs := rfl

theorem place_append : ∀ (a : Nat) (bs cs : List β),
    place size a (bs ++ cs) = place size a bs ++ place size (a + total size bs) cs
  | a, [], cs => by simp
  | a, b :: bs, cs => by
      simp only [List.cons_append, place_cons, total_cons, place_append (a + size b) bs cs,
        Nat.add_assoc]

variable {size}

/-- A placed block is one of the blocks and lies inside the range. -/
theorem mem_place_bounds {x : Nat} {b : β} : ∀ {bs : List β} {a : Nat},
    (x, b) ∈ place size a bs → b ∈ bs ∧ a ≤ x ∧ x + size b ≤ a + total size bs
  | [], a, h => by cases h
  | c :: bs, a, h => by
      rw [place_cons, List.mem_cons] at h
      rcases h with heq | h
      · obtain ⟨rfl, rfl⟩ := Prod.mk.inj heq
        exact ⟨List.mem_cons_self, Nat.le_refl _, by rw [total_cons]; omega⟩
      · obtain ⟨hmem, hlow, hhigh⟩ := mem_place_bounds h
        exact ⟨List.mem_cons_of_mem _ hmem, by omega, by rw [total_cons]; omega⟩

/-- A placed block splits the list in front of and behind it. -/
theorem place_split {x : Nat} {b : β} : ∀ {bs : List β} {a : Nat},
    (x, b) ∈ place size a bs → ∃ pre post, bs = pre ++ b :: post ∧ x = a + total size pre
  | [], a, h => by cases h
  | c :: bs, a, h => by
      rw [place_cons, List.mem_cons] at h
      rcases h with heq | h
      · obtain ⟨rfl, rfl⟩ := Prod.mk.inj heq
        exact ⟨[], bs, rfl, by simp⟩
      · obtain ⟨pre, post, rfl, rfl⟩ := place_split h
        exact ⟨c :: pre, post, rfl, by rw [total_cons]; omega⟩

/-- Two placed blocks are the same one, or one ends before the other starts. -/
theorem place_disjoint {x y : Nat} {b c : β} : ∀ {bs : List β} {a : Nat},
    (x, b) ∈ place size a bs → (y, c) ∈ place size a bs →
      (x = y ∧ b = c) ∨ x + size b ≤ y ∨ y + size c ≤ x
  | [], a, hx, _ => by cases hx
  | d :: bs, a, hx, hy => by
      rw [place_cons, List.mem_cons] at hx hy
      rcases hx with hx | hx <;> rcases hy with hy | hy
      · obtain ⟨rfl, rfl⟩ := Prod.mk.inj hx
        obtain ⟨rfl, rfl⟩ := Prod.mk.inj hy
        exact Or.inl ⟨rfl, rfl⟩
      · obtain ⟨rfl, rfl⟩ := Prod.mk.inj hx
        exact Or.inr (Or.inl (mem_place_bounds hy).2.1)
      · obtain ⟨rfl, rfl⟩ := Prod.mk.inj hy
        exact Or.inr (Or.inr (mem_place_bounds hx).2.1)
      · exact place_disjoint hx hy

end Tiling
