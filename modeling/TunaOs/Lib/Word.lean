import Mathlib.Data.Nat.Bitwise
import Mathlib.Tactic.Common

/-!
# Machine words as natural numbers

Words are natural numbers below a power of two.  Arithmetic that can overflow
is written with an explicit `wrap64` or `wrap32`, and masks are written as the
bit operations of `Nat`.  The lemmas here turn the masks into arithmetic: a
conjunction with a high mask rounds down (`and_highMask`).  After that `omega`
does the work.
-/

namespace Word

/-- Reduction of a result to 64 bits. -/
def wrap64 (x : Nat) : Nat := x % 2 ^ 64

/-- Reduction of a result to 32 bits. -/
def wrap32 (x : Nat) : Nat := x % 2 ^ 32

/-- The addresses that the processor accepts. -/
def canonical (a : Nat) : Prop := a < 2 ^ 47 ∨ 2 ^ 64 - 2 ^ 47 ≤ a

instance (a : Nat) : Decidable (canonical a) := inferInstanceAs (Decidable (_ ∨ _))

theorem wrap64_of_lt {x : Nat} (h : x < 2 ^ 64) : wrap64 x = x := Nat.mod_eq_of_lt h

theorem wrap32_of_lt {x : Nat} (h : x < 2 ^ 32) : wrap32 x = x := Nat.mod_eq_of_lt h

theorem wrap64_lt (x : Nat) : wrap64 x < 2 ^ 64 := Nat.mod_lt _ (by decide)

theorem wrap32_lt (x : Nat) : wrap32 x < 2 ^ 32 := Nat.mod_lt _ (by decide)

/-! ## Masks -/

/-- The 64-bit mask `~(2 ^ k - 1)`. -/
def highMask (k : Nat) : Nat := 2 ^ 64 - 2 ^ k

theorem testBit_highMask {k : Nat} (hk : k ≤ 64) (i : Nat) :
    (highMask k).testBit i = (decide (i < 64) && decide (k ≤ i)) := by
  have hpos : 0 < 2 ^ k := Nat.two_pow_pos k
  have hlt : 2 ^ k - 1 < 2 ^ 64 :=
    Nat.lt_of_lt_of_le (Nat.sub_lt hpos Nat.one_pos) (Nat.pow_le_pow_right (by decide) hk)
  have hmask : highMask k = 2 ^ 64 - ((2 ^ k - 1) + 1) := by
    rw [highMask, Nat.sub_add_cancel hpos]
  rw [hmask, Nat.testBit_two_pow_sub_succ hlt, Nat.testBit_two_pow_sub_one]
  by_cases h : i < k
  · simp [h, Nat.not_le.mpr h]
  · simp [h, Nat.le_of_not_lt h]

/-- Masking the low bits off rounds down. -/
theorem and_highMask {k x : Nat} (hk : k ≤ 64) (hx : x < 2 ^ 64) :
    x &&& highMask k = x / 2 ^ k * 2 ^ k := by
  apply Nat.eq_of_testBit_eq
  intro i
  rw [Nat.testBit_and, testBit_highMask hk, Nat.testBit_mul_two_pow, Nat.testBit_div_two_pow]
  by_cases hi : k ≤ i
  · rw [Nat.sub_add_cancel hi]
    by_cases h64 : i < 64
    · simp [hi, h64]
    · have hbig : x.testBit i = false :=
        Nat.testBit_lt_two_pow (Nat.lt_of_lt_of_le hx (Nat.pow_le_pow_right (by decide) (by omega)))
      simp [hbig]
  · simp [hi]

/-- A single-bit test reads that bit. -/
theorem and_bit_ne_zero {x i : Nat} : x &&& 2 ^ i ≠ 0 ↔ x.testBit i = true := by
  rw [Nat.and_two_pow]
  cases x.testBit i <;> simp

/-! ## Rounding -/

/-- `ALIGN_UP` to a power of two, `((x) + (a) - 1) & ~((a) - 1)` in 64 bits. -/
def alignUp (x k : Nat) : Nat := wrap64 (x + 2 ^ k - 1) &&& highMask k

theorem alignUp_eq {k x : Nat} (hk : k ≤ 64) :
    alignUp x k = wrap64 (x + 2 ^ k - 1) / 2 ^ k * 2 ^ k :=
  and_highMask hk (wrap64_lt _)

end Word
