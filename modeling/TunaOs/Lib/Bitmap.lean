import Mathlib.Data.Nat.Count
import Mathlib.Logic.Function.Basic
import Mathlib.Tactic.Common

/-!
# Bitmaps held in bytes

Entry `n` of a bitmap is bit `n % 8` of byte `n / 8`.  The three operations are
the usual shift-and-mask ones.  `test_set` and `test_clear` say that they act
on one entry, and `full_iff` that a byte is `0xFF` exactly when its eight
entries are set.  `ones b n` counts the entries set below `n`.
-/

/-- A bitmap: its bytes. -/
abbrev Bitmap := Nat → BitVec 8

namespace Bitmap

/-- The mask of an entry within its byte. -/
def bit (n : Nat) : BitVec 8 := 1#8 <<< (n % 8)

/-- `bitmap[n / 8] |= (1 << (n % 8))`. -/
def set (b : Bitmap) (n : Nat) : Bitmap :=
  Function.update b (n / 8) (b (n / 8) ||| bit n)

/-- `bitmap[n / 8] &= ~(1 << (n % 8))`. -/
def clear (b : Bitmap) (n : Nat) : Bitmap :=
  Function.update b (n / 8) (b (n / 8) &&& ~~~ bit n)

/-- `bitmap[n / 8] & (1 << (n % 8))`, read as a truth value. -/
def test (b : Bitmap) (n : Nat) : Bool := b (n / 8) &&& bit n != 0#8

theorem getLsbD_bit (n i : Nat) : (bit n).getLsbD i = decide (i = n % 8) := by
  have hn : n % 8 < 8 := Nat.mod_lt _ (by decide)
  simp only [bit, BitVec.getLsbD_shiftLeft, BitVec.getLsbD_one]
  by_cases hi : i = n % 8
  · simp [hi, hn]
  · by_cases hlt : i < n % 8
    · simp [hlt, hi]
    · have : i - n % 8 ≠ 0 := by omega
      simp [hi, this]

/-- The test reads one bit of the byte. -/
theorem test_eq (b : Bitmap) (n : Nat) : test b n = (b (n / 8)).getLsbD (n % 8) := by
  have hn : n % 8 < 8 := Nat.mod_lt _ (by decide)
  cases h : (b (n / 8)).getLsbD (n % 8) with
  | true =>
      have : b (n / 8) &&& bit n ≠ 0#8 := by
        intro heq
        have hbit := congrArg (fun v : BitVec 8 => v.getLsbD (n % 8)) heq
        simp [BitVec.getLsbD_and, getLsbD_bit, h] at hbit
      simpa [test] using this
  | false =>
      have : b (n / 8) &&& bit n = 0#8 := by
        apply BitVec.eq_of_getLsbD_eq
        intro i _
        by_cases hi : i = n % 8
        · subst hi
          simp [BitVec.getLsbD_and, h]
        · simp [BitVec.getLsbD_and, getLsbD_bit, hi]
      simp [test, this]

theorem test_set (b : Bitmap) (n k : Nat) :
    test (set b n) k = (decide (k = n) || test b k) := by
  rw [test_eq, test_eq, set]
  by_cases hbyte : k / 8 = n / 8
  · have hiff : (k % 8 = n % 8) = (k = n) := by
      apply propext
      constructor
      · intro h
        omega
      · intro h
        rw [h]
    rw [hbyte, Function.update_self, BitVec.getLsbD_or, getLsbD_bit, Bool.or_comm]
    simp only [hiff]
  · have hne : k ≠ n := fun h => hbyte (by rw [h])
    rw [Function.update_of_ne hbyte]
    simp [hne]

theorem test_clear (b : Bitmap) (n k : Nat) :
    test (clear b n) k = (!decide (k = n) && test b k) := by
  have hk : k % 8 < 8 := Nat.mod_lt _ (by decide)
  rw [test_eq, test_eq, clear]
  by_cases hbyte : k / 8 = n / 8
  · have hiff : (k % 8 = n % 8) = (k = n) := by
      apply propext
      constructor
      · intro h
        omega
      · intro h
        rw [h]
    rw [hbyte, Function.update_self, BitVec.getLsbD_and, BitVec.getLsbD_not, getLsbD_bit,
      Bool.and_comm]
    simp only [hiff, hk, decide_true, Bool.true_and]
  · have hne : k ≠ n := fun h => hbyte (by rw [h])
    rw [Function.update_of_ne hbyte]
    simp [hne]

/-- Every bit of the byte `0xFF` is set. -/
theorem getLsbD_ones {k : Nat} (hk : k < 8) : (0xFF#8).getLsbD k = true := by
  have hones : (0xFF#8) = BitVec.allOnes 8 := rfl
  rw [hones, BitVec.getLsbD_allOnes, decide_eq_true hk]

/-- A byte is `0xFF` exactly when its eight entries are set. -/
theorem full_iff (b : Bitmap) (i : Nat) :
    b i = 0xFF#8 ↔ ∀ k, k < 8 → test b (i * 8 + k) = true := by
  have hentry : ∀ k, k < 8 → test b (i * 8 + k) = (b i).getLsbD k := by
    intro k hk
    have hdiv : (i * 8 + k) / 8 = i := by omega
    have hmod : (i * 8 + k) % 8 = k := by omega
    rw [test_eq, hdiv, hmod]
  constructor
  · intro h k hk
    rw [hentry k hk, h, getLsbD_ones hk]
  · intro h
    apply BitVec.eq_of_getLsbD_eq
    intro k hk
    rw [← hentry k hk, h k hk, getLsbD_ones hk]

/-- Entries are cleared in any order. -/
theorem clear_comm (b : Bitmap) (n k : Nat) : clear (clear b n) k = clear (clear b k) n := by
  simp only [clear]
  by_cases hbyte : k / 8 = n / 8
  · rw [hbyte, Function.update_self, Function.update_self, Function.update_idem,
      Function.update_idem, BitVec.and_assoc, BitVec.and_comm (~~~ bit n), ← BitVec.and_assoc]
  · rw [Function.update_of_ne hbyte, Function.update_of_ne (Ne.symm hbyte),
      Function.update_comm hbyte]

/-! ## Counting -/

/-- The entries set among the first `n`. -/
def ones (b : Bitmap) (n : Nat) : Nat := Nat.count (fun k => test b k = true) n

/-- The entries clear among the first `n`. -/
def zeros (b : Bitmap) (n : Nat) : Nat := Nat.count (fun k => test b k = false) n

theorem ones_add_zeros (b : Bitmap) (n : Nat) : ones b n + zeros b n = n := by
  induction n with
  | zero => rfl
  | succ n ih =>
      rw [ones, zeros, Nat.count_succ, Nat.count_succ, ← ones, ← zeros]
      cases hbit : test b n with
      | true =>
          rw [if_pos rfl, if_neg (by simp)]
          omega
      | false =>
          rw [if_neg (by simp), if_pos rfl]
          omega

/-- Predicates that agree below `n` hold equally often there. -/
theorem count_congr {p q : Nat → Prop} [DecidablePred p] [DecidablePred q] {n : Nat}
    (h : ∀ k, k < n → (p k ↔ q k)) : Nat.count p n = Nat.count q n :=
  Nat.le_antisymm (Nat.count_mono_left fun k hk => (h k hk).mp)
    (Nat.count_mono_left fun k hk => (h k hk).mpr)

/-- Two predicates that differ at one place below `n` differ by one in number. -/
theorem count_of_flip {p q : Nat → Prop} [DecidablePred p] [DecidablePred q] {k : Nat}
    (hp : ¬ p k) (hq : q k) (h : ∀ i, i ≠ k → (p i ↔ q i)) :
    ∀ {n : Nat}, k < n → Nat.count q n = Nat.count p n + 1
  | n + 1, hk => by
      rw [Nat.count_succ, Nat.count_succ]
      rcases Nat.lt_or_eq_of_le (Nat.le_of_lt_succ hk) with hlt | rfl
      · rw [count_of_flip hp hq h hlt, if_congr (h n (Nat.ne_of_gt hlt)) rfl rfl]
        omega
      · rw [if_pos hq, if_neg hp, count_congr fun i hi => h i (Nat.ne_of_lt hi)]

theorem ones_set {b : Bitmap} {k n : Nat} (hk : k < n) (hclear : test b k = false) :
    ones (set b k) n = ones b n + 1 := by
  refine count_of_flip (by simp [hclear]) (by simp [test_set]) (fun i hi => ?_) hk
  simp [test_set, hi]

theorem ones_clear {b : Bitmap} {k n : Nat} (hk : k < n) (hset : test b k = true) :
    ones b n = ones (clear b k) n + 1 := by
  refine count_of_flip (by simp [test_clear]) hset (fun i hi => ?_) hk
  simp [test_clear, hi]

end Bitmap
