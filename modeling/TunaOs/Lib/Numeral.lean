import Mathlib.Data.Nat.Digits.Lemmas

/-!
# Numerals

A numeral of a number is a list of digits, the most significant first, that starts
with a zero only if it is the zero alone.  `numeral` is the numeral to a base, made from
Mathlib's digits, and a numeral that is written from the front is recognised with
`isNumeral_cons`.
-/

namespace Numeral

/-- The value of digits, the most significant first. -/
def value (b : Nat) (ds : List Nat) : Nat := Nat.ofDigits b ds.reverse

@[simp] theorem value_nil (b : Nat) : value b [] = 0 := Nat.ofDigits_nil

@[simp] theorem value_singleton (b d : Nat) : value b [d] = d := Nat.ofDigits_singleton

theorem value_cons (b d : Nat) (ds : List Nat) :
    value b (d :: ds) = value b ds + b ^ ds.length * d := by
  rw [value, value, List.reverse_cons, Nat.ofDigits_append, Nat.ofDigits_singleton,
    List.length_reverse]

/-- The digits are a numeral of `v`. -/
structure IsNumeral (b v : Nat) (ds : List Nat) : Prop where
  /-- There is a digit. -/
  nonempty : ds ≠ []
  /-- The digits are below the base. -/
  digits : ∀ d ∈ ds, d < b
  /-- The value. -/
  denotes : value b ds = v
  /-- The digit zero is in front only if it is alone. -/
  leading : ds.head? = some 0 → ds = [0]

/-- One digit. -/
theorem isNumeral_singleton {b d : Nat} (hd : d < b) : IsNumeral b d [d] where
  nonempty := List.cons_ne_nil _ _
  digits := fun _ he => List.mem_singleton.mp he ▸ hd
  denotes := value_singleton b d
  leading := fun h => by rw [Option.some.inj h]

/-- Any digits behind one that is not zero. -/
theorem isNumeral_cons {b d : Nat} {ds : List Nat} (hd : d < b) (h0 : d ≠ 0)
    (hds : ∀ e ∈ ds, e < b) : IsNumeral b (value b ds + b ^ ds.length * d) (d :: ds) where
  nonempty := List.cons_ne_nil _ _
  digits := List.forall_mem_cons.mpr ⟨hd, hds⟩
  denotes := value_cons b d ds
  leading := fun h => absurd (Option.some.inj h) h0

/-- A number below `b ^ k` has at most `k` digits. -/
theorem IsNumeral.length_le {b v k : Nat} {ds : List Nat} (h : IsNumeral b v ds) (hb : 1 < b)
    (hk : 0 < k) (hv : v < b ^ k) : ds.length ≤ k := by
  cases ds with
  | nil => exact Nat.zero_le k
  | cons d ds =>
      by_cases hd : d = 0
      · rw [h.leading (congrArg some hd)]
        exact hk
      · have hpow : b ^ ds.length < b ^ k := calc
          b ^ ds.length ≤ b ^ ds.length * d := Nat.le_mul_of_pos_right _ (Nat.pos_of_ne_zero hd)
          _ ≤ value b (d :: ds) := by rw [value_cons]; exact Nat.le_add_left _ _
          _ < b ^ k := by rw [h.denotes]; exact hv
        exact (Nat.pow_lt_pow_iff_right hb).mp hpow

/-- The numeral of a number. -/
def numeral (b v : Nat) : List Nat := if v = 0 then [0] else (Nat.digits b v).reverse

theorem isNumeral_numeral {b : Nat} (hb : 1 < b) (v : Nat) : IsNumeral b v (numeral b v) := by
  unfold numeral
  split
  case isTrue hv =>
    rw [hv]
    exact isNumeral_singleton (Nat.zero_lt_of_lt hb)
  case isFalse hv =>
    have hne : Nat.digits b v ≠ [] := Nat.digits_ne_nil_iff_ne_zero.mpr hv
    refine ⟨List.reverse_ne_nil_iff.mpr hne, fun d hd => ?_, ?_, fun hhead => ?_⟩
    · exact Nat.digits_lt_base hb (List.mem_reverse.mp hd)
    · rw [value, List.reverse_reverse, Nat.ofDigits_digits]
    · rw [List.head?_reverse, List.getLast?_eq_getLast_of_ne_nil hne] at hhead
      exact absurd (Option.some.inj hhead) (Nat.getLast_digit_ne_zero b hv)

end Numeral
