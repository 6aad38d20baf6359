import Mathlib.Algebra.Group.Nat.Defs
import Mathlib.Logic.Function.Basic
import Mathlib.Tactic.Common

/-!
# Byte memory

A memory is a total function from addresses to bytes.  Words are stored little
endian, one byte per address.  Every write is an `overlay` of a range, so the
frame lemmas are about ranges: a write changes nothing outside its range
(`overlay_other`), and a word read depends only on the bytes of its range
(`load_congr`).
-/

/-- A memory: the byte at each address. -/
abbrev Mem := Nat → UInt8

namespace Mem

/-! ## Ranges -/

/-- The `n` bytes from `a` on replaced by `f 0`, `f 1`, and so on. -/
def overlay (m : Mem) (a n : Nat) (f : Nat → UInt8) : Mem :=
  fun x => if a ≤ x ∧ x < a + n then f (x - a) else m x

theorem overlay_in {m : Mem} {a n x : Nat} {f : Nat → UInt8} (h1 : a ≤ x) (h2 : x < a + n) :
    overlay m a n f x = f (x - a) := if_pos ⟨h1, h2⟩

theorem overlay_other {m : Mem} {a n x : Nat} {f : Nat → UInt8} (h : x < a ∨ a + n ≤ x) :
    overlay m a n f x = m x := if_neg (by omega)

@[simp] theorem overlay_zero (m : Mem) (a : Nat) (f : Nat → UInt8) : overlay m a 0 f = m := by
  funext x
  exact overlay_other (by omega)

/-- A range written one byte further. -/
theorem overlay_succ (m : Mem) (a n : Nat) (f : Nat → UInt8) :
    overlay (overlay m a n f) (a + n) 1 (fun _ => f n) = overlay m a (n + 1) f := by
  funext x
  by_cases hlast : x = a + n
  · subst hlast
    rw [overlay_in (by omega) (by omega), overlay_in (by omega) (by omega)]
    congr 1
    omega
  · by_cases hin : a ≤ x ∧ x < a + n
    · rw [overlay_other (by omega), overlay_in hin.1 hin.2, overlay_in hin.1 (by omega)]
    · rw [overlay_other (by omega), overlay_other (by omega), overlay_other (by omega)]

/-- A single byte written. -/
def set (m : Mem) (a : Nat) (b : UInt8) : Mem := overlay m a 1 (fun _ => b)

@[simp] theorem set_self (m : Mem) (a : Nat) (b : UInt8) : set m a b a = b :=
  overlay_in (Nat.le_refl a) (Nat.lt_succ_self a)

theorem set_other {m : Mem} {a x : Nat} {b : UInt8} (h : x ≠ a) : set m a b x = m x :=
  overlay_other (by omega)

/-! ## Words -/

/-- The little-endian value of the `n` bytes from `a` on. -/
def load (m : Mem) (a : Nat) : Nat → Nat
  | 0 => 0
  | n + 1 => (m a).toNat + 256 * load m (a + 1) n

/-- The `n` low bytes of `v` stored from `a` on. -/
def store (m : Mem) (a n v : Nat) : Mem :=
  overlay m a n (fun i => UInt8.ofNat (v / 256 ^ i))

theorem load_lt (m : Mem) : ∀ n a : Nat, load m a n < 256 ^ n
  | 0, _ => by simp [load]
  | n + 1, a => by
      have ih := load_lt m n (a + 1)
      have hb : (m a).toNat < 256 := (m a).toNat_lt
      rw [load, Nat.pow_succ]
      omega

/-- A word depends only on the bytes of its range. -/
theorem load_congr {m m' : Mem} : ∀ {n a : Nat},
    (∀ x, a ≤ x → x < a + n → m x = m' x) → load m a n = load m' a n
  | 0, _, _ => rfl
  | n + 1, a, h => by
      rw [load, load, h a (by omega) (by omega),
        load_congr (n := n) (fun x h1 h2 => h x (by omega) (by omega))]

theorem store_other {m : Mem} {a n v x : Nat} (h : x < a ∨ a + n ≤ x) :
    store m a n v x = m x := overlay_other h

/-- A stored word is read back, reduced to its width. -/
theorem load_store_self : ∀ (n : Nat) (m : Mem) (a v : Nat),
    load (store m a n v) a n = v % 256 ^ n
  | 0, _, _, v => by rw [load, Nat.pow_zero, Nat.mod_one]
  | n + 1, m, a, v => by
      have hhead : (store m a (n + 1) v a).toNat = v % 256 := by
        rw [store, overlay_in (Nat.le_refl a) (by omega)]
        simp
      have htail : load (store m a (n + 1) v) (a + 1) n
          = load (store m (a + 1) n (v / 256)) (a + 1) n := by
        apply load_congr
        intro x h1 h2
        rw [store, store, overlay_in (by omega) (by omega), overlay_in h1 h2,
          Nat.div_div_eq_div_mul,
          ← Nat.pow_succ']
        congr 3
        omega
      rw [load, hhead, htail, load_store_self n m (a + 1) (v / 256), Nat.pow_succ', Nat.mod_mul]

/-- A word outside the written range is unchanged. -/
theorem load_store_other {m : Mem} {a n v b k : Nat} (h : b + k ≤ a ∨ a + n ≤ b) :
    load (store m a n v) b k = load m b k :=
  load_congr fun x h1 h2 => store_other (by omega)

/-- A word outside an overlaid range is unchanged. -/
theorem load_overlay_other {m : Mem} {a n b k : Nat} {f : Nat → UInt8}
    (h : b + k ≤ a ∨ a + n ≤ b) : load (overlay m a n f) b k = load m b k :=
  load_congr fun x h1 h2 => overlay_other (by omega)

/-- A word of zero bytes is zero. -/
theorem load_eq_zero {m : Mem} : ∀ {n a : Nat},
    (∀ x, a ≤ x → x < a + n → m x = 0) → load m a n = 0
  | 0, _, _ => rfl
  | n + 1, a, h => by
      rw [load, h a (by omega) (by omega),
        load_eq_zero (n := n) (fun x h1 h2 => h x (by omega) (by omega))]
      rfl

end Mem
