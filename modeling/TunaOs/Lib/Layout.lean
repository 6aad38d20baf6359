import TunaOs.Lib.Bytes

/-!
# Records and tables in memory

A packed record is its fields one behind the other.  `leBytes_append` turns them into one
number, so that a record is loaded as a whole and its fields are digits of that number.  A
table is its records one behind the other, and `Holds.record` finds each of them.
-/

namespace Mem

variable {m : Mem}

/-- The bytes `bs` written from `a` on. -/
def put (m : Mem) (a : Nat) (bs : List UInt8) : Mem := overlay m a bs.length fun i => bs.getD i 0

theorem holds_put (m : Mem) (a : Nat) (bs : List UInt8) : Holds (put m a bs) a bs :=
  holds_iff.mpr fun i h => by
    rw [put, overlay_in (Nat.le_add_right a i) (Nat.add_lt_add_left h a), Nat.add_sub_cancel_left,
      List.getD_eq_getElem?_getD, List.getElem?_eq_getElem h]
    rfl

/-- What lies elsewhere stays. -/
theorem Holds.put {a b : Nat} {bs cs : List UInt8} (h : Holds m b cs)
    (hapart : b + cs.length ≤ a ∨ a + bs.length ≤ b) : Holds (Mem.put m a bs) b cs :=
  h.congr fun _ h1 h2 => overlay_other (by omega)

/-! ## Fields -/

/-- A field and the one behind it are one field. -/
theorem leBytes_append (l w : Nat) : ∀ k v : Nat,
    leBytes k v ++ leBytes l w = leBytes (l + k) (v % 256 ^ k + 256 ^ k * w)
  | 0, v => by
      rw [leBytes, List.nil_append, Nat.pow_zero, Nat.mod_one, Nat.zero_add, Nat.one_mul,
        Nat.add_zero]
  | k + 1, v => by
      have hmod : v % 256 ^ (k + 1) = v % 256 + 256 * (v / 256 % 256 ^ k) := by
        rw [Nat.pow_succ', Nat.mod_mul]
      have hsum : v % 256 ^ (k + 1) + 256 ^ (k + 1) * w
          = v % 256 + 256 * (v / 256 % 256 ^ k + 256 ^ k * w) := by
        rw [hmod, Nat.mul_add, ← Nat.add_assoc, Nat.pow_succ', Nat.mul_assoc]
      have hhead : UInt8.ofNat v = UInt8.ofNat (v % 256 ^ (k + 1) + 256 ^ (k + 1) * w) := by
        rw [← UInt8.toNat_inj, UInt8.toNat_ofNat', UInt8.toNat_ofNat', hsum]
        omega
      have htail : (v % 256 ^ (k + 1) + 256 ^ (k + 1) * w) / 256
          = v / 256 % 256 ^ k + 256 ^ k * w := by
        rw [hsum]
        omega
      rw [leBytes, List.cons_append, leBytes_append l w k, ← Nat.add_assoc, leBytes, htail, hhead]

/-- A byte of a field is a digit of it. -/
theorem load_set (b : UInt8) : ∀ {i n a : Nat}, i < n →
    load (set m (a + i) b) a n + 256 ^ i * (m (a + i)).toNat = load m a n + 256 ^ i * b.toNat
  | 0, n + 1, a, _ => by
      have hrest : load (set m a b) (a + 1) n = load m (a + 1) n :=
        load_congr fun x h1 _ => set_other (by omega)
      rw [Nat.add_zero, load, load, hrest, set_self, Nat.pow_zero]
      omega
  | i + 1, n + 1, a, h => by
      have ih := load_set b (a := a + 1) (Nat.lt_of_succ_lt_succ h)
      have haddr : a + (i + 1) = a + 1 + i := by omega
      have hhead : set m (a + 1 + i) b a = m a := set_other (by omega)
      rw [load, load, haddr, hhead, Nat.pow_succ', Nat.mul_assoc, Nat.mul_assoc]
      omega

/-! ## Tables -/

/-- A record of a table whose records have `s` bytes. -/
theorem Holds.record {α : Type} {enc : α → List UInt8} {s : Nat} (hs : ∀ e, (enc e).length = s) :
    ∀ {es : List α} {a i : Nat} {e : α}, Holds m a (es.flatMap enc) → es[i]? = some e →
      Holds m (a + s * i) (enc e)
  | e :: es, a, 0, _, h, he => by
      obtain rfl := Option.some.inj he
      exact (holds_append.mp h).1
  | e :: es, a, i + 1, e', h, he => by
      have hrest := (holds_append.mp h).2
      rw [hs] at hrest
      have := Holds.record hs hrest he
      rwa [Nat.add_assoc, Nat.add_comm s, ← Nat.mul_succ] at this

end Mem
