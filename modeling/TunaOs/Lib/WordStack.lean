import Mathlib.Data.List.Induction
import TunaOs.Lib.Mem

/-!
# Stacks of 64-bit words

A stack that grows down in memory, with a 64-bit stack pointer that wraps around as
the processor's does.  Words pushed on an aligned stack are read back from the stack
pointer upwards, the last one first, wherever the stack is.
-/

namespace TunaOs

namespace WordStack

/-- The word at an address. -/
def word (m : Mem) (a : UInt64) : UInt64 := UInt64.ofNat (m.load a.toNat 8)

/-- Memory and the stack pointer after a push. -/
def push (s : Mem × UInt64) (v : UInt64) : Mem × UInt64 :=
  (s.1.store (s.2 - 8).toNat 8 v.toNat, s.2 - 8)

/-- The words of a list, pushed one after the other. -/
def pushAll (vs : List UInt64) (s : Mem × UInt64) : Mem × UInt64 := vs.foldl push s

/-- The stack pointer is a multiple of 8. -/
def Aligned (sp : UInt64) : Prop := sp.toNat % 8 = 0

theorem word_store_self (m : Mem) (a v : UInt64) : word (m.store a.toNat 8 v.toNat) a = v := by
  have hmod : v.toNat % 256 ^ 8 = v.toNat := Nat.mod_eq_of_lt (UInt64.toNat_lt v)
  rw [word, Mem.load_store_self, hmod, UInt64.ofNat_toNat]

theorem word_store_other {m : Mem} {a b v : UInt64} (ha : Aligned a) (hb : Aligned b)
    (hne : a ≠ b) : word (m.store a.toNat 8 v.toNat) b = word m b := by
  have hne' : a.toNat ≠ b.toNat := fun h => hne (UInt64.toNat_inj.mp h)
  rw [Aligned] at ha hb
  rw [word, Mem.load_store_other (by omega), word]

theorem toNat_ofNat_mul {i : Nat} (hi : i < 2 ^ 61) : (UInt64.ofNat (8 * i)).toNat = 8 * i := by
  rw [UInt64.toNat_ofNat']
  exact Nat.mod_eq_of_lt (by omega)

theorem Aligned.sub_eight {sp : UInt64} (h : Aligned sp) : Aligned (sp - 8) := by
  rw [Aligned] at h ⊢
  rw [UInt64.toNat_sub, show UInt64.toNat 8 = 8 from rfl]
  omega

theorem Aligned.add_mul {sp : UInt64} (h : Aligned sp) {i : Nat} (hi : i < 2 ^ 61) :
    Aligned (sp + UInt64.ofNat (8 * i)) := by
  rw [Aligned] at h ⊢
  rw [UInt64.toNat_add, toNat_ofNat_mul hi]
  omega

theorem pushAll_append (vs ws : List UInt64) (s : Mem × UInt64) :
    pushAll (vs ++ ws) s = pushAll ws (pushAll vs s) := List.foldl_append

theorem pushAll_sp (vs : List UInt64) (s : Mem × UInt64) :
    (pushAll vs s).2 = s.2 - UInt64.ofNat (8 * vs.length) := by
  induction vs using List.reverseRecOn with
  | nil => exact (UInt64.sub_zero s.2).symm
  | append_singleton vs v ih =>
      rw [pushAll_append]
      change (pushAll vs s).2 - 8 = _
      rw [ih, List.length_append, List.length_singleton]
      refine UInt64.toNat_inj.mp ?_
      simp only [UInt64.toNat_sub, UInt64.toNat_ofNat', show UInt64.toNat 8 = 8 from rfl]
      omega

theorem aligned_pushAll {s : Mem × UInt64} (h : Aligned s.2) (vs : List UInt64) :
    Aligned (pushAll vs s).2 := by
  induction vs using List.reverseRecOn with
  | nil => exact h
  | append_singleton vs v ih =>
      rw [pushAll_append]
      exact ih.sub_eight

/-- The words on the stack, from the stack pointer upwards, are the words that were
pushed, the last one first. -/
theorem word_pushAll {s : Mem × UInt64} (h : Aligned s.2) {vs : List UInt64}
    (hlen : vs.length < 2 ^ 61) {i : Nat} {v : UInt64} (hi : vs.reverse[i]? = some v) :
    word (pushAll vs s).1 ((pushAll vs s).2 + UInt64.ofNat (8 * i)) = v := by
  induction vs using List.reverseRecOn generalizing i with
  | nil => cases hi
  | append_singleton vs w ih =>
      rw [List.length_append, List.length_singleton] at hlen
      rw [List.reverse_append, List.reverse_singleton, List.singleton_append] at hi
      rw [pushAll_append]
      change word ((pushAll vs s).1.store ((pushAll vs s).2 - 8).toNat 8 w.toNat)
        ((pushAll vs s).2 - 8 + UInt64.ofNat (8 * i)) = v
      have hal := aligned_pushAll h vs
      have ih := fun {j} => ih (by omega) (i := j)
      generalize pushAll vs s = t at hal ih ⊢
      cases i with
      | zero =>
          obtain rfl : w = v := Option.some.inj hi
          rw [show t.2 - 8 + UInt64.ofNat (8 * 0) = t.2 - 8 from UInt64.add_zero _]
          exact word_store_self ..
      | succ i =>
          have hi' : vs.reverse[i]? = some v := hi
          have hlt : i + 1 < 2 ^ 61 := by
            have := (List.getElem?_eq_some_iff.mp hi').1
            rw [List.length_reverse] at this
            omega
          have heq : t.2 - 8 + UInt64.ofNat (8 * (i + 1)) = t.2 + UInt64.ofNat (8 * i) := by
            refine UInt64.toNat_inj.mp ?_
            simp only [UInt64.toNat_sub, UInt64.toNat_add, UInt64.toNat_ofNat',
              show UInt64.toNat 8 = 8 from rfl]
            omega
          rw [heq, word_store_other hal.sub_eight (hal.add_mul (Nat.lt_of_succ_lt hlt))
            fun hsame => ?_]
          · exact ih hi'
          · -- the two addresses are `8 * (i + 1)` bytes apart
            have hnat := congrArg UInt64.toNat hsame
            rw [UInt64.toNat_sub, UInt64.toNat_add, toNat_ofNat_mul (Nat.lt_of_succ_lt hlt),
              show UInt64.toNat 8 = 8 from rfl] at hnat
            omega

end WordStack

end TunaOs
