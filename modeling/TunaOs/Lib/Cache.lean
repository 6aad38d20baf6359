import Mathlib.Logic.Basic
import Mathlib.Tactic.Common

/-!
# A cache that is not told about writes

A map from keys to values is written, and a cache may take over a value at any moment.
It is not told about writes: what it holds it keeps until the key is dropped or the
cache is cleared.  `Holds` says which values it may hold after a list of events, and
`Coherent` that it may hold the current value of a key only.

A write keeps this if the old value of its key could not be cached.
-/

namespace Cache

variable {K V : Type}

/-- What happens to the map and to the cache. -/
inductive Event (K V : Type)
  /-- The map is written. -/
  | write (key : K) (value : V)
  /-- The cache forgets a key. -/
  | drop (key : K)
  /-- The cache forgets everything. -/
  | clear

/-- The map after some events, the latest first. -/
def value [DecidableEq K] (init : K → V) : List (Event K V) → K → V
  | [], k => init k
  | .write j v :: es, k => if k = j then v else value init es k
  | .drop _ :: es, k => value init es k
  | .clear :: es, k => value init es k

variable [DecidableEq K] {init : K → V} {cacheable : V → Prop} {es : List (Event K V)} {k j : K}
  {v w : V}

/-- What the cache may hold after some events.  It takes over cacheable values only. -/
inductive Holds (init : K → V) (cacheable : V → Prop) : List (Event K V) → K → V → Prop
  | fill {es : List (Event K V)} {k : K} (h : cacheable (value init es k)) :
      Holds init cacheable es k (value init es k)
  | write {es : List (Event K V)} {k j : K} {v w : V} (h : Holds init cacheable es k v) :
      Holds init cacheable (.write j w :: es) k v
  | drop {es : List (Event K V)} {k j : K} {v : V} (h : Holds init cacheable es k v) (hne : k ≠ j) :
      Holds init cacheable (.drop j :: es) k v

/-- What the cache holds for the key is its value. -/
def Coherent (init : K → V) (cacheable : V → Prop) (es : List (Event K V)) (k : K) : Prop :=
  ∀ v, Holds init cacheable es k v → v = value init es k

theorem cacheable_of_holds (h : Holds init cacheable es k v) : cacheable v := by
  induction h with
  | fill h => exact h
  | write _ ih => exact ih
  | drop _ _ ih => exact ih

theorem Coherent.clear : Coherent init cacheable (.clear :: es) k := by
  intro v h
  cases h with
  | fill => rfl

theorem Coherent.drop (h : Coherent init cacheable es k) (j : K) :
    Coherent init cacheable (.drop j :: es) k := by
  intro v hv
  cases hv with
  | fill => rfl
  | drop hv _ => exact h v hv

/-- Dropping a key repairs it. -/
theorem Coherent.drop_self : Coherent init cacheable (.drop k :: es) k := by
  intro v hv
  cases hv with
  | fill => rfl
  | drop _ hne => exact absurd rfl hne

/-- A write to another key, or over a value that cannot be cached. -/
theorem Coherent.write (h : Coherent init cacheable es k)
    (hsafe : k = j → ¬ cacheable (value init es k)) (w : V) :
    Coherent init cacheable (.write j w :: es) k := by
  intro v hv
  cases hv with
  | fill => rfl
  | write hv =>
      rw [value]
      have hold := h v hv
      split
      case isTrue heq => exact absurd (hold ▸ cacheable_of_holds hv) (hsafe heq)
      case isFalse => exact hold

end Cache
