import TunaOs.Lib.Mem

/-!
# Byte strings in memory

`Holds m a bs` says that the bytes `bs` lie in memory from `a` on.  A record is the
concatenation of the encodings of its fields, so its layout is read off with `holds_append`,
and a field of `n` bytes is loaded with `Holds.load`.
-/

namespace Mem

/-- The bytes from `a` on are `bs`. -/
def Holds (m : Mem) : Nat → List UInt8 → Prop
  | _, [] => True
  | a, b :: bs => m a = b ∧ Holds m (a + 1) bs

variable {m m' : Mem}

@[simp] theorem holds_nil (a : Nat) : Holds m a [] := trivial

@[simp] theorem holds_cons {a : Nat} {b : UInt8} {bs : List UInt8} :
    Holds m a (b :: bs) ↔ m a = b ∧ Holds m (a + 1) bs := Iff.rfl

theorem holds_append {cs : List UInt8} : ∀ {bs : List UInt8} {a : Nat},
    Holds m a (bs ++ cs) ↔ Holds m a bs ∧ Holds m (a + bs.length) cs
  | [], a => by simp
  | b :: bs, a => by
      rw [List.cons_append, holds_cons, holds_cons, holds_append, List.length_cons, and_assoc,
        Nat.add_assoc, Nat.add_comm 1]

/-- A string depends only on the bytes of its range. -/
theorem Holds.congr : ∀ {bs : List UInt8} {a : Nat}, Holds m a bs →
    (∀ x, a ≤ x → x < a + bs.length → m' x = m x) → Holds m' a bs
  | [], _, _, _ => trivial
  | b :: bs, a, h, hsame => by
      rw [List.length_cons] at hsame
      refine ⟨(hsame a (by omega) (by omega)).trans h.1, ?_⟩
      exact h.2.congr fun x h1 h2 => hsame x (by omega) (by omega)

/-- A byte of a string. -/
theorem holds_iff : ∀ {bs : List UInt8} {a : Nat},
    Holds m a bs ↔ ∀ i (h : i < bs.length), m (a + i) = bs[i]
  | [], _ => by simp
  | b :: bs, a => by
      rw [holds_cons, holds_iff]
      constructor
      · rintro ⟨h0, hs⟩ i hi
        cases i with
        | zero => exact h0
        | succ i =>
            rw [List.getElem_cons_succ, ← hs i (Nat.lt_of_succ_lt_succ hi), Nat.add_right_comm]
            rfl
      · intro h
        refine ⟨h 0 (Nat.succ_pos _), fun i hi => ?_⟩
        have := h (i + 1) (Nat.succ_lt_succ hi)
        rwa [List.getElem_cons_succ, ← Nat.add_assoc, Nat.add_right_comm] at this

/-- The bytes of a string, read one by one. -/
theorem Holds.map_range {bs : List UInt8} {a : Nat} (h : Holds m a bs) :
    (List.range bs.length).map (fun i => m (a + i)) = bs := by
  refine List.ext_getElem (by simp) fun i _ hi => ?_
  rw [List.getElem_map, List.getElem_range]
  exact holds_iff.mp h i hi

/-- A memory with a string at `a`. -/
def ofBytes (a : Nat) (bs : List UInt8) : Mem := fun x => bs.getD (x - a) 0

theorem holds_ofBytes (a : Nat) (bs : List UInt8) : Holds (ofBytes a bs) a bs :=
  holds_iff.mpr fun i h => by
    rw [ofBytes, Nat.add_sub_cancel_left, List.getD_eq_getElem?_getD, List.getElem?_eq_getElem h]
    rfl

/-! ## NUL-terminated strings -/

/-- The string at `a` is `s`: its bytes, none of them zero, and a zero byte. -/
structure HoldsStr (m : Mem) (a : Nat) (s : List UInt8) : Prop where
  /-- The bytes, up to the zero byte. -/
  bytes : Holds m a (s ++ [0])
  /-- It does not end earlier. -/
  nonzero : (0 : UInt8) ∉ s

theorem holdsStr_nil {a : Nat} : HoldsStr m a [] ↔ m a = 0 :=
  ⟨fun h => h.bytes.1, fun h => ⟨⟨h, trivial⟩, List.not_mem_nil⟩⟩

theorem holdsStr_cons {a : Nat} {c : UInt8} {s : List UInt8} :
    HoldsStr m a (c :: s) ↔ m a = c ∧ c ≠ 0 ∧ HoldsStr m (a + 1) s := by
  constructor
  · rintro ⟨⟨hc, hs⟩, hne⟩
    exact ⟨hc, fun h => hne (h ▸ List.mem_cons_self), hs,
      fun h => hne (List.mem_cons_of_mem _ h)⟩
  · rintro ⟨hc, hne, hs, hnz⟩
    refine ⟨⟨hc, hs⟩, fun h => ?_⟩
    rcases List.mem_cons.mp h with h | h
    · exact hne h.symm
    · exact hnz h

theorem HoldsStr.congr {a : Nat} {s : List UInt8} (h : HoldsStr m a s)
    (hsame : ∀ x, a ≤ x → x < a + (s.length + 1) → m' x = m x) : HoldsStr m' a s :=
  ⟨h.bytes.congr fun x h1 h2 => hsame x h1 (by simpa using h2), h.nonzero⟩

/-- Bytes with a zero byte behind them are the string up to the first zero byte. -/
theorem holdsStr_takeWhile : ∀ {bs : List UInt8} {a : Nat}, Holds m a (bs ++ [0]) →
    HoldsStr m a (bs.takeWhile (· ≠ 0))
  | [], a, h => holdsStr_nil.mpr h.1
  | b :: bs, a, ⟨hb, hbs⟩ => by
      rw [List.takeWhile_cons]
      by_cases h0 : b = 0
      · rw [if_neg (by simpa using h0)]
        exact holdsStr_nil.mpr (hb.trans h0)
      · rw [if_pos (by simpa using h0)]
        exact holdsStr_cons.mpr ⟨hb, h0, holdsStr_takeWhile hbs⟩

/-! ## Little-endian fields -/

/-- The `n` low bytes of `v`, the lowest first. -/
def leBytes : Nat → Nat → List UInt8
  | 0, _ => []
  | n + 1, v => UInt8.ofNat v :: leBytes n (v / 256)

@[simp] theorem length_leBytes : ∀ n v : Nat, (leBytes n v).length = n
  | 0, _ => rfl
  | n + 1, v => by rw [leBytes, List.length_cons, length_leBytes]

/-- A field is loaded, reduced to its width. -/
theorem Holds.load : ∀ {n v a : Nat}, Holds m a (leBytes n v) → m.load a n = v % 256 ^ n
  | 0, v, _, _ => by rw [Mem.load, Nat.pow_zero, Nat.mod_one]
  | n + 1, v, a, h => by
      have hhead : (m a).toNat = v % 256 := by
        rw [h.1, UInt8.toNat_ofNat']
      rw [Mem.load, hhead, h.2.load, Nat.pow_succ', Nat.mod_mul]

end Mem
