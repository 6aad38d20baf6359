import TunaOs.Lib.Radix
import TunaOs.Vmm.Model

/-!
# Page tables as a radix tree

The tables below a root are a radix tree in physical memory (`tableAt`), of
depth three, whose nodes at depth three hold the leaf entries.  `PageTables` is
the invariant that makes the tree a map from pages to leaf entries: no table is
shared, directory entries are writable, and a leaf with `USER` has `USER` on the
whole path above it.  Under it the walk of the hardware reads off the leaf entry
(`PageTables.walk_eq`).

The kernel stores into the tables in three ways.  It adds flags to a directory
entry (`flag`), it links a new zeroed table (`link`), and it sets a leaf entry
(`setLeaf`).  The first two change no leaf entry, the third changes one.
-/

namespace TunaOs

open Word

/-! ## Pages and paths -/

/-- The page of an address: the bits of its page number that a walk looks at. -/
def pageOf (a : Nat) : Nat := a / 4096 % 2 ^ 36

/-- The indices that lead to the last table for an address. -/
def pathOf (a : Nat) : List (Fin 512) := [tableIndex 39 a, tableIndex 30 a, tableIndex 21 a]

theorem tableIndex_val (shift a : Nat) : (tableIndex shift a).val = a / 2 ^ shift % 512 := by
  simp [tableIndex, Nat.shiftRight_eq_div_pow]

@[simp] theorem length_pathOf (a : Nat) : (pathOf a).length = 3 := rfl

/-- The tables for an address serve 2 MiB. -/
theorem pathOf_congr {a b : Nat} (h : a / 2 ^ 21 = b / 2 ^ 21) : pathOf a = pathOf b := by
  simp only [pathOf, List.cons.injEq, and_true, Fin.ext_iff, tableIndex_val]
  omega

/-- A walk looks at the page only. -/
theorem pageOf_eq_iff {a b : Nat} :
    pageOf a = pageOf b ↔ pathOf a = pathOf b ∧ tableIndex 12 a = tableIndex 12 b := by
  simp only [pathOf, List.cons.injEq, and_true, Fin.ext_iff, tableIndex_val, pageOf]
  omega

/-! ## Tables -/

/-- The table a directory entry points to. -/
def childOf (e : Nat) : Option Nat := if e.testBit 0 then some (e &&& pageMask) else none

/-- The table at a path below the root. -/
abbrev tableAt (m : Mem) (root : Nat) (p : List (Fin 512)) : Option Nat :=
  Radix.follow childOf (entry m) root p

/-- `t` is the address of a table. -/
def IsTable (m : Mem) (root t : Nat) : Prop :=
  ∃ p : List (Fin 512), p.length ≤ 3 ∧ tableAt m root p = some t

/-- The leaf entry of an address, and 0 if there is no table for it. -/
def leafEntry (m : Mem) (root a : Nat) : Nat :=
  match tableAt m root (pathOf a) with
  | none => 0
  | some t => entry m t (tableIndex 12 a)

/-- The translation a leaf entry stands for. -/
def decode (e : Nat) : Option Translation :=
  if e.testBit 0 then some ⟨e &&& pageMask, e.testBit 1, e.testBit 2⟩ else none

theorem eq_of_decode {e : Nat} {t : Translation} (h : decode e = some t) :
    t = ⟨e &&& pageMask, e.testBit 1, e.testBit 2⟩ := by
  rw [decode] at h
  split at h
  case isTrue => exact (Option.some.inj h).symm
  case isFalse => cases h

/-- Every directory entry on a path has `USER`. -/
def UserPath (m : Mem) (root : Nat) (p : List (Fin 512)) : Prop :=
  ∀ q j r, p = q ++ j :: r → ∀ u, tableAt m root q = some u → (entry m u j).testBit 2 = true

/-- The invariant of the tables. -/
structure PageTables (m : Mem) (root : Nat) : Prop where
  /-- No table is reached in two ways. -/
  unshared : Radix.Unshared childOf (entry m) root 3
  /-- Tables are frames. -/
  aligned : ∀ t, IsTable m root t → t % 4096 = 0 ∧ t + 4096 ≤ 2 ^ 64
  /-- Directory entries have `WRITE`. -/
  write : ∀ p t i, p.length < 3 → tableAt m root p = some t →
    (entry m t i).testBit 0 = true → (entry m t i).testBit 1 = true
  /-- Above a leaf with `USER` all entries have `USER`. -/
  user : ∀ p t i, p.length = 3 → tableAt m root p = some t →
    (entry m t i).testBit 0 = true → (entry m t i).testBit 2 = true → UserPath m root p

variable {m m' : Mem} {root t u f v a flags : Nat} {p q : List (Fin 512)} {i j : Fin 512}

theorem entry_lt (m : Mem) (t : Nat) (i : Fin 512) : entry m t i < 2 ^ 64 :=
  m.load_lt 8 _

theorem isTable_of_path (h : tableAt m root (pathOf a) = some t) : IsTable m root t :=
  ⟨pathOf a, Nat.le_refl 3, h⟩

theorem leafEntry_of_path (h : tableAt m root (pathOf a) = some t) :
    leafEntry m root a = entry m t (tableIndex 12 a) := by
  simp only [leafEntry, h]

theorem leafEntry_of_none (h : tableAt m root (pathOf a) = none) : leafEntry m root a = 0 := by
  simp only [leafEntry, h]

theorem leafEntry_lt (m : Mem) (root a : Nat) : leafEntry m root a < 2 ^ 64 := by
  unfold leafEntry
  split
  · decide
  · exact entry_lt ..

theorem leafEntry_page {b : Nat} (h : pageOf a = pageOf b) :
    leafEntry m root a = leafEntry m root b := by
  obtain ⟨hpath, hidx⟩ := pageOf_eq_iff.mp h
  simp only [leafEntry, hpath, hidx]

theorem childOf_isSome {e : Nat} : (childOf e).isSome = e.testBit 0 := by
  unfold childOf
  split <;> simp_all

theorem childOf_of_present {e : Nat} (h : e.testBit 0 = true) :
    childOf e = some (e &&& pageMask) := if_pos h

theorem childOf_of_absent {e : Nat} (h : ¬ e.testBit 0 = true) : childOf e = none := if_neg h

/-! ## Entries -/

theorem testBit_or_left {x y k : Nat} (h : x.testBit k = true) : (x ||| y).testBit k = true := by
  rw [Nat.testBit_or, h, Bool.true_or]

theorem testBit_or_right {x y k : Nat} (h : y.testBit k = true) : (x ||| y).testBit k = true := by
  rw [Nat.testBit_or, h, Bool.or_true]

theorem pageMask_eq (hv : v < 2 ^ 64) : v &&& pageMask = v / 4096 * 4096 :=
  and_highMask (by decide) hv

/-- Flags added to an entry leave its address alone. -/
theorem or_flags_and_pageMask (hf : flags < 8) (v : Nat) :
    (v ||| flags) &&& pageMask = v &&& pageMask := by
  have hzero : flags &&& pageMask = 0 := by
    rw [pageMask_eq (by omega)]
    omega
  rw [Nat.and_or_distrib_right, hzero, Nat.or_zero]

theorem testBit_and_pageMask {k : Nat} (hk : k < 12) (v : Nat) :
    (v &&& pageMask).testBit k = false := by
  rw [Nat.testBit_and, pageMask, testBit_highMask (by decide),
    decide_eq_false (show ¬ 12 ≤ k by omega), Bool.and_false, Bool.and_false]

theorem or_flags_lt (hf : flags < 8) (hv : v < 2 ^ 64) : v ||| flags < 2 ^ 64 :=
  Nat.or_lt_two_pow hv (by omega)

theorem and_pageMask_of_aligned (h : t % 4096 = 0) (ht : t < 2 ^ 64) : t &&& pageMask = t := by
  rw [pageMask_eq ht]
  omega

/-- `m'` is `m` with one entry of a table changed. -/
def SetsEntry (m m' : Mem) (t : Nat) (i : Fin 512) (v : Nat) : Prop :=
  ∀ u j, u % 4096 = 0 → entry m' u j = if u = t ∧ j = i then v else entry m u j

theorem setsEntry_store (ht : t % 4096 = 0) (i : Fin 512) (hv : v < 2 ^ 64) :
    SetsEntry m (m.store (t + 8 * i) 8 v) t i v := by
  intro u j hu
  have hi := i.isLt
  have hj := j.isLt
  have hpow : (2 : Nat) ^ 64 = 256 ^ 8 := by decide
  unfold entry
  split
  case isTrue h =>
      rw [h.1, h.2, Mem.load_store_self, ← hpow, Nat.mod_eq_of_lt hv]
  case isFalse h =>
      have hne : ¬ (u = t ∧ j.val = i.val) := fun h' => h ⟨h'.1, Fin.ext h'.2⟩
      exact Mem.load_store_other (by omega)

/-! ## The walk -/

theorem walkFrom_none {shifts : List Nat} {w x : Bool}
    (h : tableAt m t (shifts.map fun s => tableIndex s a) = none) :
    walkFrom m shifts t a w x = none := by
  induction shifts generalizing t w x with
  | nil => cases h
  | cons s shifts ih =>
      rw [List.map_cons, tableAt, Radix.follow] at h
      rw [walkFrom]
      split
      case isTrue hpres =>
          rw [childOf_of_present hpres] at h
          exact ih h
      case isFalse => rfl

theorem tableAt_concat (h : tableAt m root p = some t) :
    tableAt m root (p ++ [i]) = childOf (entry m t i) := by
  rw [tableAt] at h ⊢
  rw [Radix.follow_concat, h, Option.bind_some]

/-- One step of a walk. -/
theorem exists_entry (h : tableAt m root p = some t) (hi : tableAt m root (p ++ [i]) = some u) :
    (entry m t i).testBit 0 = true ∧ u = entry m t i &&& pageMask := by
  rw [tableAt_concat h] at hi
  by_cases hpres : (entry m t i).testBit 0 = true
  · rw [childOf_of_present hpres] at hi
    exact ⟨hpres, (Option.some.inj hi).symm⟩
  · rw [childOf_of_absent hpres] at hi
    cases hi

/-- A path goes through entries that are present. -/
theorem present_of_path {r : List (Fin 512)} (h : tableAt m root (q ++ j :: r) = some t)
    (hu : tableAt m root q = some u) : (entry m u j).testBit 0 = true := by
  rw [List.append_cons] at h
  obtain ⟨w, hw, -⟩ := Radix.follow_of_append h
  exact (exists_entry hu hw).1

/-- The walk of the hardware yields what the leaf entry says. -/
theorem PageTables.walk_eq (h : PageTables m root) (a : Nat) :
    walk m root a = decode (leafEntry m root a) := by
  cases ht3 : tableAt m root (pathOf a) with
  | none =>
      rw [leafEntry_of_none ht3, walk, walkFrom_none ht3]
      rfl
  | some t3 =>
      -- the tables and the entries on the way
      obtain ⟨t2, ht2, -⟩ :=
        Radix.follow_of_append (p := [tableIndex 39 a, tableIndex 30 a])
          (q := [tableIndex 21 a]) ht3
      obtain ⟨t1, ht1, -⟩ :=
        Radix.follow_of_append (p := [tableIndex 39 a]) (q := [tableIndex 30 a]) ht2
      obtain ⟨hp1, rfl⟩ := exists_entry (p := []) rfl ht1
      obtain ⟨hp2, rfl⟩ := exists_entry ht1 ht2
      obtain ⟨hp3, rfl⟩ := exists_entry ht2 ht3
      -- they are writable, and give `USER` if the leaf does
      have hw1 := h.write [] root _ (by simp) rfl hp1
      have hw2 := h.write _ _ _ (by simp) ht1 hp2
      have hw3 := h.write _ _ _ (by simp) ht2 hp3
      rw [leafEntry_of_path ht3]
      simp only [walk, walkFrom, hp1, hp2, hp3, hw1, hw2, hw3, if_true, Bool.true_and, decode]
      split
      case isFalse => rfl
      case isTrue hp4 =>
          cases hu4 : (entry m _ (tableIndex 12 a)).testBit 2 with
          | false => rw [Bool.and_false]
          | true =>
              have hup := h.user (pathOf a) _ _ rfl ht3 hp4 hu4
              rw [hup [] _ _ rfl root rfl, hup [_] _ _ rfl _ ht1, hup [_, _] _ _ rfl _ ht2]
              rfl

theorem tableAt_append_none (h : tableAt m root p = none) (q : List (Fin 512)) :
    tableAt m root (p ++ q) = none := by
  rw [tableAt] at h ⊢
  rw [Radix.follow_append, h, Option.bind_none]

/-! ## Stores -/

/-- Rights along a path stay if its tables stay and its entries keep `USER`. -/
theorem UserPath.mono (hup : UserPath m root p) (hp : p.length ≤ 3) (ht : tableAt m root p = some t)
    (hpath : ∀ q u, q.length < 3 → tableAt m root q = some u → tableAt m' root q = some u)
    (hbit : ∀ q u j, q.length < 3 → tableAt m root q = some u → (entry m u j).testBit 0 = true →
      (entry m u j).testBit 2 = true → (entry m' u j).testBit 2 = true) : UserPath m' root p := by
  intro q j r hq u hu
  have hlen : q.length < 3 := by
    rw [hq, List.length_append, List.length_cons] at hp
    omega
  rw [hq] at ht
  obtain ⟨w, hw, -⟩ := Radix.follow_of_append ht
  obtain rfl : w = u := Option.some.inj ((hpath q w hlen hw).symm.trans hu)
  exact hbit q w j hlen hw (present_of_path ht hw) (hup q j r hq w hw)

theorem UserPath.concat (hup : UserPath m root p) (ht : tableAt m root p = some t)
    (hbit : (entry m t i).testBit 2 = true) : UserPath m root (p ++ [i]) := by
  intro q j r hq u hu
  rcases List.eq_nil_or_concat r with rfl | ⟨r, k, rfl⟩
  · obtain ⟨rfl, hij⟩ := List.append_inj' hq rfl
    obtain rfl : i = j := by simpa using hij
    rw [← Option.some.inj (ht.symm.trans hu)]
    exact hbit
  · rw [List.concat_eq_append, ← List.cons_append, ← List.append_assoc] at hq
    exact hup q j r (List.append_inj' hq rfl).1 u hu

/-- What a change of the tables keeps, if the addresses in `N` may become new
tables. -/
structure TablesGrow (N : Nat → Prop) (m m' : Mem) (root : Nat) : Prop where
  tables : PageTables m' root
  path : ∀ q u, q.length ≤ 3 → tableAt m root q = some u → tableAt m' root q = some u
  userPath : ∀ q u, q.length ≤ 3 → tableAt m root q = some u → UserPath m root q →
    UserPath m' root q
  new : ∀ u, IsTable m' root u → IsTable m root u ∨ N u

/-- A path that does not lead to a new table leads where it led. -/
theorem TablesGrow.tableAt_eq {N : Nat → Prop} (h : TablesGrow N m m' root) (hq : q.length ≤ 3)
    (hne : ∀ u, N u → tableAt m' root q ≠ some u) : tableAt m' root q = tableAt m root q := by
  cases hu : tableAt m' root q with
  | none =>
      cases hv : tableAt m root q with
      | none => rfl
      | some v => exact hu.symm.trans (h.path q v hq hv)
  | some u =>
      rcases h.new u ⟨q, hq, hu⟩ with ⟨r, hr, hv⟩ | hnew
      · rw [h.tables.unshared q r u hq hr hu (h.path r u hr hv), hv]
      · exact absurd hu (hne u hnew)

/-- A change that keeps the tree, only adds bits to directory entries and gives
`USER` only to leaves below directories with `USER`. -/
theorem PageTables.of_same {N : Nat → Prop} (h : PageTables m root)
    (hsame : ∀ p : List (Fin 512), p.length ≤ 3 → tableAt m' root p = tableAt m root p)
    (hdir : ∀ p t i, p.length < 3 → tableAt m root p = some t →
      ∀ k, (entry m t i).testBit k = true → (entry m' t i).testBit k = true)
    (hleaf : ∀ p t i, p.length = 3 → tableAt m root p = some t →
      entry m' t i = entry m t i ∨ ((entry m' t i).testBit 2 = true → UserPath m root p)) :
    TablesGrow N m m' root := by
  have huser : ∀ q u, q.length ≤ 3 → tableAt m root q = some u → UserPath m root q →
      UserPath m' root q := fun q u hq hu hup =>
    hup.mono hq hu (fun q u hq hu => (hsame q (by omega)).trans hu)
      fun q u j hq hu _ h2 => hdir q u j hq hu 2 h2
  have htab : ∀ u, IsTable m' root u → IsTable m root u := by
    rintro u ⟨p, hp, hu⟩
    exact ⟨p, hp, (hsame p hp).symm.trans hu⟩
  refine ⟨⟨h.unshared.congr hsame, fun t ht => h.aligned t (htab t ht), ?_, ?_⟩,
    fun q u hq hu => (hsame q hq).trans hu, huser, fun u hu => Or.inl (htab u hu)⟩
  · intro p t i hp ht hpres
    rw [hsame p (by omega)] at ht
    refine hdir p t i hp ht 1 (h.write p t i hp ht ?_)
    have hpi := hsame (p ++ [i]) (by simp; omega)
    rw [tableAt_concat ht, tableAt_concat ((hsame p (by omega)).trans ht)] at hpi
    rw [← childOf_isSome, ← hpi, childOf_isSome]
    exact hpres
  · intro p t i hp ht hpres hu
    rw [hsame p (by omega)] at ht
    apply huser p t (by omega) ht
    rcases hleaf p t i hp ht with heq | hup
    · rw [heq] at hpres hu
      exact h.user p t i hp ht hpres hu
    · exact hup hu

/-- What the tables hold depends on the bytes of the tables only. -/
theorem PageTables.congr {N : Nat → Prop} (h : PageTables m root)
    (heq : ∀ t, IsTable m root t → ∀ i, entry m' t i = entry m t i) :
    TablesGrow N m m' root ∧ ∀ a, leafEntry m' root a = leafEntry m root a := by
  have hsame : ∀ p : List (Fin 512), p.length ≤ 3 → tableAt m' root p = tableAt m root p :=
    Radix.follow_congr fun p t hp ht i => by rw [heq t ⟨p, by omega, ht⟩]
  refine ⟨h.of_same hsame ?_ ?_, fun a => ?_⟩
  · intro p t i hp ht k hk
    rwa [heq t ⟨p, by omega, ht⟩]
  · intro p t i hp ht
    exact Or.inl (heq t ⟨p, by omega, ht⟩ i)
  · unfold leafEntry
    rw [hsame (pathOf a) (by simp)]
    cases ht : tableAt m root (pathOf a) with
    | none => rfl
    | some t => exact heq t (isTable_of_path ht) _

/-- Adding flags to a directory entry. -/
theorem PageTables.flag {N : Nat → Prop} (h : PageTables m root) (hp : p.length < 3)
    (ht : tableAt m root p = some t) (hpres : (entry m t i).testBit 0 = true) (hf : flags < 8)
    (hst : SetsEntry m m' t i (entry m t i ||| flags)) :
    TablesGrow N m m' root ∧ ∀ a, leafEntry m' root a = leafEntry m root a := by
  have halign : ∀ q u, q.length ≤ 3 → tableAt m root q = some u → u % 4096 = 0 :=
    fun q u hq hu => (h.aligned u ⟨q, hq, hu⟩).1
  -- the last tables are not the one changed
  have hlast : ∀ q u j, q.length = 3 → tableAt m root q = some u → entry m' u j = entry m u j := by
    intro q u j hq hu
    rw [hst u j (halign q u (by omega) hu), if_neg]
    rintro ⟨rfl, -⟩
    rw [h.unshared p q u (by omega) (by omega) ht hu] at hp
    omega
  have hsame : ∀ q : List (Fin 512), q.length ≤ 3 → tableAt m' root q = tableAt m root q := by
    refine Radix.follow_congr fun q u hq hu j => ?_
    rw [hst u j (halign q u (by omega) hu)]
    split
    case isTrue heq =>
        obtain ⟨rfl, rfl⟩ := heq
        rw [childOf_of_present hpres, childOf_of_present (testBit_or_left hpres),
          or_flags_and_pageMask hf]
    case isFalse => rfl
  refine ⟨h.of_same hsame ?_ fun q u j hq hu => Or.inl (hlast q u j hq hu), fun a => ?_⟩
  · intro q u j hq hu k hk
    rw [hst u j (halign q u (by omega) hu)]
    split
    case isTrue heq =>
        obtain ⟨rfl, rfl⟩ := heq
        exact testBit_or_left hk
    case isFalse => exact hk
  · unfold leafEntry
    rw [hsame (pathOf a) (by simp)]
    cases hta : tableAt m root (pathOf a) with
    | none => rfl
    | some u => exact hlast _ u _ rfl hta

/-- Setting a leaf entry changes no directory. -/
theorem PageTables.setLeaf_same (h : PageTables m root)
    (ht : tableAt m root (pathOf a) = some t) (hst : SetsEntry m m' t (tableIndex 12 a) v) :
    (∀ q u j, q.length < 3 → tableAt m root q = some u → entry m' u j = entry m u j) ∧
      ∀ q : List (Fin 512), q.length ≤ 3 → tableAt m' root q = tableAt m root q := by
  have hdir : ∀ q u j, q.length < 3 → tableAt m root q = some u → entry m' u j = entry m u j := by
    intro q u j hq hu
    rw [hst u j (h.aligned u ⟨q, by omega, hu⟩).1, if_neg]
    rintro ⟨rfl, -⟩
    rw [h.unshared q (pathOf a) u (by omega) (by simp) hu ht, length_pathOf] at hq
    omega
  exact ⟨hdir, Radix.follow_congr fun q u hq hu j => by rw [hdir q u j hq hu]⟩

/-- Setting a leaf entry. -/
theorem PageTables.setLeaf {N : Nat → Prop} (h : PageTables m root)
    (ht : tableAt m root (pathOf a) = some t) (hst : SetsEntry m m' t (tableIndex 12 a) v)
    (huser : v.testBit 2 = true → UserPath m root (pathOf a)) :
    TablesGrow N m m' root
      ∧ ∀ b, leafEntry m' root b = if pageOf b = pageOf a then v else leafEntry m root b := by
  have halign : ∀ q u, q.length ≤ 3 → tableAt m root q = some u → u % 4096 = 0 :=
    fun q u hq hu => (h.aligned u ⟨q, hq, hu⟩).1
  obtain ⟨hdir, hsame⟩ := h.setLeaf_same ht hst
  refine ⟨h.of_same hsame ?_ ?_, fun b => ?_⟩
  · intro q u j hq hu k hk
    rwa [hdir q u j hq hu]
  · intro q u j hq hu
    rw [hst u j (halign q u (by omega) hu)]
    split
    case isTrue heq =>
        obtain ⟨rfl, rfl⟩ := heq
        rw [h.unshared q (pathOf a) u (by omega) (by simp) hu ht]
        exact Or.inr huser
    case isFalse => exact Or.inl rfl
  · unfold leafEntry
    rw [hsame (pathOf b) (by simp)]
    cases hb : tableAt m root (pathOf b) with
    | none =>
        rw [if_neg]
        intro hpage
        rw [(pageOf_eq_iff.mp hpage).1, ht] at hb
        cases hb
    | some u =>
        simp only [hst u _ (halign _ u (by simp) hb), pageOf_eq_iff]
        congr 1
        rw [eq_iff_iff]
        constructor
        · rintro ⟨rfl, hidx⟩
          exact ⟨h.unshared _ _ u (by simp) (by simp) hb ht, hidx⟩
        · rintro ⟨hpath, hidx⟩
          rw [hpath, ht] at hb
          exact ⟨(Option.some.inj hb).symm, hidx⟩

/-- `m'` is `m` with the zeroed frame `f` linked at the absent entry `i` of the directory `t`,
which is at `p`. -/
structure LinksTable (m m' : Mem) (root : Nat) (p : List (Fin 512)) (i : Fin 512)
    (t f flags : Nat) : Prop where
  place : tableAt m root p = some t
  above : p.length < 3
  absent : ¬ (entry m t i).testBit 0 = true
  fresh : ¬ IsTable m root f
  aligned : f % 4096 = 0
  bound : f + 4096 ≤ 2 ^ 64
  zero : ∀ j, entry m f j = 0
  small : flags < 8
  present : flags.testBit 0 = true
  writable : flags.testBit 1 = true
  sets : SetsEntry m m' t i (f ||| flags)

section

variable (h : PageTables m root) (hl : LinksTable m m' root p i t f flags)

include hl

/-- The new table has no entries. -/
theorem LinksTable.entry_new (j : Fin 512) : entry m' f j = 0 := by
  have htf : f ≠ t := fun heq => hl.fresh ⟨p, Nat.le_of_lt hl.above, heq ▸ hl.place⟩
  rw [hl.sets f j hl.aligned, if_neg (fun heq => htf heq.1), hl.zero]

/-- There was nothing at the new path. -/
theorem LinksTable.none_before : tableAt m root (p ++ [i]) = none := by
  rw [tableAt_concat hl.place, childOf_of_absent hl.absent]

include h

theorem LinksTable.entry_self : entry m' t i = f ||| flags := by
  have ht := (h.aligned t ⟨p, Nat.le_of_lt hl.above, hl.place⟩).1
  rw [hl.sets t i ht, if_pos ⟨rfl, rfl⟩]

theorem LinksTable.entry_other {q : List (Fin 512)} (hq : q.length ≤ 3)
    (hu : tableAt m root q = some u) (hne : ¬ (u = t ∧ j = i)) : entry m' u j = entry m u j := by
  rw [hl.sets u j (h.aligned u ⟨q, hq, hu⟩).1, if_neg hne]

theorem LinksTable.links : Radix.Links childOf (entry m) (entry m') root 3 p i t f where
  place := hl.place
  above := hl.above
  empty := childOf_of_absent hl.absent
  fresh := fun q hq hqf => hl.fresh ⟨q, hq, hqf⟩
  linked := by
    have hbound := hl.bound
    rw [hl.entry_self h, childOf_of_present (testBit_or_right hl.present),
      or_flags_and_pageMask hl.small, and_pageMask_of_aligned hl.aligned (by omega)]
  leafless := fun j => by rw [hl.entry_new j]; rfl
  other := fun q u hq hu j hne => by rw [hl.entry_other h (by omega) hu hne]

theorem LinksTable.tableAt_eq {q : List (Fin 512)} (hq : q.length ≤ 3) :
    tableAt m' root q = if q = p ++ [i] then some f else tableAt m root q :=
  Radix.follow_link h.unshared (hl.links h) q hq

/-- The other tables stay where they are. -/
theorem LinksTable.path {q : List (Fin 512)} (hq : q.length ≤ 3) (hu : tableAt m root q = some u) :
    tableAt m' root q = some u := by
  rw [hl.tableAt_eq h hq, if_neg, hu]
  rintro rfl
  cases hl.none_before.symm.trans hu

theorem LinksTable.userPath {q : List (Fin 512)} (hq : q.length ≤ 3)
    (hu : tableAt m root q = some u) (hup : UserPath m root q) : UserPath m' root q := by
  refine hup.mono hq hu (fun q u hq hu => hl.path h (by omega) hu) fun q u j hq hu h0 h2 => ?_
  rw [hl.entry_other h (by omega) hu]
  · exact h2
  · rintro ⟨rfl, rfl⟩
    exact hl.absent h0

/-- The tree with the new table. -/
theorem LinksTable.pageTables : PageTables m' root := by
  refine ⟨h.unshared.link (hl.links h), ?_, ?_, ?_⟩
  · rintro u ⟨q, hq, hu⟩
    rw [hl.tableAt_eq h hq] at hu
    split at hu
    case isTrue => exact Option.some.inj hu ▸ ⟨hl.aligned, hl.bound⟩
    case isFalse => exact h.aligned u ⟨q, hq, hu⟩
  · intro q u j hq hu hpj
    rw [hl.tableAt_eq h (by omega)] at hu
    split at hu
    case isTrue =>
        rw [← Option.some.inj hu, hl.entry_new j] at hpj
        simp at hpj
    case isFalse =>
        by_cases hat : u = t ∧ j = i
        · rw [hat.1, hat.2, hl.entry_self h]
          exact testBit_or_right hl.writable
        · rw [hl.entry_other h (by omega) hu hat] at hpj ⊢
          exact h.write q u j hq hu hpj
  · intro q u j hq hu hpj huj
    rw [hl.tableAt_eq h (by omega)] at hu
    split at hu
    case isTrue =>
        rw [← Option.some.inj hu, hl.entry_new j] at hpj
        simp at hpj
    case isFalse =>
        have hat : ¬ (u = t ∧ j = i) := fun hat => by
          have hp := hl.above
          rw [← h.unshared q p t (by omega) (by omega) (hat.1 ▸ hu) hl.place] at hp
          omega
        rw [hl.entry_other h (by omega) hu hat] at hpj huj
        exact hl.userPath h (by omega) hu (h.user q u j hq hu hpj huj)

/-- No leaf entry changes, as directories have none. -/
theorem LinksTable.leafEntry_eq (a : Nat) : leafEntry m' root a = leafEntry m root a := by
  unfold leafEntry
  rw [hl.tableAt_eq h (by simp)]
  by_cases hpa : pathOf a = p ++ [i]
  · rw [if_pos hpa, hpa, hl.none_before]
    exact hl.entry_new _
  · rw [if_neg hpa]
    cases hta : tableAt m root (pathOf a) with
    | none => rfl
    | some u =>
        refine hl.entry_other h (by simp) hta fun hat => ?_
        have hp := hl.above
        rw [← h.unshared (pathOf a) p t (by simp) (by omega) (hat.1 ▸ hta) hl.place] at hp
        exact absurd hp (by simp)

/-- Linking a new zeroed table below a directory. -/
theorem PageTables.link :
    TablesGrow (fun u => u = f) m m' root ∧ tableAt m' root (p ++ [i]) = some f
      ∧ ∀ a, leafEntry m' root a = leafEntry m root a := by
  have hp := hl.above
  refine ⟨⟨hl.pageTables h, fun q u hq hu => hl.path h hq hu,
    fun q u hq hu => hl.userPath h hq hu, ?_⟩, ?_, hl.leafEntry_eq h⟩
  · rintro u ⟨q, hq, hu⟩
    rw [hl.tableAt_eq h hq] at hu
    split at hu
    case isTrue => exact Or.inr (Option.some.inj hu).symm
    case isFalse => exact Or.inl ⟨q, hq, hu⟩
  · rw [hl.tableAt_eq h (by simp; omega), if_pos rfl]

end

/-- The tree below a root without entries. -/
theorem pageTables_zero (hzero : ∀ i, entry m root i = 0) (h0 : root % 4096 = 0)
    (hr : root + 4096 ≤ 2 ^ 64) : PageTables m root ∧ ∀ t, IsTable m root t → t = root := by
  -- the only path is the empty one
  have hnil : ∀ p t, tableAt m root p = some t → p = [] ∧ t = root := by
    intro p t ht
    cases p with
    | nil => exact ⟨rfl, (Option.some.inj ht).symm⟩
    | cons i p =>
        rw [tableAt, Radix.follow, hzero i] at ht
        cases ht
  refine ⟨⟨?_, ?_, ?_, ?_⟩, ?_⟩
  · intro p q t _ _ hp hq
    rw [(hnil p t hp).1, (hnil q t hq).1]
  · rintro t ⟨p, -, ht⟩
    exact (hnil p t ht).2 ▸ ⟨h0, hr⟩
  · intro p t i _ ht hpres
    rw [(hnil p t ht).2, hzero i] at hpres
    simp at hpres
  · intro p t i hp ht
    rw [(hnil p t ht).1] at hp
    cases hp
  · rintro t ⟨p, -, ht⟩
    exact (hnil p t ht).2

end TunaOs
