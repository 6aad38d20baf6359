import TunaOs.Lib.Segment

/-!
# Long mode and its pages

The part of an x86 processor that decides on long mode and on translation: the control
registers with the rules for writing them, and the walk through four levels of tables, with
pages of 1 GiB and 2 MiB.

Paging outside long mode and with five levels is left out: nothing is mapped then.  So are the
bits for execution, memory types and protection keys, a task register with a 16-bit segment,
and the accessed and dirty bits: a walk does not write to the tables.
-/

namespace LongMode

/-! ## Control registers -/

/-- CR0, CR3, CR4 and EFER. -/
structure Control where
  cr0 : UInt32
  cr3 : UInt64
  cr4 : UInt32
  efer : UInt64
deriving DecidableEq, Repr

section

variable (c : Control)

/-- CR0.PG. -/
def Control.paging : Bool := c.cr0.toNat.testBit 31

/-- CR4.PAE. -/
def Control.pae : Bool := c.cr4.toNat.testBit 5

/-- CR4.LA57. -/
def Control.fiveLevels : Bool := c.cr4.toNat.testBit 12

/-- EFER.LME. -/
def Control.enabled : Bool := c.efer.toNat.testBit 8

/-- EFER.LMA. -/
def Control.active : Bool := c.efer.toNat.testBit 10

/-- EFER with the given bit LMA. -/
def withActive (efer : UInt64) (active : Bool) : UInt64 :=
  (efer &&& ~~~ 0x400) ||| if active then 0x400 else 0

/-- A write to CR0 by code of a segment with the L bit, or without.  `none` is an exception. -/
def Control.writeCr0 (long : Bool) (v : UInt32) : Option Control :=
  -- PG without PE
  if v.toNat.testBit 31 = true ∧ v.toNat.testBit 0 = false then none
  -- NW without CD
  else if v.toNat.testBit 29 = true ∧ v.toNat.testBit 30 = false then none
  -- long mode needs PAE, and starts in code without the L bit
  else if v.toNat.testBit 31 = true ∧ c.paging = false ∧ c.enabled = true ∧
      (c.pae = false ∨ long = true) then none
  else if v.toNat.testBit 31 = false ∧ c.paging = true ∧ long = true then none
  else some { c with cr0 := v, efer := withActive c.efer (v.toNat.testBit 31 && c.enabled) }

/-- A write to CR4. -/
def Control.writeCr4 (v : UInt32) : Option Control :=
  if c.active = true ∧ (v.toNat.testBit 5 = false ∨ v.toNat.testBit 12 ≠ c.fiveLevels) then none
  else some { c with cr4 := v }

/-- A write to CR3. -/
def Control.writeCr3 (v : UInt64) : Control := { c with cr3 := v }

/-- A write to EFER.  LMA cannot be written. -/
def Control.writeEfer (v : UInt64) : Option Control :=
  if c.paging = true ∧ v.toNat.testBit 8 ≠ c.enabled then none
  else some { c with efer := withActive v c.active }

end

/-! ## Translation -/

/-- A page that a walk ends at. -/
structure Page where
  base : Nat
  /-- The page has `2 ^ shift` bytes. -/
  shift : Nat
  /-- Writable on all levels. -/
  write : Bool
  /-- Accessible at level 3 on all levels. -/
  user : Bool
deriving DecidableEq, Repr

/-- The address behind `a`. -/
def Page.address (p : Page) (a : Nat) : Nat := p.base + a % 2 ^ p.shift

/-- The address in an entry, of a table or of a page of `2 ^ shift` bytes. -/
def target (e shift : Nat) : Nat := e / 2 ^ shift % 2 ^ (52 - shift) * 2 ^ shift

/-- The entry for `a` in a table. -/
def entryAt (m : Mem) (table shift a : Nat) : Nat := m.load (table + 8 * (a / 2 ^ shift % 512)) 8

/-- The walk from a table on.  The shifts are those of its level and of the levels below it. -/
def walkFrom (m : Mem) : List Nat → Nat → Nat → Bool → Bool → Option Page
  | [], _, _, _, _ => none
  | shift :: shifts, table, a, w, u =>
      let e := entryAt m table shift a
      let w := w && e.testBit 1
      let u := u && e.testBit 2
      if e.testBit 0 = false then none
      else if shifts = [] then some ⟨target e shift, shift, w, u⟩
      else if e.testBit 7 = true then
        -- a large page, for which some bits are reserved
        if shift = 39 ∨ e / 2 ^ 13 % 2 ^ (shift - 13) ≠ 0 then none
        else some ⟨target e shift, shift, w, u⟩
      else walkFrom m shifts (target e 12) a w u

/-- The walk from CR3. -/
def walk (m : Mem) (cr3 a : Nat) : Option Page :=
  if Word.canonical a then walkFrom m [39, 30, 21, 12] (target cr3 12) a true true else none

section

variable (c : Control)

/-- The page of an address in long mode. -/
def Control.page (m : Mem) (a : Nat) : Option Page :=
  if c.active = true ∧ c.fiveLevels = false then walk m c.cr3.toNat a else none

/-- The address behind an address, for a read at level 0. -/
def Control.resolve (m : Mem) (a : Nat) : Option Nat :=
  if c.paging = true then (c.page m a).map (·.address a) else some a

/-- The address behind an address, for a write at level 0.  CR0.WP decides if the rights of the
page count. -/
def Control.resolveWrite (m : Mem) (a : Nat) : Option Nat :=
  if c.paging = true then
    ((c.page m a).filter fun p => p.write || !c.cr0.toNat.testBit 16).map (·.address a)
  else some a

end

/-- The address behind an address in long mode, and the rights. -/
def Control.translation (c : Control) (m : Mem) (a : Nat) : Option (Nat × Bool × Bool) :=
  (c.page m a).map fun p => (p.address a, p.write, p.user)

/-! ## Entering long mode -/

theorem active_withActive (efer : UInt64) (active : Bool) :
    (withActive efer active).toNat.testBit 10 = active := by
  rw [withActive, UInt64.toNat_or, UInt64.toNat_and, Nat.testBit_or, Nat.testBit_and]
  have hmask : (~~~ 0x400 : UInt64).toNat.testBit 10 = false := by decide
  rw [hmask, Bool.and_false, Bool.false_or]
  cases active with
  | false => decide
  | true => decide

theorem enabled_withActive (efer : UInt64) (active : Bool) :
    (withActive efer active).toNat.testBit 8 = efer.toNat.testBit 8 := by
  rw [withActive, UInt64.toNat_or, UInt64.toNat_and, Nat.testBit_or, Nat.testBit_and]
  have hmask : (~~~ 0x400 : UInt64).toNat.testBit 8 = true := by decide
  have hbit : (if active then 0x400 else 0 : UInt64).toNat.testBit 8 = false := by
    cases active with
    | false => decide
    | true => decide
  rw [hmask, hbit, Bool.and_true, Bool.or_false]

/-- Paging is turned on with PAE and LME set, by code without the L bit. -/
theorem Control.writeCr0_starts {c : Control} {v : UInt32} (hpaging : c.paging = false)
    (henabled : c.enabled = true) (hpae : c.pae = true) (hpg : v.toNat.testBit 31 = true)
    (hpe : v.toNat.testBit 0 = true)
    (hcaches : ¬ (v.toNat.testBit 29 = true ∧ v.toNat.testBit 30 = false)) :
    c.writeCr0 false v = some { c with cr0 := v, efer := withActive c.efer true } := by
  rw [Control.writeCr0, if_neg (by rw [hpe]; simp), if_neg hcaches, if_neg (by rw [hpae]; simp),
    if_neg (by rw [hpaging]; simp), hpg, henabled]
  rfl

theorem Control.writeCr4_inactive {c : Control} (h : c.active = false) (v : UInt32) :
    c.writeCr4 v = some { c with cr4 := v } := by
  rw [Control.writeCr4, if_neg (by rw [h]; simp)]

theorem Control.writeEfer_off {c : Control} (h : c.paging = false) (v : UInt64) :
    c.writeEfer v = some { c with efer := withActive v c.active } := by
  rw [Control.writeEfer, if_neg (by rw [h]; simp)]

theorem Control.resolve_off {c : Control} (h : c.paging = false) (m : Mem) (a : Nat) :
    c.resolve m a = some a := by
  rw [Control.resolve, if_neg (by rw [h]; decide)]

/-! ## Steps of a walk -/

section

variable {m : Mem} {shifts : List Nat} {shift table a : Nat} {w u : Bool}

theorem walkFrom_absent (h : (entryAt m table shift a).testBit 0 = false) :
    walkFrom m (shift :: shifts) table a w u = none := by
  rw [walkFrom, if_pos h]

theorem walkFrom_table (hs : shifts ≠ []) (h0 : (entryAt m table shift a).testBit 0 = true)
    (h7 : (entryAt m table shift a).testBit 7 = false) :
    walkFrom m (shift :: shifts) table a w u =
      walkFrom m shifts (target (entryAt m table shift a) 12) a
        (w && (entryAt m table shift a).testBit 1) (u && (entryAt m table shift a).testBit 2) := by
  rw [walkFrom]
  rw [if_neg (by rw [h0]; decide), if_neg hs, if_neg (by rw [h7]; decide)]

theorem walkFrom_large (hs : shifts ≠ []) (h39 : shift ≠ 39)
    (h0 : (entryAt m table shift a).testBit 0 = true)
    (h7 : (entryAt m table shift a).testBit 7 = true)
    (hres : entryAt m table shift a / 2 ^ 13 % 2 ^ (shift - 13) = 0) :
    walkFrom m (shift :: shifts) table a w u =
      some ⟨target (entryAt m table shift a) shift, shift,
        w && (entryAt m table shift a).testBit 1, u && (entryAt m table shift a).testBit 2⟩ := by
  rw [walkFrom]
  rw [if_neg (by rw [h0]; decide), if_neg hs, if_pos h7,
    if_neg (not_or.mpr ⟨h39, not_not.mpr hres⟩)]

end

end LongMode
