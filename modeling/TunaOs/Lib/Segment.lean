import TunaOs.Lib.Layout
import TunaOs.Lib.Word

/-!
# Descriptor tables and privilege levels

The part of an x86 processor in 64-bit mode that decides on privilege: how it decodes the
descriptors of the global descriptor table and the gates of the interrupt descriptor table,
and what it checks at an interrupt, at `iretq`, at a far jump or call, at a load of a segment
register and at a port access.  A check that fails is an `Exception` with its error code.

There is no local descriptor table.  Levels are numbers, 0 the most privileged one.  Of a
selector the bits 0 and 1 are the requested level, bit 2 chooses the table, and the rest is
the index of a descriptor.
-/

namespace Segment

open Word (canonical)

/-! ## Descriptors -/

/-- GDTR or IDTR: the address of a table and the offset of its last byte. -/
structure TableReg where
  base : Nat
  limit : Nat
deriving DecidableEq, Repr

/-- A descriptor of eight bytes. -/
structure Descriptor where
  base : Nat
  limit : Nat
  type : Nat
  /-- The S bit: a code or data segment. -/
  ordinary : Bool
  dpl : Nat
  present : Bool
  /-- The L bit: code for 64-bit mode. -/
  long : Bool
  /-- The D bit. -/
  big : Bool
deriving DecidableEq, Repr

/-- The fields of a descriptor. -/
def decode (w : Nat) : Descriptor where
  base := w / 2 ^ 16 % 2 ^ 24 + 2 ^ 24 * (w / 2 ^ 56 % 2 ^ 8)
  limit := w % 2 ^ 16 + 2 ^ 16 * (w / 2 ^ 48 % 2 ^ 4)
  type := w / 2 ^ 40 % 2 ^ 4
  ordinary := decide (w / 2 ^ 44 % 2 = 1)
  dpl := w / 2 ^ 45 % 2 ^ 2
  present := decide (w / 2 ^ 47 % 2 = 1)
  long := decide (w / 2 ^ 53 % 2 = 1)
  big := decide (w / 2 ^ 54 % 2 = 1)

/-- A code segment. -/
def Descriptor.code (d : Descriptor) : Bool := d.ordinary && decide (8 ≤ d.type)

/-- A conforming code segment. -/
def Descriptor.conforming (d : Descriptor) : Bool := decide (d.type / 4 % 2 = 1)

/-- A data segment that can be written. -/
def Descriptor.writable (d : Descriptor) : Bool :=
  d.ordinary && decide (d.type < 8 ∧ d.type / 2 % 2 = 1)

/-- A gate of the interrupt descriptor table. -/
structure Gate where
  offset : Nat
  selector : Nat
  ist : Nat
  /-- The type with the bit above it, which is clear in a gate. -/
  type : Nat
  dpl : Nat
  present : Bool
deriving DecidableEq, Repr

/-- The fields of a gate. -/
def decodeGate (low high : Nat) : Gate where
  offset := low % 2 ^ 16 + 2 ^ 16 * (low / 2 ^ 48 % 2 ^ 16) + 2 ^ 32 * (high % 2 ^ 32)
  selector := low / 2 ^ 16 % 2 ^ 16
  ist := low / 2 ^ 32 % 2 ^ 3
  type := low / 2 ^ 40 % 2 ^ 5
  dpl := low / 2 ^ 45 % 2 ^ 2
  present := decide (low / 2 ^ 47 % 2 = 1)

/-! ## Exceptions -/

/-- The exceptions of the checks, with their error codes. -/
inductive Exception
  /-- Invalid TSS. -/
  | ts (error : Nat)
  /-- Segment not present. -/
  | np (error : Nat)
  /-- Stack fault. -/
  | ss (error : Nat)
  /-- General protection. -/
  | gp (error : Nat)
deriving DecidableEq, Repr

/-- The vector. -/
def Exception.vector : Exception → Nat
  | ts _ => 10
  | np _ => 11
  | ss _ => 12
  | gp _ => 13

/-- The error code. -/
def Exception.error : Exception → Nat
  | ts e => e
  | np e => e
  | ss e => e
  | gp e => e

/-- The error code for a selector. -/
def selectorError (sel : Nat) : Nat := sel / 4 * 4

/-- A selector with another requested level. -/
def withLevel (sel level : Nat) : Nat := sel / 4 * 4 + level

/-! ## Tables -/

/-- The table registers and the memory the tables are in. -/
structure Tables where
  mem : Mem
  gdtr : TableReg
  idtr : TableReg
  /-- TR: the address of the task state segment and the offset of its last byte. -/
  tr : TableReg

section

variable (T : Tables)

/-- The number at an index of the global descriptor table. -/
def Tables.word (index : Nat) : Nat := T.mem.load (T.gdtr.base + 8 * index) 8

/-- The descriptor of a selector. -/
def Tables.descriptor (sel : Nat) : Option Descriptor :=
  if sel / 4 % 2 = 0 ∧ 8 * (sel / 8) + 7 ≤ T.gdtr.limit then some (decode (T.word (sel / 8)))
  else none

/-- The gate of a vector. -/
def Tables.gate (n : Nat) : Gate :=
  decodeGate (T.mem.load (T.idtr.base + 16 * n) 8) (T.mem.load (T.idtr.base + 16 * n + 8) 8)

/-- The stack pointer for a level, or that of an entry of the interrupt stack table.  Both
are words of the task state segment. -/
def Tables.stackFor (level ist : Nat) : Except Exception Nat :=
  let offset := if ist = 0 then 4 + 8 * level else 28 + 8 * ist
  if T.tr.limit < offset + 7 then .error (.ts 0)
  else
    let sp := T.mem.load (T.tr.base + offset) 8
    if canonical sp then .ok sp else .error (.ss 0)

/-! ## Far jumps and calls -/

/-- Code that a far jump or call at level `cpl` goes to directly.  The level stays. -/
def checkCode (cpl sel : Nat) (d : Descriptor) : Except Exception (Nat × Nat) :=
  if d.code = false then .error (.gp (selectorError sel))
  else if d.long = true ∧ d.big = true then .error (.gp (selectorError sel))
  else if d.conforming = true ∧ cpl < d.dpl then .error (.gp (selectorError sel))
  else if d.conforming = false ∧ (cpl < sel % 4 ∨ d.dpl ≠ cpl) then
    .error (.gp (selectorError sel))
  else if d.present = false then .error (.np (selectorError sel))
  else .ok (withLevel sel cpl, cpl)

/-- Code that a far jump or call at level `cpl` goes to through a call gate.  A call may
change the level. -/
def Tables.checkGate (call : Bool) (cpl sel : Nat) (gate : Descriptor) :
    Except Exception (Nat × Nat) :=
  let target := T.word (sel / 8) / 2 ^ 16 % 2 ^ 16
  if gate.dpl < cpl ∨ gate.dpl < sel % 4 then .error (.gp (selectorError sel))
  else if gate.present = false then .error (.np (selectorError sel))
  else if target / 4 = 0 then .error (.gp 0)
  else
    match T.descriptor target with
    | none => .error (.gp (selectorError target))
    | some d =>
      if d.code = false ∨ cpl < d.dpl ∨ d.long = false ∨ d.big = true then
        .error (.gp (selectorError target))
      else if d.present = false then .error (.np (selectorError target))
      else if d.conforming = true ∨ d.dpl = cpl then .ok (withLevel target cpl, cpl)
      else if call then .ok (withLevel target d.dpl, d.dpl)
      else .error (.gp (selectorError target))

/-- A far jump or call at level `cpl`: CS and the level behind it. -/
def Tables.far (call : Bool) (cpl sel : Nat) : Except Exception (Nat × Nat) :=
  if sel / 4 = 0 then .error (.gp 0)
  else
    match T.descriptor sel with
    | none => .error (.gp (selectorError sel))
    | some d =>
      if d.ordinary then checkCode cpl sel d
      else if d.type = 12 then T.checkGate call cpl sel d
      else .error (.gp (selectorError sel))

/-! ## Data segments -/

/-- A load of DS, ES, FS or GS at level `cpl`. -/
def Tables.loadData (cpl sel : Nat) : Except Exception Nat :=
  if sel / 4 = 0 then .ok sel
  else
    match T.descriptor sel with
    | none => .error (.gp (selectorError sel))
    | some d =>
      if d.ordinary = false ∨ (8 ≤ d.type ∧ d.type / 2 % 2 = 0) then
        .error (.gp (selectorError sel))
      else if (d.type < 8 ∨ d.conforming = false) ∧ (d.dpl < sel % 4 ∨ d.dpl < cpl) then
        .error (.gp (selectorError sel))
      else if d.present = false then .error (.np (selectorError sel))
      else .ok sel

/-- A load of SS at level `cpl`. -/
def Tables.loadSs (cpl sel : Nat) : Except Exception Nat :=
  if sel / 4 = 0 then (if cpl < 3 ∧ sel % 4 = cpl then .ok sel else .error (.gp 0))
  else
    match T.descriptor sel with
    | none => .error (.gp (selectorError sel))
    | some d =>
      if sel % 4 ≠ cpl ∨ d.writable = false ∨ d.dpl ≠ cpl then .error (.gp (selectorError sel))
      else if d.present = false then .error (.ss (selectorError sel))
      else .ok sel

/-! ## Interrupts -/

/-- Where an interrupt comes from: an instruction `int n`, or an exception or a device. -/
inductive Source
  | software
  | external
deriving DecidableEq, Repr

/-- The bit of the error code that says so. -/
def Source.bit : Source → Nat
  | software => 0
  | external => 1

/-- The entry to a handler. -/
structure Entry where
  rip : Nat
  cs : Nat
  level : Nat
  /-- The new stack pointer, or `none` if the stack stays. -/
  stack : Option Nat
  /-- The interrupt flag is cleared. -/
  clears : Bool
deriving DecidableEq, Repr

/-- The checks on the code segment of a gate, and the stack. -/
def Tables.enter (cpl : Nat) (src : Source) (g : Gate) : Except Exception Entry :=
  if g.selector / 4 = 0 then .error (.gp src.bit)
  else
    match T.descriptor g.selector with
    | none => .error (.gp (selectorError g.selector + src.bit))
    | some d =>
      if d.code = false ∨ cpl < d.dpl ∨ d.long = false ∨ d.big = true then
        .error (.gp (selectorError g.selector + src.bit))
      else if d.present = false then .error (.np (selectorError g.selector + src.bit))
      else if ¬ canonical g.offset then .error (.gp src.bit)
      else if d.conforming = true ∨ d.dpl = cpl then
        if g.ist = 0 then .ok ⟨g.offset, withLevel g.selector cpl, cpl, none, g.type = 14⟩
        else (T.stackFor cpl g.ist).map fun sp =>
          ⟨g.offset, withLevel g.selector cpl, cpl, some sp, g.type = 14⟩
      else (T.stackFor d.dpl g.ist).map fun sp =>
        ⟨g.offset, withLevel g.selector d.dpl, d.dpl, some sp, g.type = 14⟩

/-- An interrupt of vector `n` at level `cpl`. -/
def Tables.deliver (cpl n : Nat) (src : Source) : Except Exception Entry :=
  let error := 8 * n + 2 + src.bit
  if T.idtr.limit < 16 * n + 15 then .error (.gp error)
  else
    let g := T.gate n
    if g.type ≠ 14 ∧ g.type ≠ 15 then .error (.gp error)
    else if src = .software ∧ g.dpl < cpl then .error (.gp error)
    else if g.present = false then .error (.np error)
    else T.enter cpl src g

/-! ## Returns -/

/-- `iretq` or a far return at level `cpl` to 64-bit code, with the values it pops: the level
behind it.  SS is loaded if the level changes. -/
def Tables.returnTo (cpl rip cs ss : Nat) : Except Exception Nat :=
  if cs / 4 = 0 then .error (.gp 0)
  else
    match T.descriptor cs with
    | none => .error (.gp (selectorError cs))
    | some d =>
      if d.code = false ∨ cs % 4 < cpl ∨ d.long = false ∨ d.big = true then
        .error (.gp (selectorError cs))
      else if d.conforming = true ∧ cs % 4 < d.dpl then .error (.gp (selectorError cs))
      else if d.conforming = false ∧ d.dpl ≠ cs % 4 then .error (.gp (selectorError cs))
      else if d.present = false then .error (.np (selectorError cs))
      else if ¬ canonical rip then .error (.gp 0)
      else if cpl < cs % 4 then (T.loadSs (cs % 4) ss).map fun _ => cs % 4
      else .ok (cs % 4)

/-! ## The task register and ports -/

/-- `ltr`: the task register is loaded, and the descriptor is marked busy. -/
def Tables.ltr (sel : Nat) : Except Exception Tables :=
  if sel / 4 = 0 then .error (.gp 0)
  else if sel / 4 % 2 ≠ 0 ∨ T.gdtr.limit < 8 * (sel / 8) + 15 then
    .error (.gp (selectorError sel))
  else
    let d := decode (T.word (sel / 8))
    if d.ordinary = true ∨ d.type ≠ 9 then .error (.gp (selectorError sel))
    else if d.present = false then .error (.np (selectorError sel))
    else
      let a := T.gdtr.base + 8 * (sel / 8)
      .ok { T with
        mem := T.mem.set (a + 5) (T.mem (a + 5) ||| 2)
        tr := ⟨d.base + 2 ^ 32 * (T.word (sel / 8 + 1) % 2 ^ 32), d.limit⟩ }

/-- An access to a port of one byte is allowed: by the level, or by the map of ports in the
task state segment.  The processor reads two bytes of the map. -/
def Tables.portAllowed (cpl iopl port : Nat) : Prop :=
  cpl ≤ iopl ∨
    let map := T.mem.load (T.tr.base + 102) 2
    map + port / 8 + 1 ≤ T.tr.limit ∧
      T.mem.load (T.tr.base + map + port / 8) 2 / 2 ^ (port % 8) % 2 = 0

end

/-! ## What passes the checks -/

theorem of_guard {ε α : Type} {p : Prop} [Decidable p] {e : ε} {x : Except ε α} {r : α}
    (h : (if p then .error e else x) = .ok r) : ¬ p ∧ x = .ok r := by
  split at h
  case isTrue => cases h
  case isFalse hp => exact ⟨hp, h⟩

/-- Code of the level, if it does not conform. -/
theorem Descriptor.of_level {d : Descriptor} {level : Nat}
    (h : ¬ (d.conforming = false ∧ d.dpl ≠ level)) : d.conforming = true ∨ d.dpl = level := by
  cases hconf : d.conforming with
  | true => exact Or.inl rfl
  | false => exact Or.inr (Classical.not_not.mp fun hne => h ⟨hconf, hne⟩)

theorem checkCode_ok {cpl sel : Nat} {d : Descriptor} {r : Nat × Nat}
    (h : checkCode cpl sel d = .ok r) :
    d.code = true ∧ (d.conforming = true ∨ d.dpl = cpl) ∧ r = (withLevel sel cpl, cpl) := by
  obtain ⟨hcode, h⟩ := of_guard h
  obtain ⟨-, h⟩ := of_guard h
  obtain ⟨-, h⟩ := of_guard h
  obtain ⟨hlevel, h⟩ := of_guard h
  obtain ⟨-, h⟩ := of_guard h
  have hdpl := Descriptor.of_level fun hno => hlevel ⟨hno.1, Or.inr hno.2⟩
  exact ⟨eq_true_of_ne_false hcode, hdpl, (Except.ok.inj h).symm⟩

section

variable {T : Tables}

/-- A far jump or call goes to code directly or through a call gate. -/
theorem Tables.far_ok {call : Bool} {cpl sel : Nat} {r : Nat × Nat}
    (h : T.far call cpl sel = .ok r) : sel / 4 ≠ 0 ∧ ∃ d, T.descriptor sel = some d ∧
      (checkCode cpl sel d = .ok r ∨ d.ordinary = false ∧ d.type = 12) := by
  obtain ⟨hnull, h⟩ := of_guard h
  refine ⟨hnull, ?_⟩
  cases hd : T.descriptor sel with
  | none =>
      rw [hd] at h
      cases h
  | some d =>
      rw [hd] at h
      refine ⟨d, rfl, ?_⟩
      dsimp only at h
      split at h
      case isTrue => exact Or.inl h
      case isFalse hord =>
        split at h
        case isTrue htype => exact Or.inr ⟨eq_false_of_ne_true hord, htype⟩
        case isFalse => cases h

/-- SS gets a data segment of the level, or is null at a level below 3. -/
theorem Tables.loadSs_ok {cpl sel ss : Nat} (h : T.loadSs cpl sel = .ok ss) :
    ss = sel ∧ (sel / 4 = 0 ∧ cpl < 3 ∨ sel / 4 ≠ 0 ∧ sel % 4 = cpl ∧
      ∃ d, T.descriptor sel = some d ∧ d.writable = true ∧ d.dpl = cpl) := by
  rw [Tables.loadSs] at h
  split at h
  case isTrue hnull =>
    split at h
    case isTrue hlevel => exact ⟨(Except.ok.inj h).symm, Or.inl ⟨hnull, hlevel.1⟩⟩
    case isFalse => cases h
  case isFalse hnull =>
    cases hd : T.descriptor sel with
    | none =>
        rw [hd] at h
        cases h
    | some d =>
        rw [hd] at h
        obtain ⟨hok, h⟩ := of_guard h
        obtain ⟨-, h⟩ := of_guard h
        obtain ⟨hrpl, hok⟩ := not_or.mp hok
        obtain ⟨hwrite, hdpl⟩ := not_or.mp hok
        exact ⟨(Except.ok.inj h).symm, Or.inr ⟨hnull, Classical.not_not.mp hrpl, d, rfl,
          eq_true_of_ne_false hwrite, Classical.not_not.mp hdpl⟩⟩

/-- A return goes to code of the level that the selector requests, which is not lower than
the one it comes from. -/
theorem Tables.returnTo_ok {cpl rip cs ss level : Nat}
    (h : T.returnTo cpl rip cs ss = .ok level) : cs / 4 ≠ 0 ∧ level = cs % 4 ∧ cpl ≤ level ∧
      ∃ d, T.descriptor cs = some d ∧ d.code = true ∧
        (d.conforming = true ∨ d.dpl = level) := by
  obtain ⟨hnull, h⟩ := of_guard h
  cases hd : T.descriptor cs with
  | none =>
      rw [hd] at h
      cases h
  | some d =>
      rw [hd] at h
      obtain ⟨hok, h⟩ := of_guard h
      obtain ⟨-, h⟩ := of_guard h
      obtain ⟨hdpl, h⟩ := of_guard h
      obtain ⟨-, h⟩ := of_guard h
      obtain ⟨-, h⟩ := of_guard h
      obtain ⟨hcode, hok⟩ := not_or.mp hok
      have hlevel : ¬ cs % 4 < cpl := (not_or.mp hok).1
      have heq : level = cs % 4 := by
        split at h
        case isTrue =>
          cases hss : T.loadSs (cs % 4) ss with
          | error e =>
              rw [hss] at h
              cases h
          | ok _ =>
              rw [hss] at h
              exact (Except.ok.inj h).symm
        case isFalse => exact (Except.ok.inj h).symm
      rw [heq]
      refine ⟨hnull, rfl, by omega, d, rfl, eq_true_of_ne_false hcode, ?_⟩
      exact Descriptor.of_level fun hno => hdpl ⟨hno.1, hno.2⟩

end

end Segment
