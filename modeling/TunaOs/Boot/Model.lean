import TunaOs.Lib.LongMode

/-!
# The boot code

The model of `boot.S`.  Its tables are data of the image: `bootTables` is the section `.data`,
`bootGdt` what follows the code in `.text`.  Its code is a list of instructions, which starts in
the 32-bit code segment of the boot loader, with paging off, and ends with the call of
`kernel_main` in 64-bit mode.  Every instruction is fetched through the tables that are active
then, and every load of a segment register is checked against the descriptor table.

The image ends in the first gigabyte.  `BootImage` has the addresses that the linker gives to
its parts.
-/

namespace TunaOs

open LongMode (Control)
open Mem (leBytes)
open Segment (TableReg Tables Exception)

/-! ## Data -/

/-- The entries of `pml4`, `pdpt` and `pd0`, one table behind the other. -/
def bootEntries (pml4 : Nat) : List Nat :=
  ((pml4 + 4096 + 0x003) :: List.replicate 511 0) ++
    ((pml4 + 8192 + 0x003) :: List.replicate 511 0) ++
    (List.range 512).map fun i => i * 0x200000 + 0x083

/-- `pml4`, `pdpt` and `pd0` in memory. -/
def bootTables (pml4 : Nat) : List UInt8 := (bootEntries pml4).flatMap (leBytes 8)

/-- `gdt64` in memory. -/
def gdt64Entries : List Nat := [0, 0x00AF9A000000FFFF, 0x00CF92000000FFFF]

/-- `gdt64` and `gdt64_ptr`, up to `gdt64_end`. -/
def bootGdt (gdt64 : Nat) : List UInt8 :=
  gdt64Entries.flatMap (leBytes 8) ++ (leBytes 2 (24 + 6 - 1) ++ leBytes 4 gdt64)

/-- The addresses that the linker gives to the parts of `boot.S`, and that of `kernel_main`. -/
structure BootImage where
  /-- `pml4`, the start of `.data` there. -/
  pml4 : Nat
  /-- `gdt64`. -/
  gdt64 : Nat
  /-- `stack_top`. -/
  stackTop : Nat
  /-- The instructions, the first one `_start`. -/
  code : Nat → Nat
  /-- `kernel_main`. -/
  kernelMain : Nat
  pml4_aligned : pml4 % 4096 = 0
  stack_aligned : stackTop % 16 = 0
  /-- The stack has its place. -/
  stack_size : 16384 ≤ stackTop
  stack_tables : stackTop ≤ pml4 ∨ pml4 + 12288 + 16384 ≤ stackTop
  /-- All of it is in the first gigabyte. -/
  tables_low : pml4 + 12288 ≤ 2 ^ 30
  gdt_low : gdt64 + 30 ≤ 2 ^ 30
  stack_low : stackTop ≤ 2 ^ 30
  code_low : ∀ k, code k < 2 ^ 30

/-! ## Instructions -/

/-- The registers that 32-bit code loads with constants. -/
inductive BootReg
  | eax
  | ecx
  | esp
deriving DecidableEq, Repr

inductive ControlReg
  | cr0
  | cr3
  | cr4
deriving DecidableEq, Repr

/-- The segment registers for data. -/
inductive DataSeg
  | ds
  | es
  | ss
  | fs
  | gs
deriving DecidableEq, Repr

/-- The instructions. -/
inductive BootInstr
  | cli
  /-- `mov $v, %r`. -/
  | mov (v : UInt32) (r : BootReg)
  /-- `mov %cr, %eax`. -/
  | movFromCr (r : ControlReg)
  /-- `or $v, %eax`. -/
  | orEax (v : UInt32)
  /-- `mov %eax, %cr`. -/
  | movToCr (r : ControlReg)
  | rdmsr
  | wrmsr
  | lgdt (a : Nat)
  | ljmp (sel target : Nat)
  /-- `mov $v, %ax`. -/
  | movAx (v : UInt16)
  /-- `mov %ax, %s`. -/
  | movSeg (s : DataSeg)
  /-- `lea a(%rip), %rsp`. -/
  | leaRsp (a : Nat)
  /-- `mov %ebx, %edi`. -/
  | movEdi
  | call (target : Nat)
deriving DecidableEq, Repr

/-- The instruction is assembled for 64-bit mode. -/
def BootInstr.code64 : BootInstr → Bool
  | movAx _ | movSeg _ | leaRsp _ | movEdi | call _ => true
  | _ => false

/-- `_start`. -/
def BootImage.start32 (B : BootImage) : List BootInstr :=
  [.cli, .mov (UInt32.ofNat B.stackTop) .esp,
    .movFromCr .cr4, .orEax 0x20, .movToCr .cr4,
    .mov (UInt32.ofNat B.pml4) .eax, .movToCr .cr3,
    .mov 0xC0000080 .ecx, .rdmsr, .orEax 0x00000100, .wrmsr,
    .movFromCr .cr0, .orEax 0x80000000, .movToCr .cr0,
    .lgdt (B.gdt64 + 24), .ljmp 0x08 (B.code 16)]

/-- `long_mode_entry`, which is instruction 16. -/
def BootImage.longModeEntry (B : BootImage) : List BootInstr :=
  [.movAx 0x10, .movSeg .ds, .movSeg .es, .movSeg .ss, .movSeg .fs, .movSeg .gs,
    .leaRsp B.stackTop, .movEdi, .call B.kernelMain]

/-! ## The processor -/

/-- The processor and memory. -/
structure BootCpu where
  eax : UInt32
  ebx : UInt32
  ecx : UInt32
  edx : UInt32
  rsp : Nat
  rdi : Nat
  rip : Nat
  /-- IF. -/
  interrupts : Bool
  control : Control
  gdtr : TableReg
  cs : Nat
  /-- The L bit of the code segment. -/
  long : Bool
  segs : DataSeg → Nat
  mem : Mem

/-- What goes wrong. -/
inductive BootFault
  /-- The next instruction is not the one that is fetched. -/
  | fetch
  /-- It is assembled for another mode. -/
  | mode
  /-- A control register or a model-specific register. -/
  | register
  | page (a : Nat)
  | segment (e : Exception)
deriving DecidableEq, Repr

namespace BootCpu

variable (c : BootCpu)

/-- Memory as the processor reads it. -/
def linear : Mem := fun a =>
  match c.control.resolve c.mem a with
  | some p => c.mem p
  | none => 0

/-- The descriptor table. -/
def tables : Tables := ⟨c.linear, c.gdtr, ⟨0, 0⟩, ⟨0, 0⟩⟩

/-- A write to a control register. -/
def writeControl (v : UInt32) : ControlReg → Option Control
  | .cr0 => c.control.writeCr0 c.long v
  | .cr3 => some (c.control.writeCr3 v.toUInt64)
  | .cr4 => c.control.writeCr4 v

/-- The control registers as 32-bit code reads them. -/
def readControl : ControlReg → UInt32
  | .cr0 => c.control.cr0
  | .cr3 => c.control.cr3.toUInt32
  | .cr4 => c.control.cr4

/-- A register loaded with a constant. -/
def setReg (v : UInt32) : BootReg → BootCpu
  | .eax => { c with eax := v }
  | .ecx => { c with ecx := v }
  | .esp => { c with rsp := v.toNat }

/-- A word of 8 bytes stored.  The bytes are in one page, or in pages that follow each other in
memory as well. -/
def store64 (a v : Nat) : Except BootFault BootCpu :=
  match c.control.resolveWrite c.mem a with
  | none => .error (.page a)
  | some p =>
    if ∀ i : Fin 8, c.control.resolveWrite c.mem (a + i) = some (p + i) then
      .ok { c with mem := c.mem.store p 8 v }
    else .error (.page a)

/-- A data segment register loaded with AX. -/
def loadSeg (s : DataSeg) : Except Exception Nat :=
  if s = .ss then c.tables.loadSs (c.cs % 4) (c.eax.toNat % 2 ^ 16)
  else c.tables.loadData (c.cs % 4) (c.eax.toNat % 2 ^ 16)

end BootCpu

/-- `EFER` as a model-specific register. -/
def eferMsr : UInt32 := 0xC0000080

/-- One instruction, with the address of the one behind it. -/
def BootInstr.exec (next : Nat) (c : BootCpu) : BootInstr → Except BootFault BootCpu
  | cli => .ok { c with interrupts := false, rip := next }
  | mov v r => .ok { c.setReg v r with rip := next }
  | movFromCr r => .ok { c with eax := c.readControl r, rip := next }
  | orEax v => .ok { c with eax := c.eax ||| v, rip := next }
  | movToCr r =>
      match c.writeControl c.eax r with
      | none => .error .register
      | some control => .ok { c with control, rip := next }
  | rdmsr =>
      if c.ecx = eferMsr then
        .ok { c with
          eax := c.control.efer.toUInt32
          edx := (c.control.efer >>> 32).toUInt32
          rip := next }
      else .error .register
  | wrmsr =>
      if c.ecx = eferMsr then
        match c.control.writeEfer ((c.edx.toUInt64 <<< 32) ||| c.eax.toUInt64) with
        | none => .error .register
        | some control => .ok { c with control, rip := next }
      else .error .register
  | lgdt a =>
      .ok { c with
        gdtr := ⟨c.linear.load (a + 2) 4, c.linear.load a 2⟩
        rip := next }
  | ljmp sel target =>
      match c.tables.far false (c.cs % 4) sel with
      | .error e => .error (.segment e)
      | .ok (cs, _) =>
        .ok { c with
          cs
          long := c.control.active && (c.tables.descriptor sel).any (·.long)
          rip := target }
  | movAx v => .ok { c with eax := (c.eax &&& 0xFFFF0000) ||| v.toUInt32, rip := next }
  | movSeg s =>
      match c.loadSeg s with
      | .error e => .error (.segment e)
      | .ok sel => .ok { c with segs := Function.update c.segs s sel, rip := next }
  | leaRsp a => .ok { c with rsp := a, rip := next }
  | movEdi => .ok { c with rdi := c.ebx.toNat, rip := next }
  | call target =>
      match c.store64 (c.rsp - 8) next with
      | .error e => .error e
      | .ok c => .ok { c with rsp := c.rsp - 8, rip := target }

/-- The instructions from number `k` on. -/
def BootImage.run (B : BootImage) : Nat → List BootInstr → BootCpu → Except BootFault BootCpu
  | _, [], c => .ok c
  | k, i :: is, c =>
      if c.rip ≠ B.code k ∨ c.control.resolve c.mem c.rip ≠ some c.rip then .error .fetch
      else if i.code64 ≠ c.long then .error .mode
      else
        match i.exec (B.code (k + 1)) c with
        | .error e => .error e
        | .ok c => B.run (k + 1) is c

/-- `boot.S`, from `_start` to the call of `kernel_main`. -/
def BootImage.boot (B : BootImage) (c : BootCpu) : Except BootFault BootCpu :=
  B.run 0 (B.start32 ++ B.longModeEntry) c

/-- What the boot loader leaves: protected mode without paging, in 32-bit code at level 0, with
the image in memory. -/
structure BootCpu.Entered (B : BootImage) (c : BootCpu) : Prop where
  rip : c.rip = B.code 0
  protection : c.control.cr0.toNat.testBit 0 = true
  paging : c.control.paging = false
  inactive : c.control.active = false
  fourLevels : c.control.fiveLevels = false
  /-- The processor does not accept NW without CD. -/
  caches : ¬ (c.control.cr0.toNat.testBit 29 = true ∧ c.control.cr0.toNat.testBit 30 = false)
  level : c.cs % 4 = 0
  code32 : c.long = false
  tables : Mem.Holds c.mem B.pml4 (bootTables B.pml4)
  gdt : Mem.Holds c.mem B.gdt64 (bootGdt B.gdt64)

end TunaOs
