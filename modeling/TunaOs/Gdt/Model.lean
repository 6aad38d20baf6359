import TunaOs.Lib.Loop
import TunaOs.Lib.Segment
import TunaOs.Pmm.EntryStack

/-!
# The descriptor tables of the kernel

The model of `gdt.c`, `gdt_flush.S`, `tss.c` and of the tables of `idt.c`, in the order in
which `kernel_main` sets them up.  The tables are static arrays; `Statics` has their
addresses.  A table is written to memory as the bytes of its packed structures, and from then
on the processor reads it there.

Every load of a segment register or of the task register is checked by the processor against
the table that has just been written, so setting the tables up may fail with an exception.
-/

namespace TunaOs

open Mem (leBytes)
open Segment (Tables TableReg Exception)

/-! ## gdt.c -/

/-- `struct gdt_descriptor`. -/
structure GdtDescriptor where
  limitLow : UInt16
  baseLow : UInt16
  baseMid : UInt8
  access : UInt8
  granularity : UInt8
  baseHigh : UInt8
deriving DecidableEq, Repr

/-- The structure in memory. -/
def GdtDescriptor.bytes (d : GdtDescriptor) : List UInt8 :=
  leBytes 2 d.limitLow.toNat ++ (leBytes 2 d.baseLow.toNat ++ (leBytes 1 d.baseMid.toNat ++
    (leBytes 1 d.access.toNat ++ (leBytes 1 d.granularity.toNat ++ leBytes 1 d.baseHigh.toNat))))

/-- The structure written byte by byte, of which the last four are zero. -/
def GdtDescriptor.ofBytes (b0 b1 b2 b3 : UInt8) : GdtDescriptor where
  limitLow := UInt16.ofNat (b0.toNat + 256 * b1.toNat)
  baseLow := UInt16.ofNat (b2.toNat + 256 * b3.toNat)
  baseMid := 0
  access := 0
  granularity := 0
  baseHigh := 0

/-- `(struct gdt_descriptor){0}`. -/
def GdtDescriptor.zero : GdtDescriptor := ⟨0, 0, 0, 0, 0, 0⟩

/-- `make_descriptor`. -/
def makeDescriptor (access flags : UInt8) : GdtDescriptor where
  limitLow := 0xFFFF
  baseLow := 0
  baseMid := 0
  access := access
  granularity := 0x0F ||| (flags &&& 0xF0)
  baseHigh := 0

/-- `gdt` as `gdt_init` fills it. -/
def gdtInit : List GdtDescriptor :=
  [.zero, makeDescriptor 0x9A 0xA0, makeDescriptor 0x92 0xC0, makeDescriptor 0xF2 0xC0,
    makeDescriptor 0xFA 0xA0, .zero, .zero]

/-- `gdt[5]` as `gdt_load_tss` fills it. -/
def tssLow (tssBase : UInt64) (tssLimit : UInt32) : GdtDescriptor where
  limitLow := (tssLimit &&& 0xFFFF).toUInt16
  baseLow := (tssBase &&& 0xFFFF).toUInt16
  baseMid := ((tssBase >>> 16) &&& 0xFF).toUInt8
  access := 0x89
  granularity := ((tssLimit >>> 16) &&& 0x0F).toUInt8
  baseHigh := ((tssBase >>> 24) &&& 0xFF).toUInt8

/-- `gdt[6]` as `gdt_load_tss` fills it. -/
def tssHigh (tssBase : UInt64) : GdtDescriptor :=
  let baseUpper : UInt32 := ((tssBase >>> 32) &&& 0xFFFFFFFF).toUInt32
  .ofBytes baseUpper.toUInt8 (baseUpper >>> 8).toUInt8 (baseUpper >>> 16).toUInt8
    (baseUpper >>> 24).toUInt8

/-- What `gdt_load_tss` does to `gdt`. -/
def gdtLoadTss (tssBase : UInt64) (tssLimit : UInt32) (gdt : List GdtDescriptor) :
    List GdtDescriptor :=
  (gdt.set 5 (tssLow tssBase tssLimit)).set 6 (tssHigh tssBase)

/-- `GDT_KERNEL_CODE`. -/
def gdtKernelCode : Nat := 0x08

/-- `GDT_TSS`. -/
def gdtTss : Nat := 0x28

/-- The selectors that `gdt_flush` loads. -/
structure Selectors where
  ds : Nat
  es : Nat
  ss : Nat
  fs : Nat
  gs : Nat
  /-- The level behind the far return to CS 0x08. -/
  level : Nat
deriving DecidableEq, Repr

/-- `gdt_flush` behind its `lgdt`.  It returns to `reload`, in the segment 0x08. -/
def gdtFlush (T : Tables) (reload : Nat) : Except Exception Selectors := do
  let ds ← T.loadData 0 0x10
  let es ← T.loadData 0 0x10
  let ss ← T.loadSs 0 0x10
  let fs ← T.loadData 0 0x10
  let gs ← T.loadData 0 0x10
  let level ← T.returnTo 0 reload 0x08 ss
  return { ds, es, ss, fs, gs, level }

/-! ## tss.c -/

/-- `struct tss` in memory. -/
def Tss.bytes (t : Tss) : List UInt8 :=
  leBytes 4 0 ++ (leBytes 8 t.rsp0 ++ (leBytes 90 0 ++ leBytes 2 t.iopbOffset))

/-! ## idt.c -/

/-- `struct idt_entry`. -/
structure IdtEntry where
  offsetLow : UInt16
  selector : UInt16
  ist : UInt8
  typeAttr : UInt8
  offsetMid : UInt16
  offsetHigh : UInt32
  zero : UInt32
deriving DecidableEq, Repr

/-- The structure in memory. -/
def IdtEntry.bytes (e : IdtEntry) : List UInt8 :=
  leBytes 2 e.offsetLow.toNat ++ (leBytes 2 e.selector.toNat ++ (leBytes 1 e.ist.toNat ++
    (leBytes 1 e.typeAttr.toNat ++ (leBytes 2 e.offsetMid.toNat ++
      (leBytes 4 e.offsetHigh.toNat ++ leBytes 4 e.zero.toNat)))))

/-- `IDT_ENTRIES`. -/
def idtEntries : Nat := 256

/-- `ISR_STUB_COUNT`. -/
def isrStubCount : Nat := 48

/-- `IDT_GATE_INTERRUPT`. -/
def idtGateInterrupt : UInt8 := 0x8E

/-- `IDT_GATE_TRAP_USER`. -/
def idtGateTrapUser : UInt8 := 0xEF

/-- The entry that `idt_set_gate` writes. -/
def gateEntry (handler : UInt64) (typeAttr : UInt8) : IdtEntry where
  offsetLow := (handler &&& 0xFFFF).toUInt16
  selector := 0x08
  ist := 0
  typeAttr := typeAttr
  offsetMid := ((handler >>> 16) &&& 0xFFFF).toUInt16
  offsetHigh := ((handler >>> 32) &&& 0xFFFFFFFF).toUInt32
  zero := 0

/-- `idt_set_gate`. -/
def idtSetGate (vector : UInt8) (handler : UInt64) (typeAttr : UInt8) (idt : Nat → IdtEntry) :
    Nat → IdtEntry :=
  Function.update idt vector.toNat (gateEntry handler typeAttr)

/-- `idt` as `idt_init` fills it.  `stub n` is the address of `isr_stub_n`. -/
def idtInit (stub : Nat → UInt64) (idt : Nat → IdtEntry) : Nat → IdtEntry :=
  let idt := Loop.forRange 0 idtEntries
    (fun i idt => Function.update idt i ⟨0, 0, 0, 0, 0, 0, 0⟩) idt
  let idt := Loop.forRange 0 isrStubCount
    (fun i => idtSetGate (UInt8.ofNat i) (stub i) idtGateInterrupt) idt
  idtSetGate 128 (stub 128) idtGateTrapUser idt

/-! ## Setting the tables up -/

/-- The addresses that the linker gives to the tables and to the code. -/
structure Statics where
  /-- `gdt`. -/
  gdt : Nat
  /-- `tss`. -/
  tss : UInt64
  /-- `idt`. -/
  idt : Nat
  /-- `isr_stub_n`. -/
  stub : Nat → UInt64
  /-- `.Lreload_cs` in `gdt_flush`. -/
  reload : Nat
  /-- They are different objects. -/
  gdt_tss : gdt + 56 ≤ tss.toNat ∨ tss.toNat + 104 ≤ gdt
  gdt_idt : gdt + 56 ≤ idt ∨ idt + 4096 ≤ gdt
  tss_idt : tss.toNat + 104 ≤ idt ∨ idt + 4096 ≤ tss.toNat
  /-- The code is in the lower half of the address space. -/
  stub_low : ∀ n, (stub n).toNat < 2 ^ 47
  reload_low : reload < 2 ^ 47

/-- `gdt` in memory. -/
def gdtBytes (gdt : List GdtDescriptor) : List UInt8 := gdt.flatMap GdtDescriptor.bytes

/-- `idt` in memory. -/
def idtBytes (idt : Nat → IdtEntry) : List UInt8 :=
  ((List.range idtEntries).map idt).flatMap IdtEntry.bytes

/-- `gdt_init` writes the table and loads it. -/
def Statics.loadGdt (S : Statics) (T : Tables) : Tables :=
  { T with mem := T.mem.put S.gdt (gdtBytes gdtInit), gdtr := ⟨S.gdt, 55⟩ }

/-- `tss_init` and the part of `gdt_load_tss` before `ltr`. -/
def Statics.writeTss (S : Statics) (tss : Tss) (T : Tables) : Tables :=
  { T with
    mem := (T.mem.put S.tss.toNat tss.bytes).put S.gdt (gdtBytes (gdtLoadTss S.tss 103 gdtInit)) }

/-- `idt_init` writes the table and loads it. -/
def Statics.loadIdt (S : Statics) (idt : Nat → IdtEntry) (T : Tables) : Tables :=
  { T with mem := T.mem.put S.idt (idtBytes (idtInit S.stub idt)), idtr := ⟨S.idt, 4095⟩ }

/-- The part of `kernel_main` that sets the tables up: `gdt_init`, `tss_init`,
`gdt_load_tss` and `idt_init`. -/
def Statics.setup (S : Statics) (tss : Tss) (idt : Nat → IdtEntry) (T : Tables) :
    Except Exception (Selectors × Tables) := do
  let T := S.loadGdt T
  let selectors ← gdtFlush T S.reload
  let T ← (S.writeTss tss T).ltr gdtTss
  return (selectors, S.loadIdt idt T)

end TunaOs
