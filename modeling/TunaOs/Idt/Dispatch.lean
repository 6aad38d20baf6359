import TunaOs.Kernel.Supply
import TunaOs.Lib.Port
import TunaOs.Serial.Fields

/-!
# Dispatching interrupts

The model of `isr_dispatch` and of `irq_register_handler`.  What `isr_dispatch` does is the
kernel behind the call, how the call ends, what it writes to the serial port itself, what the
handler of an IRQ does to the interrupt controllers, and whether the IRQ is acknowledged after
that.  The output of a system call and of a handler is not part of it.

An exception is reported in one line, and then the kernel halts, except for a breakpoint.
`readReport` reads such a line, and `isrDispatch_exception` states for every exception that
the vector, the error code and the address of the instruction are read back from what is
written, and that nothing but a breakpoint returns.
-/

namespace TunaOs

open Port (Prog)

/-! ## The model -/

/-- `IRQ_BASE`. -/
def irqBase : Nat := 32

/-- `EXCEPTION_COUNT`. -/
def exceptionCount : Nat := 32

/-- `exception_names`. -/
def exceptionNames : List String :=
  ["Divide Error", "Debug", "NMI", "Breakpoint", "Overflow", "BOUND Range Exceeded",
    "Invalid Opcode", "Device Not Available", "Double Fault", "Coprocessor Segment Overrun",
    "Invalid TSS", "Segment Not Present", "Stack-Segment Fault", "General Protection Fault",
    "Page Fault", "Reserved", "x87 Floating-Point Exception", "Alignment Check", "Machine Check",
    "SIMD Floating-Point Exception", "Virtualization Exception", "Control Protection Exception",
    "Reserved", "Reserved", "Reserved", "Reserved", "Reserved", "Reserved",
    "Hypervisor Injection Exception", "VMM Communication Exception", "Security Exception",
    "Reserved"]

/-- What `isr_dispatch` does. -/
structure Dispatched (σ : Type) where
  /-- The kernel behind the call. -/
  kernel : Kernel σ
  /-- How the call ends. -/
  outcome : Outcome
  /-- The bytes sent to the serial port, or `none` for an access outside a buffer. -/
  output : Option (List UInt8)
  /-- What the handler of an IRQ does to the interrupt controllers. -/
  controllers : Prog Unit
  /-- The argument of the `pic_eoi` that follows it. -/
  eoi : Option Nat

/-- A handler.  It gets the frame and does not change it. -/
structure IrqHandler (σ : Type) where
  /-- The kernel behind the call. -/
  kernel : InterruptFrame → Kernel σ → Kernel σ
  /-- What it does to the interrupt controllers. -/
  controllers : InterruptFrame → Kernel σ → Prog Unit

/-- `irq_handlers`. -/
abbrev IrqHandlers (σ : Type) := Nat → Option (IrqHandler σ)

/-- `irq_register_handler`. -/
def irqRegisterHandler {σ : Type} (irq : UInt8) (handler : IrqHandler σ)
    (handlers : IrqHandlers σ) : IrqHandlers σ :=
  if irq.toNat < 16 then Function.update handlers irq.toNat (some handler) else handlers

/-- The name of an exception, in parentheses. -/
def exceptionName (vector : Nat) : List UInt8 :=
  if vector < exceptionCount then
    serialWrite (text " (") ++ (serialWrite (text (exceptionNames.getD vector "")) ++
      serialWrite (text ")"))
  else []

/-- The line that reports an exception.  The numbers go through a buffer on the stack. -/
def exceptionReport (stack : Mem) (frame : InterruptFrame) : Option (List UInt8) := do
  let vector ← serialWriteDecU64 stack frame.vector
  return serialWrite (text "\n[exception] vector=") ++ (vector ++ (exceptionName frame.vector ++
    (serialWrite (text " error=") ++ (serialWriteHexU64 frame.errorCode ++
      (serialWrite (text " rip=") ++ (serialWriteHexU64 frame.rip ++ serialWrite (text "\n")))))))

/-- The bytes of the dash in a message. -/
def emDash : List UInt8 := [0xE2, 0x80, 0x94]

/-- What follows the report. -/
def exceptionVerdict (frame : InterruptFrame) : List UInt8 :=
  if frame.vector = 3 then serialWrite (text "[exception] breakpoint handled, resuming.\n")
  else if frame.vector = 13 ∧ frame.cs % 4 = 3 then
    serialWrite (text "[exception] GPF from ring 3 at rip=") ++ serialWriteHexU64 frame.rip ++
      serialWrite (text " " ++ emDash ++ text " privilege enforcement confirmed\n") ++
      serialWrite (text "[exception] halting.\n")
  else serialWrite (text "[exception] fatal exception, halting.\n")

/-- `isr_dispatch`. -/
def isrDispatch {σ : Type} [FrameSource σ] (handlers : IrqHandlers σ) (stack : Mem) (k : Kernel σ)
    (frame : InterruptFrame) (input : UInt8) : Dispatched σ :=
  if frame.vector = 128 then
    { kernel := (k.syscall frame input).1, outcome := (k.syscall frame input).2
      output := some [], controllers := .ret (), eoi := none }
  else if irqBase ≤ frame.vector ∧ frame.vector < irqBase + 16 then
    let irq := frame.vector - irqBase
    match handlers irq with
    | some handler =>
      { kernel := handler.kernel frame k, outcome := .ret frame, output := some []
        controllers := handler.controllers frame k, eoi := some irq }
    | none =>
      { kernel := k, outcome := .ret frame
        output := (serialWriteDecU64 stack irq).map fun n =>
          serialWrite (text "[irq] irq=") ++ n ++ serialWrite (text "\n")
        controllers := .ret (), eoi := some irq }
  else
    { kernel := k
      outcome := if frame.vector = 3 then .ret frame else .halt
      output := (exceptionReport stack frame).map (· ++ exceptionVerdict frame)
      controllers := .ret (), eoi := none }

/-! ## Reading reports -/

/-- A name in parentheses at the front of a text is skipped. -/
def skipName (t : List UInt8) : List UInt8 :=
  match Field.lit (text " (") t with
  | none => t
  | some t => (t.dropWhile (· ≠ 0x29)).drop 1

/-- The vector, the error code and the address of the instruction in a report. -/
def readReport (t : List UInt8) : Option (Nat × Nat × Nat) := do
  let t ← Field.lit (text "\r\n[exception] vector=") t
  let (vector, t) ← readField 10 t
  let t ← Field.lit (text " error=0x") (skipName t)
  let (error, t) ← readField 16 t
  let t ← Field.lit (text " rip=0x") t
  let (rip, _) ← readField 16 t
  return (vector, error, rip)

theorem notMem_exceptionNames : ∀ v < 32, (0x29 : UInt8) ∉ text (exceptionNames.getD v "") ∧
    newline ∉ text (exceptionNames.getD v "") := by
  decide +kernel

/-- The name of an exception is skipped. -/
theorem skipName_append (v : Nat) (t : List UInt8) :
    skipName (exceptionName v ++ (text " error=0x" ++ t)) = text " error=0x" ++ t := by
  rw [exceptionName]
  split
  case isTrue hv =>
    obtain ⟨hparen, hline⟩ := notMem_exceptionNames v hv
    have hfield : ∀ c ∈ text (exceptionNames.getD v ""), decide (c ≠ 0x29) = true := fun c hc =>
      decide_eq_true fun heq => hparen (heq ▸ hc)
    rw [serialWrite_plain (s := text " (") (by decide), serialWrite_plain hline,
      serialWrite_plain (s := text ")") (by decide), List.append_assoc, List.append_assoc, skipName,
      Field.lit_append]
    change ((text (exceptionNames.getD v "") ++ 0x29 :: (text " error=0x" ++ t)).dropWhile _).drop 1
      = _
    rw [Field.dropWhile_field hfield (by decide)]
    rfl
  case isFalse => rfl

/-- The number of a vector ends at a blank. -/
theorem exceptionName_blank (v : Nat) (t : List UInt8) :
    ∃ r, exceptionName v ++ (text " error=0x" ++ t) = 0x20 :: r := by
  rw [exceptionName]
  split
  · exact ⟨_, rfl⟩
  · exact ⟨_, rfl⟩

/-- The text of a report is read back. -/
theorem readReport_append {v e r : Nat} {dec error rip t : List UInt8} {k : Nat}
    (hdec : Prints 10 20 v dec) (herror : Prints 16 k e error) (hrip : Prints 16 k r rip) :
    readReport (text "\r\n[exception] vector=" ++ (dec ++ (exceptionName v ++
      (text " error=0x" ++ (error ++ (text " rip=0x" ++ (rip ++ carriageReturn :: t)))))))
      = some (v, e, r) := by
  have hvector : ∀ t, readField 10 (dec ++ (exceptionName v ++ (text " error=0x" ++ t)))
      = some (v, exceptionName v ++ (text " error=0x" ++ t)) := by
    intro t
    obtain ⟨r, hr⟩ := exceptionName_blank v t
    rw [hr, readField_append hdec (by decide)]
  have herror' : ∀ t, readField 16 (error ++ (text " rip=0x" ++ t))
      = some (e, text " rip=0x" ++ t) := fun t => readField_append herror (by decide)
  have hrip' : readField 16 (rip ++ carriageReturn :: t) = some (r, carriageReturn :: t) :=
    readField_append hrip (by decide)
  simp only [readReport, Field.lit_append, hvector, skipName_append, herror', hrip', bind,
    Option.bind, pure]

/-- The report of an exception, with anything behind it, is read back. -/
theorem exceptionReport_reads (stack : Mem) {frame : InterruptFrame} (hv : frame.vector < 2 ^ 64)
    (he : frame.errorCode < 2 ^ 64) (hr : frame.rip < 2 ^ 64) :
    ∃ out, exceptionReport stack frame = some out ∧
      ∀ t, readReport (out ++ t) = some (frame.vector, frame.errorCode, frame.rip) := by
  obtain ⟨error, herror, herror'⟩ := serialWriteHexU64_prints he
  obtain ⟨rip, hrip, hrip'⟩ := serialWriteHexU64_prints hr
  have hlines : serialWrite (text "\n[exception] vector=") = text "\r\n[exception] vector=" ∧
      serialWrite (text "\n") = [carriageReturn, newline] := by decide
  refine ⟨_, by rw [exceptionReport, serialWriteDecU64_eq hv]; rfl, fun t => ?_⟩
  rw [hlines.1, hlines.2, herror, hrip, serialWrite_plain (s := text " error=") (by decide),
    serialWrite_plain (s := text " rip=") (by decide)]
  simp only [List.append_assoc]
  exact readReport_append (prints_decimal hv) herror' hrip'

/-- `isr_dispatch` reports every exception, so that the vector, the error code and the address
of the instruction can be read back, and returns from a breakpoint only.  It leaves the kernel
and the interrupt controllers as they were. -/
theorem isrDispatch_exception {σ : Type} [FrameSource σ] (handlers : IrqHandlers σ) (stack : Mem)
    (k : Kernel σ) (frame : InterruptFrame) (input : UInt8) (hv : frame.vector < 32)
    (he : frame.errorCode < 2 ^ 64) (hr : frame.rip < 2 ^ 64) :
    ∃ out, isrDispatch handlers stack k frame input =
        { kernel := k, outcome := if frame.vector = 3 then .ret frame else .halt
          output := some out, controllers := .ret (), eoi := none } ∧
      readReport out = some (frame.vector, frame.errorCode, frame.rip) := by
  obtain ⟨out, hout, hreads⟩ := exceptionReport_reads stack (by omega) he hr
  refine ⟨out ++ exceptionVerdict frame, ?_, hreads _⟩
  rw [isrDispatch, if_neg (by omega), if_neg (by rw [irqBase]; omega), hout]
  rfl

/-- A write of a program to a page that is not mapped. -/
def pageFault : InterruptFrame :=
  { initialServices.savedFrame with vector := 14, errorCode := 6, rip := 0x400010, cs := 0x23 }

theorem isrDispatch_pageFault :
    ∃ out, isrDispatch (fun _ => none) (fun _ => 0) roomyBoot.boot pageFault 0 =
        { kernel := roomyBoot.boot, outcome := .halt, output := some out
          controllers := .ret (), eoi := none } ∧
      readReport out = some (14, 6, 0x400010) :=
  isrDispatch_exception (fun _ => none) (fun _ => 0) roomyBoot.boot pageFault 0 (by decide)
    (by decide) (by decide)

end TunaOs
