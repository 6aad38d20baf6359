import TunaOs.Kernel.UserReads
import TunaOs.Lib.WordStack
import TunaOs.Task.Switch

/-!
# Interrupt entry and exit

The model of `interrupts.S`: what the processor does at an interrupt, the stubs, and
`isr_common_stub` on both sides of its call of `isr_dispatch`.  The words on the
stack at that call are the 22 words of `struct interrupt_frame`, whichever shape the
stub has and whether or not the processor pushes an error code.  What
`isr_dispatch` leaves in the frame is what `iretq` and the pops load.
-/

namespace TunaOs

open Word

open WordStack (word push pushAll pushAll_append word_pushAll)

/-! ## The processor -/

/-- The registers that `struct interrupt_frame` has fields for, and memory.  Inside
the stubs, where control falls through, `rip` is not tracked. -/
structure Core extends Cpu where
  /-- The code segment. -/
  cs : UInt16
  /-- The stack segment. -/
  ss : UInt16
  /-- The flags. -/
  rflags : UInt64

/-- Memory and the stack pointer. -/
def Core.stack (c : Core) : Mem × UInt64 := (c.mem, c.regs .rsp)

/-- Another stack. -/
def Core.withStack (c : Core) (s : Mem × UInt64) : Core :=
  { c with mem := s.1, regs := Function.update c.regs .rsp s.2 }

/-- Another state of the general registers and memory. -/
def Core.withCpu (c : Core) (d : Cpu) : Core := { c with toCpu := d }

/-- The vectors for which the processor pushes an error code. -/
def pushesErrorCode (n : Nat) : Bool := n ∈ [8, 10, 11, 12, 13, 14, 17, 21, 29, 30]

/-- `SYSCALL_VECTOR`. -/
def syscallVector : Nat := 128

/-- The stack the processor switches to: that of the task state segment if it comes
from user mode, the current one otherwise.  It aligns the stack pointer to 16
bytes. -/
def Core.kernelStack (c : Core) (rsp0 : UInt64) : UInt64 :=
  let sp := if c.cs &&& 3 = 0 then c.regs .rsp else rsp0
  sp - sp % 16

/-- What the processor pushes at an interrupt. -/
def Core.pushed (c : Core) (n : Nat) (error : UInt64) : List UInt64 :=
  [c.ss.toUInt64, c.regs .rsp, c.rflags, c.cs.toUInt64, c.rip] ++
    if pushesErrorCode n then [error] else []

/-- The flags that are cleared: TF, NT and RF, and IF for an interrupt gate.  The gate
of the system calls is a trap gate. -/
def clearedFlags (n : Nat) : UInt64 := if n = syscallVector then 0x14100 else 0x14300

/-- An interrupt of vector `n`. -/
def Core.interrupt (c : Core) (rsp0 : UInt64) (n : Nat) (error : UInt64) : Core :=
  { c.withStack (pushAll (c.pushed n error) (c.mem, c.kernelStack rsp0)) with
    cs := 0x08
    ss := if c.cs &&& 3 = 0 then c.ss else 0
    rflags := c.rflags &&& ~~~ clearedFlags n }

/-! ## The stubs -/

/-- The instructions of `interrupts.S`. -/
inductive StubInstr
  /-- `pushq`, `popq` or `movq` of registers. -/
  | general (i : Instr)
  /-- `pushq $v`. -/
  | pushImm (v : UInt64)
  /-- `addq $n, %rsp`. -/
  | addRsp (n : UInt64)
  /-- `cld`. -/
  | cld
  /-- `iretq`. -/
  | iretq

/-- One instruction. -/
def StubInstr.exec : StubInstr → Core → Core
  | general i, c => c.withCpu (i.exec c.toCpu)
  | pushImm v, c => c.withStack (push c.stack v)
  | addRsp n, c => c.withCpu (c.toCpu.set .rsp (c.regs .rsp + n))
  | cld, c => { c with rflags := c.rflags &&& ~~~ 0x400 }
  | iretq, c =>
      let sp := c.regs .rsp
      { c.withStack (c.mem, c.word (sp + 24)) with
        rip := c.word sp
        cs := (c.word (sp + 8)).toUInt16
        rflags := c.word (sp + 16)
        ss := (c.word (sp + 32)).toUInt16 }

/-- A sequence of instructions. -/
def runStub (code : List StubInstr) (c : Core) : Core := code.foldl (fun c i => i.exec c) c

/-- The registers of `PUSH_GENERAL_REGS`. -/
def generalRegs : List Reg :=
  [.rax, .rbx, .rcx, .rdx, .rsi, .rdi, .rbp, .r8, .r9, .r10, .r11, .r12, .r13, .r14, .r15]

/-- The registers of `POP_GENERAL_REGS`. -/
def poppedRegs : List Reg :=
  [.r15, .r14, .r13, .r12, .r11, .r10, .r9, .r8, .rbp, .rdi, .rsi, .rdx, .rcx, .rbx, .rax]

/-- The vectors with a stub. -/
def HasStub (n : Nat) : Prop := n < 48 ∨ n = syscallVector

/-- The stub is an instance of `ISR_ERR`; the others are instances of `ISR_NOERR`. -/
def isrErr (n : Nat) : Bool := n ∈ [8, 10, 11, 12, 13, 14, 17, 21, 29, 30]

/-- `isr_stub_n`, up to its jump. -/
def isrStub (n : Nat) : List StubInstr :=
  if isrErr n then [.pushImm (.ofNat n)] else [.pushImm 0, .pushImm (.ofNat n)]

/-- `isr_common_stub` up to its call of `isr_dispatch`. -/
def isrCommonEntry : List StubInstr :=
  .cld :: (generalRegs.map (.general ∘ .pushq) ++ [.general (.movq .rsp .rdi)])

/-- `isr_common_stub` behind that call, up to `iretq`. -/
def isrCommonExit : List StubInstr := poppedRegs.map (.general ∘ .popq) ++ [.addRsp 16]

/-- The core at the call of `isr_dispatch`. -/
def Core.enter (c : Core) (rsp0 : UInt64) (n : Nat) (error : UInt64) : Core :=
  runStub (isrStub n ++ isrCommonEntry) (c.interrupt rsp0 n error)

/-- The core after `iretq`. -/
def Core.leave (d : Core) : Core := runStub (isrCommonExit ++ [.iretq]) d

/-! ## The frame -/

/-- `struct interrupt_frame` from its words in memory, the first one first. -/
def InterruptFrame.ofWords (w : Nat → UInt64) : InterruptFrame where
  r15 := (w 0).toNat
  r14 := (w 1).toNat
  r13 := (w 2).toNat
  r12 := (w 3).toNat
  r11 := (w 4).toNat
  r10 := (w 5).toNat
  r9 := (w 6).toNat
  r8 := (w 7).toNat
  rbp := (w 8).toNat
  rdi := (w 9).toNat
  rsi := (w 10).toNat
  rdx := (w 11).toNat
  rcx := (w 12).toNat
  rbx := (w 13).toNat
  rax := (w 14).toNat
  vector := (w 15).toNat
  errorCode := (w 16).toNat
  rip := (w 17).toNat
  cs := (w 18).toNat
  rflags := (w 19).toNat
  rsp := (w 20).toNat
  ss := (w 21).toNat

/-- The frame at an address. -/
def frameAt (m : Mem) (p : UInt64) : InterruptFrame :=
  .ofWords fun i => word m (p + UInt64.ofNat (8 * i))

/-- The frame whose fields are the registers of their names. -/
def Core.frame (c : Core) (vector errorCode : Nat) : InterruptFrame where
  r15 := (c.regs .r15).toNat
  r14 := (c.regs .r14).toNat
  r13 := (c.regs .r13).toNat
  r12 := (c.regs .r12).toNat
  r11 := (c.regs .r11).toNat
  r10 := (c.regs .r10).toNat
  r9 := (c.regs .r9).toNat
  r8 := (c.regs .r8).toNat
  rbp := (c.regs .rbp).toNat
  rdi := (c.regs .rdi).toNat
  rsi := (c.regs .rsi).toNat
  rdx := (c.regs .rdx).toNat
  rcx := (c.regs .rcx).toNat
  rbx := (c.regs .rbx).toNat
  rax := (c.regs .rax).toNat
  vector := vector
  errorCode := errorCode
  rip := c.rip.toNat
  cs := c.cs.toNat
  rflags := c.rflags.toNat
  rsp := (c.regs .rsp).toNat
  ss := c.ss.toNat

/-- What `iretq` makes of a frame: segment registers have 16 bits. -/
def InterruptFrame.loaded (f : InterruptFrame) (vector errorCode : Nat) : InterruptFrame :=
  { f with vector, errorCode, cs := f.cs % 2 ^ 16, ss := f.ss % 2 ^ 16 }

/-! ## Entry -/

section

variable (c : Core) (s t : Mem × UInt64) (d : Cpu)

@[simp] theorem Core.stack_withStack : (c.withStack s).stack = s := by
  simp [Core.stack, Core.withStack]

@[simp] theorem Core.withStack_withStack : (c.withStack s).withStack t = c.withStack t := by
  simp [Core.withStack]

theorem Core.withStack_stack : c.withStack c.stack = c := by
  simp [Core.stack, Core.withStack]

theorem Core.regs_withStack {r : Reg} (hr : r ≠ .rsp) : (c.withStack s).regs r = c.regs r :=
  Function.update_of_ne hr ..

theorem runStub_cons (i : StubInstr) (code : List StubInstr) :
    runStub (i :: code) c = runStub code (i.exec c) := rfl

theorem runStub_append (code code' : List StubInstr) :
    runStub (code ++ code') c = runStub code' (runStub code c) := List.foldl_append

theorem runStub_general (code : List Instr) :
    runStub (code.map .general) c = c.withCpu (TunaOs.exec code c.toCpu) := by
  induction code generalizing c with
  | nil => rfl
  | cons i code ih =>
      rw [List.map_cons, runStub_cons, ih]
      rfl

/-- Pushing registers. -/
theorem runStub_pushes : ∀ (rs : List Reg) (c : Core), Reg.rsp ∉ rs →
    runStub (rs.map (.general ∘ .pushq)) c = c.withStack (pushAll (rs.map c.regs) c.stack)
  | [], c, _ => (c.withStack_stack).symm
  | r :: rs, c, hrs => by
      obtain ⟨hr, hrs⟩ := not_or.mp fun h => hrs (List.mem_cons.mpr h)
      have hstep : StubInstr.exec ((StubInstr.general ∘ Instr.pushq) r) c
          = c.withStack (push c.stack (c.regs r)) := rfl
      have hregs : rs.map (c.withStack (push c.stack (c.regs r))).regs = rs.map c.regs :=
        List.map_congr_left fun q hq => c.regs_withStack _ fun heq => hrs (heq ▸ hq)
      rw [List.map_cons, runStub_cons, hstep, runStub_pushes rs _ hrs, hregs, Core.stack_withStack,
        Core.withStack_withStack]
      rfl

end

/-- The words that the processor and a stub push. -/
def Core.stubWords (c : Core) (n : Nat) (error : UInt64) : List UInt64 :=
  [c.ss.toUInt64, c.regs .rsp, c.rflags, c.cs.toUInt64, c.rip,
    if pushesErrorCode n then error else 0, UInt64.ofNat n]

/-- Either the processor pushes an error code or the stub pushes zero. -/
theorem runStub_isrStub (c : Core) (rsp0 : UInt64) (n : Nat) (error : UInt64) :
    runStub (isrStub n) (c.interrupt rsp0 n error) = (c.interrupt rsp0 n error).withStack
      (pushAll (c.stubWords n error) (c.mem, c.kernelStack rsp0)) := by
  have hstack : (c.interrupt rsp0 n error).stack
      = pushAll (c.pushed n error) (c.mem, c.kernelStack rsp0) := Core.stack_withStack ..
  have hkind : isrErr n = pushesErrorCode n := rfl
  have himm : ∀ v b, StubInstr.exec (.pushImm v) b = b.withStack (push b.stack v) := fun _ _ => rfl
  rw [isrStub, hkind]
  cases herr : pushesErrorCode n with
  | true =>
      rw [if_pos rfl, runStub_cons, himm, hstack, Core.pushed, herr, Core.stubWords, herr]
      rfl
  | false =>
      rw [if_neg Bool.false_ne_true, runStub_cons, runStub_cons, himm, himm, Core.stack_withStack,
        Core.withStack_withStack, hstack, Core.pushed, herr, Core.stubWords, herr]
      rfl

/-- `movq %rsp, %rdi`. -/
theorem exec_passRsp (c : Core) :
    (StubInstr.exec (.general (.movq .rsp .rdi)) c).stack = c.stack ∧
      (StubInstr.exec (.general (.movq .rsp .rdi)) c).regs .rdi = c.regs .rsp :=
  ⟨congrArg (Prod.mk c.mem) (Cpu.set_other c.toCpu _ (by decide)), Cpu.set_self c.toCpu _ _⟩

/-- `isr_common_stub` pushes the general registers and passes the stack pointer. -/
theorem runStub_commonEntry (c : Core) :
    (runStub isrCommonEntry c).stack = pushAll (generalRegs.map c.regs) c.stack ∧
      (runStub isrCommonEntry c).regs .rdi = (runStub isrCommonEntry c).regs .rsp := by
  have hpush := runStub_pushes generalRegs (StubInstr.cld.exec c) (by decide)
  rw [isrCommonEntry, runStub_cons, runStub_append, hpush, runStub_cons]
  obtain ⟨hstack, hrdi⟩ := exec_passRsp ((StubInstr.cld.exec c).withStack
    (pushAll (generalRegs.map c.regs) c.stack))
  refine ⟨hstack.trans (Core.stack_withStack ..), hrdi.trans ?_⟩
  exact (congrArg Prod.snd hstack).symm

/-- The words that are on the stack at the call of `isr_dispatch`, in the order they
are pushed. -/
def Core.words (c : Core) (n : Nat) (error : UInt64) : List UInt64 :=
  c.stubWords n error ++ generalRegs.map c.regs

/-- The state at the call of `isr_dispatch`. -/
theorem Core.enter_spec (c : Core) (rsp0 : UInt64) (n : Nat) (error : UInt64) :
    (c.enter rsp0 n error).stack = pushAll (c.words n error) (c.mem, c.kernelStack rsp0) ∧
      (c.enter rsp0 n error).regs .rdi = (c.enter rsp0 n error).regs .rsp := by
  rw [Core.enter, runStub_append, runStub_isrStub]
  obtain ⟨hstack, hrdi⟩ := runStub_commonEntry ((c.interrupt rsp0 n error).withStack
    (pushAll (c.stubWords n error) (c.mem, c.kernelStack rsp0)))
  refine ⟨?_, hrdi⟩
  have hregs : generalRegs.map ((c.interrupt rsp0 n error).withStack
      (pushAll (c.stubWords n error) (c.mem, c.kernelStack rsp0))).regs
        = generalRegs.map c.regs := by
    refine List.map_congr_left fun r hr => ?_
    have hne : r ≠ .rsp := fun heq => absurd (heq ▸ hr) (by decide)
    exact (Core.regs_withStack _ _ hne).trans (Core.regs_withStack c _ hne)
  rw [hstack, hregs, Core.stack_withStack, Core.words, pushAll_append]

theorem Core.aligned_kernelStack (c : Core) (rsp0 : UInt64) :
    (c.kernelStack rsp0).toNat % 16 = 0 := by
  rw [Core.kernelStack]
  generalize (if c.cs &&& 3 = 0 then c.regs .rsp else rsp0) = sp
  have hmod : (sp % 16).toNat = sp.toNat % 16 := UInt64.toNat_mod ..
  rw [UInt64.toNat_sub_of_le _ _ (UInt64.le_iff_toNat_le.mpr (by omega)), hmod]
  omega

theorem InterruptFrame.ofWords_congr {w w' : Nat → UInt64} (h : ∀ i < 22, w i = w' i) :
    InterruptFrame.ofWords w = InterruptFrame.ofWords w' := by
  simp only [InterruptFrame.ofWords]
  congr 2
  all_goals exact h _ (by decide)

/-- The frame that `isr_dispatch` gets. -/
theorem Core.frameAt_enter (c : Core) (rsp0 : UInt64) {n : Nat} (hn : HasStub n) (error : UInt64) :
    frameAt (c.enter rsp0 n error).mem ((c.enter rsp0 n error).regs .rsp)
      = c.frame n (if pushesErrorCode n then error.toNat else 0) := by
  have hstack := (c.enter_spec rsp0 n error).1
  have hal : WordStack.Aligned (c.kernelStack rsp0) := by
    have := c.aligned_kernelStack rsp0
    rw [WordStack.Aligned]
    omega
  have hmem : (c.enter rsp0 n error).mem = _ := congrArg Prod.fst hstack
  have hrsp : (c.enter rsp0 n error).regs .rsp = _ := congrArg Prod.snd hstack
  have hword : ∀ i < 22, word (c.enter rsp0 n error).mem
      ((c.enter rsp0 n error).regs .rsp + UInt64.ofNat (8 * i))
        = (c.words n error).reverse.getD i 0 := fun i hi => by
    have hlen : (c.words n error).length = 22 := rfl
    rw [hmem, hrsp]
    refine word_pushAll hal (hlen ▸ by decide) ?_
    rw [← List.length_reverse] at hlen
    rw [List.getD_eq_getElem?_getD, List.getElem?_eq_getElem (hlen ▸ hi)]
    rfl
  rw [frameAt, InterruptFrame.ofWords_congr hword]
  have hvector : (UInt64.ofNat n).toNat = n := by
    rw [UInt64.toNat_ofNat']
    rcases hn with hn | rfl
    · exact Nat.mod_eq_of_lt (by omega)
    · rfl
  have herror : (if pushesErrorCode n then error else 0).toNat
      = if pushesErrorCode n then error.toNat else 0 := apply_ite UInt64.toNat _ _ _
  have hcs : c.cs.toUInt64.toNat = c.cs.toNat := UInt16.toNat_toUInt64 ..
  have hss : c.ss.toUInt64.toNat = c.ss.toNat := UInt16.toNat_toUInt64 ..
  calc InterruptFrame.ofWords (fun i => (c.words n error).reverse.getD i 0)
      = { c.frame (UInt64.ofNat n).toNat (if pushesErrorCode n then error else 0).toNat with
          cs := c.cs.toUInt64.toNat, ss := c.ss.toUInt64.toNat } := rfl
    _ = c.frame n (if pushesErrorCode n then error.toNat else 0) := by
        rw [hvector, herror, hcs, hss]
        rfl

/-! ## Exit -/

/-- `isr_common_stub` behind its call pops the general registers and drops the vector
and the error code. -/
theorem runStub_commonExit (d : Core) :
    (runStub isrCommonExit d).mem = d.mem ∧
      (runStub isrCommonExit d).regs .rsp = d.regs .rsp + 136 ∧
      ∀ i r, poppedRegs[i]? = some r →
        (runStub isrCommonExit d).regs r = word d.mem (d.regs .rsp + UInt64.ofNat (8 * i)) := by
  have hcode : poppedRegs.map (StubInstr.general ∘ Instr.popq)
      = (poppedRegs.map Instr.popq).map StubInstr.general := (List.map_map ..).symm
  obtain ⟨hmem, hrsp, -, hpop⟩ := exec_pops_word poppedRegs d.toCpu (by decide) (by decide)
  have hexit : runStub isrCommonExit d = (d.withCpu (exec (poppedRegs.map .popq) d.toCpu)).withCpu
      ((exec (poppedRegs.map .popq) d.toCpu).set .rsp
        ((exec (poppedRegs.map .popq) d.toCpu).regs .rsp + 16)) := by
    rw [isrCommonExit, runStub_append, hcode, runStub_general]
    rfl
  rw [hexit]
  generalize exec (poppedRegs.map .popq) d.toCpu = e at hmem hrsp hpop
  refine ⟨hmem, ?_, fun i r hr => ?_⟩
  · change (e.set .rsp (e.regs .rsp + 16)).regs .rsp = _
    rw [Cpu.set_self, hrsp, UInt64.add_assoc]
    rfl
  · obtain ⟨hi, rfl⟩ := List.getElem?_eq_some_iff.mp hr
    have hne : poppedRegs.get ⟨i, hi⟩ ≠ .rsp := fun heq =>
      absurd (heq ▸ List.get_mem poppedRegs ⟨i, hi⟩) (by decide)
    exact (Cpu.set_other e _ hne).trans (hpop i hi)

/-- `iretq` loads the five registers that the processor pushed. -/
theorem exec_iretq (c : Core) (vector errorCode : Nat) :
    (StubInstr.iretq.exec c).frame vector errorCode =
      { c.frame vector errorCode with
        rip := (c.word (c.regs .rsp)).toNat
        cs := (c.word (c.regs .rsp + 8)).toNat % 2 ^ 16
        rflags := (c.word (c.regs .rsp + 16)).toNat
        rsp := (c.word (c.regs .rsp + 24)).toNat
        ss := (c.word (c.regs .rsp + 32)).toNat % 2 ^ 16 } := by
  have hseg : ∀ v : UInt64, v.toUInt16.toNat = v.toNat % 2 ^ 16 := UInt64.toNat_toUInt16
  rw [← hseg, ← hseg]
  rfl

/-- The registers after `iretq` are the fields of the frame. -/
theorem Core.leave_frame (d : Core) (vector errorCode : Nat) :
    d.leave.frame vector errorCode
      = (frameAt d.mem (d.regs .rsp)).loaded vector errorCode := by
  obtain ⟨hmem, hsp, hreg⟩ := runStub_commonExit d
  rw [Core.leave, runStub_append]
  change (StubInstr.iretq.exec (runStub isrCommonExit d)).frame vector errorCode = _
  generalize runStub isrCommonExit d = x at hmem hsp hreg ⊢
  -- the five words above the vector and the error code
  have hword : ∀ k, x.word (x.regs .rsp + k) = word d.mem (d.regs .rsp + (136 + k)) := fun k => by
    rw [hsp, UInt64.add_assoc, Cpu.word, hmem]
  have hrip : x.word (x.regs .rsp) = word d.mem (d.regs .rsp + 136) := by
    rw [hsp, Cpu.word, hmem]
  rw [exec_iretq, hrip, hword, hword, hword, hword, Core.frame,
    hreg 0 .r15 rfl, hreg 1 .r14 rfl, hreg 2 .r13 rfl, hreg 3 .r12 rfl, hreg 4 .r11 rfl,
    hreg 5 .r10 rfl, hreg 6 .r9 rfl, hreg 7 .r8 rfl, hreg 8 .rbp rfl, hreg 9 .rdi rfl,
    hreg 10 .rsi rfl, hreg 11 .rdx rfl, hreg 12 .rcx rfl, hreg 13 .rbx rfl, hreg 14 .rax rfl]
  rfl

/-- Entry and exit agree with the frame. -/
structure FrameAgrees (c : Core) (rsp0 : UInt64) (n : Nat) (error : UInt64) : Prop where
  /-- Every field is the register of its name, the vector or the error code. -/
  entry : frameAt (c.enter rsp0 n error).mem ((c.enter rsp0 n error).regs .rsp)
    = c.frame n (if pushesErrorCode n then error.toNat else 0)
  /-- `isr_dispatch` gets its address. -/
  argument : (c.enter rsp0 n error).regs .rdi = (c.enter rsp0 n error).regs .rsp
  /-- Every register is loaded from the field of its name, whatever `isr_dispatch` has
  done to memory and to the registers that it does not preserve. -/
  exit : ∀ d : Core, d.regs .rsp = (c.enter rsp0 n error).regs .rsp →
    ∀ vector errorCode, d.leave.frame vector errorCode
      = (frameAt d.mem (d.regs .rsp)).loaded vector errorCode
  /-- `iretq` finds the stack as the processor's five pushes left it. -/
  balanced : ∀ d : Core, d.regs .rsp = (c.enter rsp0 n error).regs .rsp →
    (runStub isrCommonExit d).regs .rsp = c.kernelStack rsp0 - 40

theorem Core.frameAgrees (c : Core) (rsp0 : UInt64) {n : Nat} (hn : HasStub n) (error : UInt64) :
    FrameAgrees c rsp0 n error := by
  obtain ⟨hstack, hrdi⟩ := c.enter_spec rsp0 n error
  refine ⟨c.frameAt_enter rsp0 hn error, hrdi, fun d _ => d.leave_frame, fun d hd => ?_⟩
  have hsp : (c.enter rsp0 n error).regs .rsp = c.kernelStack rsp0 - 176 :=
    (congrArg Prod.snd hstack).trans (WordStack.pushAll_sp ..)
  rw [(runStub_commonExit d).2.1, hd, hsp]
  refine UInt64.toNat_inj.mp ?_
  simp only [UInt64.toNat_add, UInt64.toNat_sub, show UInt64.toNat 176 = 176 from rfl,
    show UInt64.toNat 136 = 136 from rfl, show UInt64.toNat 40 = 40 from rfl]
  omega

/-! ## System calls -/

/-- The registers of `c'` are those of `c`, except that RAX is `v`. -/
structure SameExceptRax (c c' : Core) (v : Nat) : Prop where
  regs : ∀ r, r ≠ .rax → c'.regs r = c.regs r
  rip : c'.rip = c.rip
  cs : c'.cs = c.cs
  rflags : c'.rflags = c.rflags
  ss : c'.ss = c.ss
  rax : (c'.regs .rax).toNat = v

theorem sameExceptRax_of_frame {c c' : Core} {vector errorCode v : Nat}
    (h : c'.frame vector errorCode = (c.frame vector errorCode).withRax v) :
    SameExceptRax c c' v := by
  simp only [Core.frame, InterruptFrame.withRax, InterruptFrame.mk.injEq] at h
  obtain ⟨h15, h14, h13, h12, h11, h10, h9, h8, hrbp, hrdi, hrsi, hrdx, hrcx, hrbx, hrax, -, -,
    hrip, hcs, hflags, hrsp, hss⟩ := h
  refine ⟨fun r hr => UInt64.toNat_inj.mp ?_, UInt64.toNat_inj.mp hrip, UInt16.toNat_inj.mp hcs,
    UInt64.toNat_inj.mp hflags, UInt16.toNat_inj.mp hss, hrax⟩
  cases r with
  | rax => exact absurd rfl hr
  | _ => assumption

section

variable {σ : Type}

variable [FrameSource σ]

/-- A system call returns to its caller with the result in RAX and all other registers
as they were. -/
def SyscallAnswers (k : Kernel σ) (c : Core) (rsp0 : UInt64) (input : UInt8) : Prop :=
  ∃ f, (k.syscall (frameAt (c.enter rsp0 syscallVector 0).mem
      ((c.enter rsp0 syscallVector 0).regs .rsp)) input).2 = .ret f ∧
    ∀ d : Core, d.regs .rsp = (c.enter rsp0 syscallVector 0).regs .rsp →
      frameAt d.mem (d.regs .rsp) = f →
        SameExceptRax c d.leave (syscallResult (c.frame syscallVector 0) input k.mach)

/-- Handlers of the table raise an exception only for an address that they dereference. -/
theorem dispatchCall_fault (S : Services) (frame : InterruptFrame) (input : UInt8) (M : Mach σ)
    (hexec : frame.rax ≠ sysExec) (hexit : frame.rax ≠ sysExit) (hfault : M.fault = false)
    (hreads : ∀ a, frame.Dereferences a → (M.userByte a).isSome = true) :
    (dispatchCall S frame input M).2.fault = false := by
  rw [dispatchCall_machine S frame input M hexec hexit]
  split
  case isTrue hwrite =>
    simp only [loadUserBytes_snd, hfault, Bool.false_or, List.any_eq_false, List.mem_range]
    intro i hi
    have := hreads _ ⟨Or.inl hwrite, i, hi, rfl⟩
    rw [Option.isNone_eq_false_iff.mpr this]
    exact Bool.false_ne_true
  case isFalse => exact hfault

/-- A system call other than `SYS_EXEC` and `SYS_EXIT` is answered exactly if it can
read what it dereferences. -/
theorem syscallAnswers_iff_reads (k : Kernel σ) (c : Core) (rsp0 : UInt64) (input : UInt8)
    (hfault : k.mach.fault = false) (hexec : (c.regs .rax).toNat ≠ sysExec)
    (hexit : (c.regs .rax).toNat ≠ sysExit) :
    SyscallAnswers k c rsp0 input ↔
      ∀ a, (c.frame syscallVector 0).Dereferences a → (k.mach.userByte a).isSome = true := by
  have hagrees := c.frameAgrees rsp0 (n := syscallVector) (Or.inr rfl) 0
  have hentry : frameAt (c.enter rsp0 syscallVector 0).mem
      ((c.enter rsp0 syscallVector 0).regs .rsp) = c.frame syscallVector 0 := hagrees.entry
  rw [SyscallAnswers, hentry]
  constructor
  · rintro ⟨f, hret, -⟩ a ha
    by_contra hnone
    have hout := syscallDispatch_fault k.services input ha (Option.not_isSome_iff_eq_none.mp hnone)
    rw [show (syscallDispatch k.services _ input k.mach).1.2 = Outcome.ret f from hret] at hout
    cases hout
  · intro hreads
    have hresult := dispatchCall_result k.services (c.frame syscallVector 0) input k.mach
      hexec hexit
    have hok := dispatchCall_fault k.services (c.frame syscallVector 0) input k.mach
      hexec hexit hfault hreads
    refine ⟨(c.frame syscallVector 0).withRax (syscallResult (c.frame syscallVector 0) input
      k.mach), ?_, fun d hd hf => ?_⟩
    · change (syscallDispatch k.services _ input k.mach).1.2 = _
      rw [syscallDispatch_eq, hok, hresult]
      rfl
    · have hframe := hagrees.exit d hd syscallVector 0
      rw [hf] at hframe
      refine sameExceptRax_of_frame (hframe.trans ?_)
      have hcs : c.cs.toNat % 2 ^ 16 = c.cs.toNat := Nat.mod_eq_of_lt c.cs.toNat_lt
      have hss : c.ss.toNat % 2 ^ 16 = c.ss.toNat := Nat.mod_eq_of_lt c.ss.toNat_lt
      simp only [InterruptFrame.loaded, InterruptFrame.withRax, Core.frame, hcs, hss]

/-- Interrupt entry and exit agree with the frame for every vector with a stub, and a
system call other than `SYS_EXEC` and `SYS_EXIT` is answered exactly if it can read what
it dereferences. -/
theorem interruptPath_iff (c : Core) (rsp0 : UInt64) :
    (∀ n error, HasStub n → FrameAgrees c rsp0 n error) ∧
      ∀ (k : Kernel σ) (input : UInt8), k.mach.fault = false →
        (c.regs .rax).toNat ≠ sysExec → (c.regs .rax).toNat ≠ sysExit →
          (SyscallAnswers k c rsp0 input ↔ ∀ a, (c.frame syscallVector 0).Dereferences a →
            (k.mach.userByte a).isSome = true) :=
  ⟨fun _ error hn => c.frameAgrees rsp0 hn error, fun k input hfault hexec hexit =>
    syscallAnswers_iff_reads k c rsp0 input hfault hexec hexit⟩

end

/-! ## Buffers of one byte -/

/-- A program in user mode calls `sys_write` for one byte. -/
def writeCore (buf : UInt64) : Core where
  regs := fun
    | .rax => 1
    | .rdi => buf
    | .rsi => 1
    | .rsp => 0x802000
    | _ => 7
  rip := 0x400004
  mem := fun _ => 0
  cs := 0x23
  ss := 0x1b
  rflags := 0x202

theorem dereferences_writeCore {buf : UInt64} {a : Nat}
    (ha : ((writeCore buf).frame syscallVector 0).Dereferences a) : a = buf.toNat := by
  obtain ⟨-, i, hi, rfl⟩ := ha
  obtain rfl : i = 0 := Nat.lt_one_iff.mp hi
  exact wrap64_of_lt buf.toNat_lt

/-- A program prints the first byte of its code. -/
theorem interruptPath_running :
    ∃ k, roomyBoot.Reaches anyStep k ∧ FrameAgrees (writeCore 0x400000) 0x110000 syscallVector 0 ∧
      SyscallAnswers k (writeCore 0x400000) 0x110000 0 := by
  obtain ⟨k, hk, -, -, ⟨t, ht, -⟩, hfault, -⟩ := exists_running
  have hpath := interruptPath_iff (σ := Pmm) (writeCore 0x400000) 0x110000
  refine ⟨k, hk, hpath.1 syscallVector 0 (Or.inr rfl),
    (hpath.2 k 0 hfault (by decide) (by decide)).mpr fun a ha => ?_⟩
  rw [dereferences_writeCore ha, show UInt64.toNat 0x400000 = 0x400000 from rfl, Mach.userByte,
    if_pos (by decide), ht]
  rfl

/-- A program passes an address that is not canonical. -/
theorem syscall_not_answered :
    ∃ k, roomyBoot.Reaches anyStep k ∧ k.mach.fault = false ∧
      ¬ SyscallAnswers k (writeCore 0x800000000000) 0x110000 0 := by
  obtain ⟨k, hk, -, -, -, hfault, -⟩ := exists_running
  refine ⟨k, hk, hfault, fun hanswers => ?_⟩
  have hreads := (syscallAnswers_iff_reads k (writeCore 0x800000000000) 0x110000 0 hfault
    (by decide) (by decide)).mp hanswers 0x800000000000 (by decide)
  have hnone : k.mach.userByte 0x800000000000 = none := if_neg (by decide)
  rw [hnone] at hreads
  cases hreads

end TunaOs
