import TunaOs.Idt.Protection
import TunaOs.Kernel.Guarded
import TunaOs.Kernel.Sessions

/-!
# Programs stay in ring 3

The machine as a whole, from the `iretq` of `usermode_exec_elf` on: a program runs, until an
instruction of its own, an exception or a device interrupts it.  The processor passes a gate,
the stub builds a frame, `isr_dispatch` works on it, and `iretq` goes back with what it leaves,
if the processor accepts that.

The processor lets a program change registers, memory that it may write, and segments as far
as the checks of `Lib/Segment` go.  IF and IOPL it keeps by its own rules: IOPL changes at
level 0 only, and IF at a level that IOPL allows.

The tables and the entry stack are where the kernel's page tables have them at that time.  If the
stack cannot be written at an interrupt, the processor shuts down, and if what the kernel does
there changes the stack under it, anything may come back.

`MachineStep.inv` states that each of these steps keeps a program confined (`Core.Confined`), a
frame that waits in `saved_frame` as well, and the kernel's own memory (`Kernel.Guarded`).
`programs_confined` is what follows for a whole run, if the memory map keeps the entry stack out
and programs have no page of the kernel.
-/

namespace TunaOs

open FrameSource (avail)
open Run (Reachable)
open Segment (Tables Exception Source)

/-! ## The machine -/

/-- What the machine is doing. -/
inductive Machine (σ : Type)
  /-- A program runs. -/
  | user (k : Kernel σ) (c : Core)
  /-- The kernel has halted. -/
  | halted
  /-- The processor has shut down, or the kernel goes on behind an exception of its own. -/
  | lost

/-- What interrupts a program. -/
inductive Event
  /-- `int n`. -/
  | instr (n : UInt8)
  /-- An exception, with its error code. -/
  | exception (n : Fin 32) (error : UInt64)
  /-- A device, through the interrupt controllers. -/
  | irq (line : Fin 16)

def Event.vector : Event → Nat
  | instr n => n.toNat
  | exception n _ => n
  | irq line => irqBase + line

def Event.source : Event → Source
  | instr _ => .software
  | exception _ _ => .external
  | irq _ => .external

def Event.error : Event → UInt64
  | instr _ => 0
  | exception _ error => error
  | irq _ => 0

/-- The field IOPL of the flags. -/
def Core.iopl (c : Core) : Nat := (c.rflags &&& 0x3000).toNat / 2 ^ 12

/-- IF is set. -/
def Core.interruptible (c : Core) : Prop := c.rflags &&& 0x200 = 0x200

/-- Devices interrupt only if IF is set. -/
def Event.Possible (c : Core) : Event → Prop
  | instr _ => True
  | exception _ _ => True
  | irq _ => c.interruptible

/-- The processor's own rules for IF and IOPL: an instruction at level `c.level` changes IOPL
at level 0 only, and IF only if IOPL allows it. -/
structure KeepsFlags (c c' : Core) : Prop where
  iopl : c.level ≠ 0 → c'.rflags &&& 0x3000 = c.rflags &&& 0x3000
  interrupts : c.iopl < c.level → c'.rflags &&& 0x200 = c.rflags &&& 0x200

/-- `iretq` with the tables: what it pops is checked first. -/
def Core.resume (T : Tables) (x : Core) : Except Exception Core :=
  let y := runStub isrCommonExit x
  (T.returnTo y.level (y.word (y.regs .rsp)).toNat ((y.word (y.regs .rsp + 8)).toNat % 2 ^ 16)
    ((y.word (y.regs .rsp + 32)).toNat % 2 ^ 16)).map fun _ => x.leave

section

variable {σ : Type} [FrameSource σ]

/-- `isr_dispatch` at the end of the stub of vector `v`. -/
def Core.dispatch (handlers : IrqHandlers σ) (stack : Mem) (k : Kernel σ) (input : UInt8)
    (d : Core) (v : Nat) : Dispatched σ :=
  isrDispatch handlers stack k (frameAt (d.toDispatch v).mem ((d.toDispatch v).regs .rsp)) input

/-- An exception in the kernel. -/
def Core.faulted (T : Tables) (handlers : IrqHandlers σ) (stack : Mem) (k : Kernel σ)
    (input : UInt8) (x : Core) (e : Exception) : Machine σ :=
  match x.raise T e.vector .external (UInt64.ofNat e.error) with
  | none => .lost
  | some (v, d) =>
    if (d.dispatch handlers stack k input v).outcome.resumed.isSome then .lost else .halted

/-- Behind `isr_dispatch`: the registers that it does not preserve are any, and the frame on
the stack is `f`. -/
structure Returned (d : Core) (v : Nat) (f : InterruptFrame) (x : Core) : Prop where
  rsp : x.regs .rsp = (d.toDispatch v).regs .rsp
  cs : x.cs = (d.toDispatch v).cs
  frame : frameAt x.mem (x.regs .rsp) = f

/-- A byte of the entry stack: the 16 KiB below the stack pointer that the processor loads. -/
def Kernel.EntryStack (k : Kernel σ) (T : Tables) (a : Nat) : Prop :=
  ∃ top, (k.tables T).stackFor 0 0 = .ok top ∧ top - 0x4000 ≤ a ∧ a < top

/-- It can be written. -/
def Kernel.StackMapped (k : Kernel σ) (T : Tables) : Prop :=
  ∀ a, k.EntryStack T a → ∃ t, k.mach.translate a = some t ∧ t.write = true

/-- Nothing but the code that runs on it changes it. -/
def Kernel.StackKept (k : Kernel σ) (T : Tables) (k' : Kernel σ) : Prop :=
  ∀ a, k.EntryStack T a →
    k'.mach.translate a = k.mach.translate a ∧ k'.mach.space a = k.mach.space a

/-- One step of the machine. -/
inductive MachineStep (T : Tables) (handlers : IrqHandlers σ) : Machine σ → Machine σ → Prop
  /-- An instruction that changes neither CS nor SS. -/
  | runs {k : Kernel σ} {c c' : Core} {m : Mem} : c'.cs = c.cs → c'.ss = c.ss →
      KeepsFlags c c' → UserWrites k.mach m →
      MachineStep T handlers (.user k c) (.user (k.withMach (k.mach.withMem m)) c')
  /-- A far jump or call. -/
  | far {k : Kernel σ} {c c' : Core} {call : Bool} {sel cs level : Nat} :
      (k.tables T).far call c.level sel = .ok (cs, level) → c'.cs = UInt16.ofNat cs →
      c'.ss = c.ss → KeepsFlags c c' → MachineStep T handlers (.user k c) (.user k c')
  /-- A far return or `iretq` of the program.  It may load SS. -/
  | returns {k : Kernel σ} {c c' : Core} {rip cs ss level : Nat} :
      (k.tables T).returnTo c.level rip cs ss = .ok level → c'.cs = UInt16.ofNat cs →
      c'.ss = c.ss ∨ (∃ s, (k.tables T).loadSs level ss = .ok s ∧ c'.ss = UInt16.ofNat s) →
      KeepsFlags c c' → MachineStep T handlers (.user k c) (.user k c')
  /-- A load of SS. -/
  | loadsSs {k : Kernel σ} {c c' : Core} {sel ss : Nat} :
      (k.tables T).loadSs c.level sel = .ok ss →
      c'.cs = c.cs → c'.ss = UInt16.ofNat ss → KeepsFlags c c' →
      MachineStep T handlers (.user k c) (.user k c')
  /-- An interrupt that goes back to a program. -/
  | resumes {k k' : Kernel σ} {c d x c' : Core} {e : Event} {v : Nat} {stack : Mem}
      {input : UInt8} {f : InterruptFrame} : e.Possible c → k.StackMapped T →
      c.raise (k.tables T) e.vector e.source e.error = some (v, d) →
      (d.dispatch handlers stack k input v).kernel = k' →
      (d.dispatch handlers stack k input v).outcome.resumed = some f → k.StackKept T k' →
      Returned d v f x → x.resume (k'.tables T) = .ok c' →
      MachineStep T handlers (.user k c) (.user k' c')
  /-- One whose `iretq` is refused. -/
  | refused {k k' : Kernel σ} {c d x : Core} {e : Event} {v : Nat} {stack stack' : Mem}
      {input input' : UInt8} {f : InterruptFrame} {err : Exception} : e.Possible c →
      k.StackMapped T → c.raise (k.tables T) e.vector e.source e.error = some (v, d) →
      (d.dispatch handlers stack k input v).kernel = k' →
      (d.dispatch handlers stack k input v).outcome.resumed = some f → k.StackKept T k' →
      Returned d v f x → x.resume (k'.tables T) = .error err →
      MachineStep T handlers (.user k c) (x.faulted (k'.tables T) handlers stack' k' input' err)
  /-- One at which the kernel halts. -/
  | halts {k : Kernel σ} {c d : Core} {e : Event} {v : Nat} {stack : Mem} {input : UInt8} :
      e.Possible c → k.StackMapped T →
      c.raise (k.tables T) e.vector e.source e.error = some (v, d) →
      (d.dispatch handlers stack k input v).outcome.resumed = none →
      MachineStep T handlers (.user k c) .halted
  /-- One that no gate takes, or that finds no stack. -/
  | shutsDown {k : Kernel σ} {c : Core} {e : Event} : e.Possible c →
      ¬ k.StackMapped T ∨ c.raise (k.tables T) e.vector e.source e.error = none →
      MachineStep T handlers (.user k c) .lost
  /-- One at which the kernel changes its own stack from elsewhere: anything may follow. -/
  | tramples {k k' : Kernel σ} {c d : Core} {e : Event} {v : Nat} {stack : Mem} {input : UInt8}
      {s : Machine σ} : e.Possible c →
      c.raise (k.tables T) e.vector e.source e.error = some (v, d) →
      (d.dispatch handlers stack k input v).kernel = k' → ¬ k.StackKept T k' →
      MachineStep T handlers (.user k c) s

end

/-- The first program, behind the `iretq` of `usermode_exec_elf`.  Boot has found its frames, the
heap is below the stacks, and neither this program nor one that system calls can load has a page
of the kernel. -/
def Machine.Start (env : BootEnv) (T : Tables) : Machine Pmm → Prop
  | .user k c => ∃ (k₀ : Kernel Pmm) (img : Image) (fr : IretFrame),
      env.boot.mach.oom = false ∧ env.Reaches PrepareStep k₀ ∧
        k₀.heap.heapEnd ≤ userStackVaddr ∧
        (∀ img, k₀.services.Has img → img.ClearOf k₀) ∧ img.ClearOf k₀ ∧
        (usermodeExecElf img k₀.mach).1 = some fr ∧
        k = k₀.withMach (usermodeExecElf img k₀.mach).2 ∧
        (k.tables T).returnTo 0 fr.rip fr.cs fr.ss = .ok 3 ∧ c.rip = UInt64.ofNat fr.rip ∧
        c.cs = UInt16.ofNat fr.cs ∧ c.rflags = UInt64.ofNat fr.rflags ∧
        c.regs .rsp = UInt64.ofNat fr.rsp ∧ c.ss = UInt16.ofNat fr.ss
  | .halted => False
  | .lost => False

/-! ## The invariant -/

/-- A program in ring 3: its segments are its own, devices can interrupt it, and IOPL is 0. -/
structure Core.Confined (c : Core) : Prop where
  cs : c.cs = 0x23
  ss : c.ss = 0x1B
  flags : c.rflags &&& 0x3200 = 0x200

/-- The frame of such a program. -/
structure InterruptFrame.Confined (f : InterruptFrame) : Prop where
  ring3 : f.Ring3
  flags : f.rflags &&& 0x3200 = 0x200

/-- The frame that waits belongs to such a program. -/
def Services.Confined (S : Services) : Prop := S.childRunning = true → S.savedFrame.Confined

/-- Programs are confined, the kernel keeps its memory, and nothing else happens but a halt of the
kernel. -/
def Machine.Confined {σ : Type} [FrameSource σ] (A : Nat → Prop) (img : KernelImage) (m : Mem) :
    Machine σ → Prop
  | .user k c => c.Confined ∧ k.services.Confined ∧ k.Guarded A img m
  | .halted => True
  | .lost => False

theorem InterruptFrame.Confined.withRax {f : InterruptFrame} (h : f.Confined) (v : Nat) :
    (f.withRax v).Confined := ⟨h.ring3, h.flags⟩

theorem InterruptFrame.confined_enterChild (f : InterruptFrame) (entry : Nat) :
    (f.enterChild entry).Confined :=
  ⟨⟨rfl, rfl⟩, show 0x202 &&& 0x3200 = 0x200 by decide⟩

/-- Entry. -/
theorem Core.Confined.frame {c : Core} (h : c.Confined) (vector errorCode : Nat) :
    (c.frame vector errorCode).Confined := by
  refine ⟨⟨?_, ?_⟩, ?_⟩
  · exact congrArg UInt16.toNat h.cs
  · exact congrArg UInt16.toNat h.ss
  · exact (UInt64.toNat_and ..).symm.trans (congrArg UInt64.toNat h.flags)

/-- Exit. -/
theorem Core.confined_of_frame {c : Core} (vector errorCode : Nat)
    (h : (c.frame vector errorCode).Confined) : c.Confined := by
  refine ⟨UInt16.toNat_inj.mp h.ring3.1, UInt16.toNat_inj.mp h.ring3.2, UInt64.toNat_inj.mp ?_⟩
  exact (UInt64.toNat_and ..).trans h.flags

theorem Core.Confined.level {c : Core} (h : c.Confined) : c.level = 3 := by
  rw [Core.level, h.cs]
  rfl

theorem Core.Confined.iopl {c : Core} (h : c.Confined) : c.iopl = 0 := by
  have hmask : c.rflags &&& 0x3000 = (c.rflags &&& 0x3200) &&& 0x3000 := by
    rw [UInt64.and_assoc]
    rfl
  rw [Core.iopl, hmask, h.flags]
  rfl

/-- The processor's rules keep IF and IOPL. -/
theorem Core.Confined.keeps {c c' : Core} (h : c.Confined) (hkeeps : KeepsFlags c c')
    (hcs : c'.cs = 0x23) (hss : c'.ss = 0x1B) : c'.Confined := by
  have hlevel := h.level
  have hiopl := hkeeps.iopl (by omega)
  have hif := hkeeps.interrupts (by rw [h.iopl]; omega)
  have hparts : ∀ r : UInt64, r &&& 0x3200 = (r &&& 0x3000) ||| (r &&& 0x200) := by
    intro r
    refine UInt64.toNat_inj.mp ?_
    rw [UInt64.toNat_or, UInt64.toNat_and, UInt64.toNat_and, UInt64.toNat_and]
    exact Nat.and_or_distrib_left _ 0x3000 0x200
  refine ⟨hcs, hss, ?_⟩
  rw [hparts, hiopl, hif, ← hparts, h.flags]

section

variable {σ : Type} [FrameSource σ]

/-- A system call. -/
theorem Kernel.syscall_confined {k : Kernel σ} {frame f : InterruptFrame} {input : UInt8}
    (hframe : frame.Confined) (hsaved : k.services.Confined)
    (h : (k.syscall frame input).2.resumed = some f) :
    f.Confined ∧ (k.syscall frame input).1.services.Confined := by
  change (syscallDispatch k.services frame input k.mach).1.2.resumed = some f at h
  change f.Confined ∧ (syscallDispatch k.services frame input k.mach).1.1.Confined
  cases hcall : syscallDispatch k.services frame input k.mach with
  | mk r M =>
      obtain ⟨S, o⟩ := r
      rw [hcall] at h
      have ho : o ≠ .fault := by
        rintro rfl
        cases h
      cases syscallDispatch_run hcall ho with
      | exec hrax hexec =>
          cases hexec with
          | notFound =>
              obtain rfl := Option.some.inj h
              exact ⟨hframe.withRax _, hsaved⟩
          | rejected =>
              obtain rfl := Option.some.inj h
              exact ⟨hframe.withRax _, hsaved⟩
          | noStack =>
              obtain rfl := Option.some.inj h
              exact ⟨hframe.withRax _, hsaved⟩
          | started =>
              obtain rfl := Option.some.inj h
              exact ⟨frame.confined_enterChild _, fun _ => hframe⟩
      | halt => cases h
      | exit _ hchild =>
          obtain rfl := Option.some.inj h
          exact ⟨(hsaved hchild).withRax 0, fun hno => absurd hno Bool.false_ne_true⟩
      | handler =>
          obtain rfl := Option.some.inj h
          exact ⟨hframe.withRax _, hsaved⟩

/-- Handlers of devices leave the state of the system calls, the machine and the size of the heap
alone. -/
def IrqHandlers.KeepKernel (handlers : IrqHandlers σ) : Prop :=
  ∀ irq h, handlers irq = some h → ∀ f k, (h.kernel f k).services = k.services ∧
    (h.kernel f k).mach = k.mach ∧ (h.kernel f k).heap.heapEnd = k.heap.heapEnd

/-- `isr_dispatch`. -/
theorem isrDispatch_confined {handlers : IrqHandlers σ} (hkeep : handlers.KeepKernel)
    {stack : Mem} {k : Kernel σ} {frame f : InterruptFrame} {input : UInt8}
    (hframe : frame.Confined) (hsaved : k.services.Confined)
    (h : (isrDispatch handlers stack k frame input).outcome.resumed = some f) :
    f.Confined ∧ (isrDispatch handlers stack k frame input).kernel.services.Confined := by
  rw [isrDispatch] at h ⊢
  split at h
  case isTrue hsys =>
    rw [if_pos hsys]
    exact Kernel.syscall_confined hframe hsaved h
  case isFalse hsys =>
    rw [if_neg hsys]
    split at h
    case isTrue hirq =>
      rw [if_pos hirq]
      dsimp only at h ⊢
      cases hhandler : handlers (frame.vector - irqBase) with
      | none =>
          rw [hhandler] at h
          obtain rfl := Option.some.inj h
          exact ⟨hframe, hsaved⟩
      | some handler =>
          rw [hhandler] at h
          obtain rfl := Option.some.inj h
          refine ⟨hframe, ?_⟩
          rw [(hkeep _ _ hhandler frame k).1]
          exact hsaved
    case isFalse hirq =>
      rw [if_neg hirq]
      dsimp only at h ⊢
      split at h
      case isTrue =>
        obtain rfl := Option.some.inj h
        exact ⟨hframe, hsaved⟩
      case isFalse => cases h

/-- Whatever it is called for, the kernel keeps its memory. -/
theorem isrDispatch_guarded {A : Nat → Prop} {img : KernelImage} {m : Mem}
    (hA : ∀ a, KernelMem img a → ¬ A (frameOf a)) (hlow : kernelStackTop img ≤ kheapStart)
    {handlers : IrqHandlers σ} (hkeep : handlers.KeepKernel) {k : Kernel σ}
    (h : k.Guarded A img m) (stack : Mem) (frame : InterruptFrame) (input : UInt8) :
    (isrDispatch handlers stack k frame input).kernel.Guarded A img m := by
  rw [isrDispatch]
  split
  case isTrue => exact h.syscall hA hlow frame input
  case isFalse =>
    split
    case isTrue =>
      dsimp only
      cases hhandler : handlers (frame.vector - irqBase) with
      | none => exact h
      | some handler =>
          obtain ⟨hservices, hmach, hend⟩ := hkeep _ _ hhandler frame k
          exact h.congr hA hlow ⟨hend, by rw [hservices], by rw [hservices]⟩ hmach
    case isFalse => exact h

end

/-! ## Entry and exit -/

theorem StubInstr.exec_cs {i : StubInstr} (hi : i ≠ .iretq) (c : Core) : (i.exec c).cs = c.cs := by
  cases i with
  | iretq => exact absurd rfl hi
  | _ => rfl

/-- Only `iretq` changes CS. -/
theorem runStub_cs : ∀ (code : List StubInstr) (c : Core), .iretq ∉ code →
    (runStub code c).cs = c.cs
  | [], _, _ => rfl
  | i :: code, c, h => by
      obtain ⟨hi, hcode⟩ := not_or.mp fun hor => h (List.mem_cons.mpr hor)
      rw [runStub_cons, runStub_cs code _ hcode, StubInstr.exec_cs (Ne.symm hi)]

theorem iretq_notMem_entry (n : Nat) : StubInstr.iretq ∉ isrStub n ++ isrCommonEntry := by
  rw [isrStub]
  split <;> simp [isrCommonEntry, generalRegs]

theorem iretq_notMem_exit : StubInstr.iretq ∉ isrCommonExit := by
  simp [isrCommonExit, poppedRegs]

/-- `isr_dispatch` is called in the code segment of the kernel. -/
theorem Core.cs_toDispatch (c : Core) (S : Statics) (tss : Tss) (n : Nat) (error : UInt64) :
    ((c.atStub S tss n error).toDispatch n).cs = 0x08 :=
  runStub_cs _ _ (iretq_notMem_entry n)

/-- `iretq` takes what it checks from the frame. -/
theorem Core.resume_eq (T : Tables) (x : Core) : x.resume T =
    (T.returnTo x.level (frameAt x.mem (x.regs .rsp)).rip
      ((frameAt x.mem (x.regs .rsp)).cs % 2 ^ 16)
      ((frameAt x.mem (x.regs .rsp)).ss % 2 ^ 16)).map fun _ => x.leave := by
  obtain ⟨hmem, hsp, -⟩ := runStub_commonExit x
  have hlevel : (runStub isrCommonExit x).level = x.level := by
    rw [Core.level, runStub_cs _ _ iretq_notMem_exit]
    rfl
  rw [Core.resume]
  generalize runStub isrCommonExit x = y at hmem hsp hlevel ⊢
  have hword : ∀ a, y.word (y.regs .rsp + a) = WordStack.word x.mem (x.regs .rsp + (136 + a)) := by
    intro a
    rw [hsp, UInt64.add_assoc, Cpu.word, hmem]
  have hrip : y.word (y.regs .rsp) = WordStack.word x.mem (x.regs .rsp + 136) := by
    rw [hsp, Cpu.word, hmem]
  simp only [hword, hrip, hlevel]
  rfl

section

variable {σ : Type} [FrameSource σ] {S : Statics} {tss : Tss} {T : Tables}

theorem Event.vector_lt (e : Event) : e.vector < 256 := by
  cases e with
  | instr n => exact n.toNat_lt
  | exception n _ => exact Nat.lt_trans n.isLt (by decide)
  | irq line =>
      have := line.isLt
      simp only [Event.vector, irqBase]
      omega

/-- Whatever interrupts a program leads to a stub. -/
theorem Core.Confined.raise (h : Installed S tss T) (hrsp0 : tss.rsp0 < 2 ^ 47) {c : Core}
    (hc : c.Confined) (e : Event) : ∃ v error, HasStub v ∧
      c.raise T e.vector e.source e.error = some (v, c.atStub S tss v error) :=
  ⟨_, _, c.hasStub_target _ _ _,
    h.raise hrsp0 (Or.inr hc.cs) e.vector_lt (Or.inr (Or.inl hc.cs)) e.error⟩

/-- `iretq` with the frame of a program goes on with the program, or is refused because of
the address. -/
theorem Installed.resume (h : Installed S tss T) {x : Core} (hcs : x.cs = 0x08)
    {f : InterruptFrame} (hframe : frameAt x.mem (x.regs .rsp) = f) (hf : f.Confined) :
    x.resume T = if Word.canonical f.rip then .ok x.leave else .error (.gp 0) := by
  have hlevel : x.level = 0 := by
    rw [Core.level, hcs]
    rfl
  have hret := h.returnTo f.rip
  have hsegs : f.cs % 2 ^ 16 = gdtUserCodeRpl3 ∧ f.ss % 2 ^ 16 = gdtUserDataRpl3 := by
    rw [hf.ring3.1, hf.ring3.2]
    exact ⟨rfl, rfl⟩
  rw [Core.resume_eq, hframe, hlevel, hsegs.1, hsegs.2, hret]
  split
  · rfl
  · rfl

/-- Behind it the program is confined. -/
theorem Core.confined_leave {x : Core} {f : InterruptFrame}
    (hframe : frameAt x.mem (x.regs .rsp) = f) (hf : f.Confined) : x.leave.Confined := by
  refine Core.confined_of_frame 0 0 ?_
  rw [x.leave_frame, hframe]
  refine ⟨⟨?_, ?_⟩, hf.flags⟩
  · exact congrArg (· % 2 ^ 16) hf.ring3.1
  · exact congrArg (· % 2 ^ 16) hf.ring3.2

/-- The kernel halts at an exception of its own. -/
theorem Installed.faulted (h : Installed S tss T) (hrsp0 : tss.rsp0 < 2 ^ 47) {x : Core}
    (hcs : x.cs = 0x08) (handlers : IrqHandlers σ) (stack : Mem) (k : Kernel σ) (input : UInt8) :
    x.faulted T handlers stack k input (.gp 0) = .halted := by
  have hpass : Passes x.level 13 .external := Or.inr ⟨by decide, Or.inl rfl⟩
  have hraise : x.raise T 13 .external (UInt64.ofNat 0) = some (13, x.atStub S tss 13 0) := by
    rw [h.raise hrsp0 (Or.inl hcs) (by decide) (Or.inl rfl), Core.target, if_pos hpass]
    rfl
  rw [Core.faulted, Exception.vector, Exception.error, hraise]
  dsimp only
  rw [Core.dispatch, x.frameAt_toDispatch S tss (Or.inl (by decide))]
  rfl

/-! ## Runs -/

/-- What `isr_dispatch` gets at an interrupt of a program, and what it leaves. -/
theorem Core.Confined.dispatch {handlers : IrqHandlers σ} (hkeep : handlers.KeepKernel)
    {c : Core} (hc : c.Confined) {k : Kernel σ} (hk : k.services.Confined) {v : Nat}
    (hv : HasStub v) {error : UInt64} {stack : Mem} {input : UInt8} {f : InterruptFrame}
    (h : ((c.atStub S tss v error).dispatch handlers stack k input v).outcome.resumed = some f) :
    f.Confined ∧
      ((c.atStub S tss v error).dispatch handlers stack k input v).kernel.services.Confined := by
  rw [Core.dispatch, c.frameAt_toDispatch S tss hv] at h ⊢
  exact isrDispatch_confined hkeep (hc.frame ..) hk h

section

variable {A : Nat → Prop} {img : KernelImage} (hA : ∀ a, KernelMem img a → ¬ A (frameOf a))
  (hlow : kernelStackTop img ≤ kheapStart) (hinst : Installed S (kernelTss img) T)
  (hinside : S.Inside img)

include hinst hinside hlow

/-- The entry stack is the kernel's own, and it can be written. -/
theorem Kernel.Guarded.entryStack {k : Kernel σ} (hk : k.Guarded A img T.mem) {a : Nat}
    (ha : k.EntryStack T a) : k.mach.translate a = some ⟨frameOf a, true, false⟩ ∧
      k.mach.space a = T.mem a := by
  obtain ⟨top, htop, h1, h2⟩ := ha
  have hrsp0 : (kernelTss img).rsp0 = kernelStackTop img := rfl
  simp only [kheapStart] at hlow
  rw [(hk.guards.installed hinst hinside).stackFor (by omega)] at htop
  obtain rfl := Except.ok.inj htop
  rw [hrsp0] at h1 h2
  have hmem := hinside.entryStack h1 h2
  exact ⟨hk.guards.translate hmem (by omega), hk.guards.space hmem (by omega)⟩

theorem Kernel.Guarded.stackMapped {k : Kernel σ} (hk : k.Guarded A img T.mem) :
    k.StackMapped T := fun _ ha => ⟨_, (hk.entryStack hlow hinst hinside ha).1, rfl⟩

theorem Kernel.Guarded.stackKept {k k' : Kernel σ} (hk : k.Guarded A img T.mem)
    (hk' : k'.Guarded A img T.mem) : k.StackKept T k' := by
  intro a ha
  have hsame : k'.EntryStack T a := by
    obtain ⟨top, htop, h1, h2⟩ := ha
    have hrsp0 : (kernelTss img).rsp0 < 2 ^ 47 := Nat.lt_of_le_of_lt hlow (by decide)
    rw [(hk.guards.installed hinst hinside).stackFor hrsp0] at htop
    exact ⟨top, ((hk'.guards.installed hinst hinside).stackFor hrsp0).trans htop, h1, h2⟩
  obtain ⟨htrans, hspace⟩ := hk.entryStack hlow hinst hinside ha
  obtain ⟨htrans', hspace'⟩ := hk'.entryStack hlow hinst hinside hsame
  exact ⟨htrans'.trans htrans.symm, hspace'.trans hspace.symm⟩

/-- Whatever interrupts a program leads to a stub, with the tables of the moment. -/
theorem Machine.Confined.raised {k : Kernel σ} {c d : Core} {e : Event} {v : Nat}
    (hs : Machine.Confined A img T.mem (.user k c))
    (hraise : c.raise (k.tables T) e.vector e.source e.error = some (v, d)) :
    HasStub v ∧ ∃ error, d = c.atStub S (kernelTss img) v error := by
  have hrsp0 : (kernelTss img).rsp0 < 2 ^ 47 := Nat.lt_of_le_of_lt hlow (by decide)
  obtain ⟨v', error, hv, heq⟩ := hs.1.raise (hs.2.2.guards.installed hinst hinside) hrsp0 e
  obtain ⟨rfl, rfl⟩ := Prod.mk.inj (Option.some.inj (hraise.symm.trans heq))
  exact ⟨hv, error, rfl⟩

include hA

/-- Behind `isr_dispatch`, when it goes back to a program: the frame is that of a program, and
the kernel has kept its memory. -/
theorem Machine.Confined.returned {handlers : IrqHandlers σ} (hkeep : handlers.KeepKernel)
    {k k' : Kernel σ} {c d x : Core} {e : Event} {v : Nat} {stack : Mem} {input : UInt8}
    {f : InterruptFrame} (hs : Machine.Confined A img T.mem (.user k c))
    (hraise : c.raise (k.tables T) e.vector e.source e.error = some (v, d))
    (hk' : (d.dispatch handlers stack k input v).kernel = k')
    (hout : (d.dispatch handlers stack k input v).outcome.resumed = some f)
    (hx : Returned d v f x) :
    x.cs = 0x08 ∧ f.Confined ∧ k'.services.Confined ∧ k'.Guarded A img T.mem := by
  obtain ⟨hv, error, rfl⟩ := hs.raised hlow hinst hinside hraise
  obtain ⟨hf, hsaved⟩ := hs.1.dispatch hkeep hs.2.1 hv hout
  subst hk'
  exact ⟨hx.cs.trans (c.cs_toDispatch ..), hf, hsaved,
    isrDispatch_guarded hA hlow hkeep hs.2.2 stack _ input⟩

/-- One step. -/
theorem MachineStep.inv {handlers : IrqHandlers σ} (hkeep : handlers.KeepKernel)
    {s s' : Machine σ} (hs : s.Confined A img T.mem) (hst : MachineStep T handlers s s') :
    s'.Confined A img T.mem := by
  have hrsp0 : (kernelTss img).rsp0 < 2 ^ 47 := Nat.lt_of_le_of_lt hlow (by decide)
  cases hst with
  | runs hcs hss hflags hm =>
      exact ⟨hs.1.keeps hflags (hcs.trans hs.1.cs) (hss.trans hs.1.ss), hs.2.1, hs.2.2.user hA hm⟩
  | far hfar hcs hss hflags =>
      have h := hs.2.2.guards.installed hinst hinside
      rw [hs.1.level] at hfar
      obtain ⟨rfl, -⟩ := h.far hfar
      exact ⟨hs.1.keeps hflags hcs (hss.trans hs.1.ss), hs.2⟩
  | returns hret hcs hss hflags =>
      have h := hs.2.2.guards.installed hinst hinside
      rw [hs.1.level] at hret
      obtain ⟨rfl, rfl⟩ := h.returns hret
      refine ⟨hs.1.keeps hflags hcs ?_, hs.2⟩
      rcases hss with hss | ⟨ss, hload, hss⟩
      · exact hss.trans hs.1.ss
      · rw [hss, h.loadSs hload]
        rfl
  | loadsSs hload hcs hss hflags =>
      rw [hs.1.level] at hload
      obtain rfl := (hs.2.2.guards.installed hinst hinside).loadSs hload
      exact ⟨hs.1.keeps hflags (hcs.trans hs.1.cs) hss, hs.2⟩
  | resumes _ _ hraise hk' hout _ hx hok =>
      obtain ⟨hcs, hf, hsaved, hguard⟩ :=
        hs.returned hA hlow hinst hinside hkeep hraise hk' hout hx
      rw [(hguard.guards.installed hinst hinside).resume hcs hx.frame hf] at hok
      split at hok
      case isTrue =>
        obtain rfl := Except.ok.inj hok
        exact ⟨Core.confined_leave hx.frame hf, hsaved, hguard⟩
      case isFalse => cases hok
  | refused _ _ hraise hk' hout _ hx herr =>
      obtain ⟨hcs, hf, -, hguard⟩ := hs.returned hA hlow hinst hinside hkeep hraise hk' hout hx
      have h := hguard.guards.installed hinst hinside
      rw [h.resume hcs hx.frame hf] at herr
      split at herr
      case isTrue => cases herr
      case isFalse =>
        obtain rfl := Except.error.inj herr
        rw [h.faulted hrsp0 hcs]
        trivial
  | halts => trivial
  | @shutsDown k c e _ hno =>
      rcases hno with hstack | hnone
      · exact absurd (hs.2.2.stackMapped hlow hinst hinside) hstack
      · obtain ⟨v, error, -, heq⟩ := hs.1.raise (hs.2.2.guards.installed hinst hinside) hrsp0 e
        exact absurd (hnone.symm.trans heq) (Option.some_ne_none _).symm
  | @tramples k k' c d e v stack input s _ _ hk' htrampled =>
      have hguard : k'.Guarded A img T.mem :=
        hk' ▸ isrDispatch_guarded hA hlow hkeep hs.2.2 stack _ input
      exact absurd (hs.2.2.stackKept hlow hinst hinside hguard) htrampled

end

/-- `usermode_exec_elf` starts a program in ring 3. -/
theorem usermodeExecElf_frame {img : Image} {M : Mach σ} {fr : IretFrame}
    (h : (usermodeExecElf img M).1 = some fr) :
    fr.cs = gdtUserCodeRpl3 ∧ fr.ss = gdtUserDataRpl3 ∧ fr.rflags = 0x202 := by
  simp only [usermodeExecElf, Act.bind_apply] at h
  split at h
  case isTrue => cases h
  case isFalse =>
    simp only [Act.bind_apply] at h
    split at h
    case isTrue =>
      obtain rfl := Option.some.inj h
      exact ⟨rfl, rfl, rfl⟩
    case isFalse => cases h

/-- There are no system calls before the first program. -/
theorem setup_of_prepare {k k' : Kernel Pmm} {op : KernelOp} (h : PrepareStep k op k') :
    SetupStep k op k' := by
  cases op with
  | user => exact h.elim
  | syscall => exact h.elim
  | _ => trivial

/-- The first program is confined, and the kernel has kept its memory up to it. -/
theorem Machine.Start.confined {env : BootEnv} (hbus : env.bus = .phys) (hres : env.Reserved)
    (hlow : kernelStackTop env.image ≤ kheapStart) {s : Machine Pmm} (h : s.Start env T) :
    s.Confined (avail env.start.frames) env.image env.mem := by
  cases s with
  | user k c =>
      obtain ⟨k₀, img, fr, hoom, hk₀, hend, hclear, himg, hexec, rfl, -, -, hcs, hflags, -, hss⟩ :=
        h
      obtain ⟨hcs', hss', hflags'⟩ := usermodeExecElf_frame hexec
      rw [hcs'] at hcs
      rw [hss'] at hss
      rw [hflags'] at hflags
      have hchild : k₀.services.childRunning = false :=
        childRunning_setup (hk₀.mono (fun _ => id) fun _ _ ⟨op, hs, hC⟩ =>
          ⟨op, hs, setup_of_prepare hC⟩)
      refine ⟨⟨hcs, hss, ?_⟩, fun hrun => ?_, ?_⟩
      · rw [hflags]
        decide
      · rw [Kernel.services_withMach, hchild] at hrun
        cases hrun
      · exact (hk₀.prepared hbus hoom hres hlow).usermode (fun _ ha => hres.not_avail ha) hlow
          hclear himg hend
  | halted => exact h.elim
  | lost => exact h.elim

/-- No port is open to a program: IOPL is 0, and the map of ports is behind the end of the
task state segment. -/
theorem Core.Confined.ports (h : Installed S tss T) (hiopb : tss.iopbOffset = 104) {c : Core}
    (hc : c.Confined) (port : Nat) : ¬ T.portAllowed c.level c.iopl port := by
  rintro (hle | ⟨hlimit, -⟩)
  · rw [hc.level, hc.iopl] at hle
    omega
  · rw [h.tr, h.iopb, hiopb] at hlimit
    simp only at hlimit
    omega

end

/-- Where the kernel has to be: the tables of the processor are in the image, the image and the
entry stack end below the heap, and no frame of the stack is handed out.  Pointers to frames are
physical addresses. -/
structure BootEnv.Placed (env : BootEnv) (S : Statics) : Prop where
  bus : env.bus = .phys
  inside : S.Inside env.image
  low : kernelStackTop env.image ≤ kheapStart
  reserved : env.Reserved

/-- The boot with other memory. -/
def BootEnv.withMem (env : BootEnv) (m : Mem) : BootEnv := { env with mem := m }

/-- The kernel's memory while a program runs: the image and the entry stack are mapped to
themselves, the processor's tables are as `kernel_main` has left them, and no user page is one of
the kernel's or has a frame of the image or of the stack. -/
structure Kernel.KeepsMemory (k : Kernel Pmm) (S : Statics) (img : KernelImage) (m : Mem) :
    Prop where
  mapped : ∀ a, KernelMem img a → k.mach.translate a = some ⟨frameOf a, true, false⟩
  tables : ∀ a, S.TableByte a → k.mach.mem a = m a
  pages : ∀ a t, k.mach.translate a = some t → t.user = true → ¬ k.Protected (pageOf a)
  frames : ∀ a t, k.mach.translate a = some t → t.user = true →
    ¬ KernelMem img (t.frame + a % 4096)

theorem Kernel.Guarded.keepsMemory {S : Statics} {A : Nat → Prop} {img : KernelImage} {m : Mem}
    (hA : ∀ a, KernelMem img a → ¬ A (frameOf a)) (hlow : kernelStackTop img ≤ kheapStart)
    (hinside : S.Inside img) {k : Kernel Pmm} (h : k.Guarded A img m) :
    k.KeepsMemory S img m where
  mapped a ha := by
    have htop := ha.2
    simp only [kheapStart] at hlow
    exact h.guards.translate ha (by omega)
  tables a ha := h.guards.mem a (hinside.kernelMem ha)
  pages a t ht hu := h.apart a (userPage_decode (h.guards.rooted.translate a) ⟨t, ht, hu⟩)
  frames a t ht hu := h.guards.userFrame hA ht hu

/-- Every state of a run from a kernel that is in its place. -/
theorem Machine.confined_of_reachable {S : Statics} {env : BootEnv} (henv : env.Placed S)
    {T : Tables} (hinst : Installed S (kernelTss env.image) T) (hmem : env.mem = T.mem)
    {handlers : IrqHandlers Pmm} (hkeep : handlers.KeepKernel) {s : Machine Pmm}
    (hr : Reachable (Machine.Start env T) (MachineStep T handlers) s) :
    s.Confined (avail env.start.frames) env.image T.mem := by
  obtain ⟨hbus, hinside, hlow, hres⟩ := henv
  refine hr.invariant (fun s h0 => ?_) fun s s' hs hst =>
    hst.inv (fun a ha => hres.not_avail ha) hlow hinst hinside hkeep hs
  rw [← hmem]
  exact h0.confined hbus hres hlow

/-- Such a state is that of a program in ring 3, or the kernel has halted. -/
theorem Machine.Confined.cases {S : Statics} {env : BootEnv} (henv : env.Placed S) {T : Tables}
    (hinst : Installed S (kernelTss env.image) T) {s : Machine Pmm}
    (hs : s.Confined (avail env.start.frames) env.image T.mem) :
    s = .halted ∨ ∃ k c, s = .user k c ∧ c.Confined ∧
      (∀ port, ¬ (k.tables T).portAllowed c.level c.iopl port) ∧
      (∀ e : Event, ∃ v d, c.raise (k.tables T) e.vector e.source e.error = some (v, d) ∧
        d.rip = S.stub v ∧ d.cs = 0x08) ∧
      k.KeepsMemory S env.image T.mem := by
  have hrsp0 : (kernelTss env.image).rsp0 < 2 ^ 47 := Nat.lt_of_le_of_lt henv.low (by decide)
  cases s with
  | user k c =>
      obtain ⟨hc, -, hk⟩ := hs
      have h := hk.guards.installed hinst henv.inside
      refine Or.inr ⟨k, c, rfl, hc, hc.ports h rfl, fun e => ?_,
        hk.keepsMemory (fun a ha => henv.reserved.not_avail ha) henv.low henv.inside⟩
      obtain ⟨v, error, -, hraise⟩ := hc.raise h hrsp0 e
      exact ⟨v, _, hraise, rfl, rfl⟩
  | halted => exact Or.inl rfl
  | lost => exact hs.elim

/-- Along every run, whatever programs, exceptions and devices do: a program is in ring 3 with
its own two segments, can be interrupted and reaches no port, and what interrupts it goes to a
stub of the kernel, whose memory is out of its reach.  The machine goes on like this or the
kernel halts. -/
theorem programs_confined (S : Statics) (env : BootEnv) (henv : env.Placed S)
    (idt : Nat → IdtEntry) (T₀ : Tables) (handlers : IrqHandlers Pmm)
    (hkeep : handlers.KeepKernel) :
    ∃ sel T, S.setup (kernelTss env.image) idt T₀ = .ok (sel, T) ∧
      ∀ s : Machine Pmm,
        Reachable (Machine.Start (env.withMem T.mem) T) (MachineStep T handlers) s →
        s = .halted ∨ ∃ k c, s = .user k c ∧ c.Confined ∧
          (∀ port, ¬ (k.tables T).portAllowed c.level c.iopl port) ∧
          (∀ e : Event, ∃ v d, c.raise (k.tables T) e.vector e.source e.error = some (v, d) ∧
            d.rip = S.stub v ∧ d.cs = 0x08) ∧
          k.KeepsMemory S env.image T.mem := by
  obtain ⟨T, hsetup, hinst⟩ := setup_spec S (kernelTss env.image) T₀ idt
  refine ⟨_, T, hsetup, fun s hr => ?_⟩
  have henv' : (env.withMem T.mem).Placed S :=
    ⟨henv.bus, henv.inside, henv.low, henv.reserved⟩
  exact Machine.Confined.cases henv' hinst
    (Machine.confined_of_reachable henv' hinst rfl hkeep hr)

/-- 64 MiB above the kernel and its entry stack. -/
def guardedBoot : BootEnv := bootWith [⟨0x120000, 0x4000000, 1⟩] .phys

theorem placed_guardedBoot : guardedBoot.Placed sampleStatics where
  bus := rfl
  inside := ⟨by decide, by decide, by decide⟩
  low := by decide +kernel
  reserved f hf husable := by
    obtain ⟨-, -, -, r, hr, -, h1, -⟩ := (usable_iff (by decide) f).mp husable
    obtain rfl : r = ⟨0x120000, 0x4000000, 1⟩ := List.mem_singleton.mp hr
    have htop : f * pmmPageSize < 0x114000 := Nat.lt_of_lt_of_le hf.1 (by decide +kernel)
    simp only [pmmPageSize] at h1 htop
    omega

theorem oom_guardedBoot (m : Mem) : Plenty (guardedBoot.withMem m).boot.mach.frames 12 ∧
    (guardedBoot.withMem m).boot.mach.oom = false := by
  refine BootEnv.plenty_boot _ (m := 0x4000) (a := 0x120) (by decide) fun f h1 h2 => ?_
  exact usable_bootWith (by decide) (by decide) .phys (by omega) (by omega)
    (by simp only [pmmMaxFrames]; omega)

/-- The sample program has no page of the kernel. -/
theorem clearOf_onePageImage {k : Kernel Pmm} (hend : k.heap.heapEnd ≤ 0x400000) :
    onePageImage.ClearOf k := by
  intro n hn
  obtain rfl := covers_onePageImage hn
  rintro (hid | ⟨a, -, ha, hpage⟩)
  · exact absurd hid (by decide)
  · simp only [pageOf] at hpage
    omega

/-- The sample program is started, with itself as the shell. -/
theorem start_onePage {S : Statics} {env : BootEnv} (henv : env.Placed S) {T : Tables}
    (hinst : Installed S (kernelTss env.image) T) (hmem : env.mem = T.mem)
    (hplenty : Plenty env.boot.mach.frames 12) (hoom : env.boot.mach.oom = false) :
    ∃ k, k.services.shellElf = some onePageImage ∧
      k.Guarded (avail env.start.frames) env.image T.mem ∧
      Machine.Start env T (.user k sampleUser) := by
  obtain ⟨k₀, hk₀, hmach, hend, hshell, hfiles⟩ : ∃ k₀ : Kernel Pmm,
      env.Reaches PrepareStep k₀ ∧ k₀.mach = env.boot.mach ∧ k₀.heap.heapEnd = 0x210000 ∧
        k₀.services.shellElf = some onePageImage ∧ k₀.services.files = [] :=
    ⟨_, (BootEnv.Reaches.boot env _).next .setShellElf trivial, rfl, rfl, rfl, rfl⟩
  have himg : onePageImage.ClearOf k₀ := clearOf_onePageImage (by rw [hend]; decide)
  have hclear : ∀ img, k₀.services.Has img → img.ClearOf k₀ := by
    rintro img (⟨f, hf, -⟩ | hsome)
    · rw [hfiles] at hf
      cases hf
    · rw [hshell] at hsome
      exact Option.some.inj hsome ▸ himg
  have hwindow : k₀.heap.heapEnd ≤ userStackVaddr := by
    rw [hend]
    decide
  have hguard := (hk₀.prepared henv.bus hoom henv.reserved henv.low).usermode
    (fun a ha => henv.reserved.not_avail ha) henv.low hclear himg hwindow
  rw [hmem] at hguard
  have hexec := usermodeExecElf_onePage hplenty hoom
  rw [← hmach] at hexec
  refine ⟨k₀.withMach (usermodeExecElf onePageImage k₀.mach).2, hshell, hguard, k₀, onePageImage, _,
    hoom, hk₀, hwindow, hclear, himg, hexec, rfl, ?_, ?_, rfl, rfl, rfl, rfl⟩
  · exact ((hguard.guards.installed hinst henv.inside).returnTo _).trans
      (if_pos (by decide +kernel))
  · decide +kernel

/-- An interrupt without a handler goes back to the program. -/
theorem irq_resumes {A : Nat → Prop} {img : KernelImage} {S : Statics} {T : Tables}
    (hlow : kernelStackTop img ≤ kheapStart) (hinst : Installed S (kernelTss img) T)
    (hinside : S.Inside img) {k : Kernel Pmm} (hk : k.Guarded A img T.mem) {c : Core}
    (hc : c.Confined) (hrip : Word.canonical c.rip.toNat) :
    MachineStep T (fun _ => none) (.user k c)
      (.user k ((c.atStub S (kernelTss img) 33 0).toDispatch 33).leave) := by
  have hrsp0 : (kernelTss img).rsp0 < 2 ^ 47 := Nat.lt_of_le_of_lt hlow (by decide)
  have h := hk.guards.installed hinst hinside
  have hstub : HasStub 33 := Or.inl (by decide)
  have hframe := c.frameAt_toDispatch S (kernelTss img) hstub 0
  have hraise : c.raise (k.tables T) 33 .external 0
      = some (33, c.atStub S (kernelTss img) 33 0) :=
    h.raise hrsp0 (Or.inr hc.cs) (by decide) (Or.inl rfl) 0
  obtain ⟨r, hr, hkernel, hresumed⟩ : ∃ r,
      (c.atStub S (kernelTss img) 33 0).dispatch (fun _ => none) (fun _ => 0) k 0 33 = r ∧
        r.kernel = k ∧ r.outcome.resumed = some (c.frame 33 0) := by
    refine ⟨isrDispatch (fun _ => none) (fun _ => 0) k (c.frame 33 0) 0, ?_, rfl, rfl⟩
    rw [Core.dispatch, hframe]
    rfl
  have hif : c.interruptible := by
    have hmask : c.rflags &&& 0x200 = (c.rflags &&& 0x3200) &&& 0x200 := by
      rw [UInt64.and_assoc]
      rfl
    rw [Core.interruptible, hmask, hc.flags]
    rfl
  rw [← hr] at hkernel hresumed
  refine .resumes (e := .irq 1) hif (hk.stackMapped hlow hinst hinside) hraise hkernel hresumed
    (hk.stackKept hlow hinst hinside hk) ⟨rfl, rfl, hframe⟩ ?_
  rw [h.resume (c.cs_toDispatch ..) hframe (hc.frame ..)]
  exact if_pos hrip

/-- The sample program, with itself as the shell, after an interrupt. -/
theorem programs_confined_sample :
    ∃ sel T, sampleStatics.setup (kernelTss guardedBoot.image) (fun _ => ⟨0, 0, 0, 0, 0, 0, 0⟩)
        ⟨fun _ => 0, ⟨0, 0⟩, ⟨0, 0⟩, ⟨0, 0⟩⟩ = .ok (sel, T) ∧
      ∃ k c, Reachable (Machine.Start (guardedBoot.withMem T.mem) T) (MachineStep T fun _ => none)
          (.user k c) ∧
        k.services.shellElf = some onePageImage ∧
        (∀ port, ¬ (k.tables T).portAllowed c.level c.iopl port) ∧
        k.mach.translate 0x10A000 = some ⟨0x10A000, true, false⟩ := by
  obtain ⟨T', hsetup', hinst⟩ := setup_spec sampleStatics (kernelTss guardedBoot.image)
    ⟨fun _ => 0, ⟨0, 0⟩, ⟨0, 0⟩, ⟨0, 0⟩⟩ (fun _ => ⟨0, 0, 0, 0, 0, 0, 0⟩)
  obtain ⟨sel, T, hsetup, hall⟩ := programs_confined sampleStatics guardedBoot placed_guardedBoot
    (fun _ => ⟨0, 0, 0, 0, 0, 0, 0⟩) ⟨fun _ => 0, ⟨0, 0⟩, ⟨0, 0⟩, ⟨0, 0⟩⟩
    (fun _ => none : IrqHandlers Pmm) (fun _ _ h => absurd h (Option.some_ne_none _).symm)
  obtain ⟨-, rfl⟩ := Prod.mk.inj (Except.ok.inj (hsetup'.symm.trans hsetup))
  have henv : (guardedBoot.withMem T'.mem).Placed sampleStatics :=
    ⟨rfl, placed_guardedBoot.inside, placed_guardedBoot.low, placed_guardedBoot.reserved⟩
  obtain ⟨hplenty, hoom⟩ := oom_guardedBoot T'.mem
  obtain ⟨k, hshell, hguard, hstart⟩ := start_onePage henv hinst rfl hplenty hoom
  have hconf : sampleUser.Confined := ⟨rfl, rfl, by decide⟩
  have hrun := Reachable.step (.init hstart)
    (irq_resumes henv.low hinst henv.inside hguard hconf (by decide +kernel))
  refine ⟨sel, T', hsetup, k, _, hrun, hshell, ?_⟩
  rcases hall _ hrun with hhalt | ⟨k', c', heq, -, hports, -, hkeeps⟩
  · cases hhalt
  · obtain ⟨rfl, rfl⟩ := Machine.user.inj heq
    have hmem : KernelMem guardedBoot.image 0x10A000 := ⟨by decide, by decide +kernel⟩
    exact ⟨hports, hkeeps.mapped 0x10A000 hmem⟩

end TunaOs
