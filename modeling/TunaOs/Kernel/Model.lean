import TunaOs.Elf.Model
import TunaOs.Lib.Run

/-!
# Processes and system calls

The model of `usermode.c` and `syscall.c`, with `ramfs_find` and the part of
`kernel_main` that brings the memory managers up.  The static variables of
`syscall.c` and the file list are `Services`.  A file is a name and an image:
its data lies in a block of the heap that no code writes after
`ramfs_create`.  Output to the serial line is left out, and the next byte to
arrive on it is an argument.

`Mach.mem` is the memory behind page tables, frames and programs.  The code of the
kernel, its static variables (those of `pmm.c` and `syscall.c` too), its stacks and the
stored images are not read from it, so a store that hits them by mistake does not
change what the model of the kernel does.  Where that matters, it is a condition
that there is no such store.

A system call ends in an `Outcome`.  Where the source returns to user mode in a
program it has just loaded, the outcome names the image, so that a run can say
which program is which.  An exception in the kernel is fatal: `isr_dispatch`
prints a message and halts.

User programs are not interpreted.  What they can do to memory is
`UserWrites`: change bytes of pages that the active tables give them write
access to.
-/

namespace TunaOs

open Word

/-! ## Frames and files -/

/-- `struct interrupt_frame`. -/
structure InterruptFrame where
  r15 : Nat
  r14 : Nat
  r13 : Nat
  r12 : Nat
  r11 : Nat
  r10 : Nat
  r9 : Nat
  r8 : Nat
  rbp : Nat
  rdi : Nat
  rsi : Nat
  rdx : Nat
  rcx : Nat
  rbx : Nat
  rax : Nat
  vector : Nat
  errorCode : Nat
  rip : Nat
  cs : Nat
  rflags : Nat
  rsp : Nat
  ss : Nat
deriving DecidableEq, Repr

/-- `struct ramfs_file`, with the data it points to. -/
structure RamfsFile where
  /-- `name`. -/
  name : List UInt8
  /-- `data` and `size`. -/
  image : Image

/-- `str_eq`, where a string ends at its first NUL or at the end of the list. -/
def strEq : List UInt8 → List UInt8 → Bool
  | [], b => b.headD 0 == 0
  | x :: _, [] => x == 0
  | x :: a, y :: b => if x ≠ 0 ∧ y ≠ 0 then (if x ≠ y then false else strEq a b) else x == y

/-- `ramfs_find`. -/
def ramfsFind (files : List RamfsFile) (name : List UInt8) : Option RamfsFile :=
  files.find? fun f => strEq f.name name

/-- The static variables of `syscall.c` and `ramfs.c`. -/
structure Services where
  /-- `saved_frame`. -/
  savedFrame : InterruptFrame
  /-- `child_running`. -/
  childRunning : Bool
  /-- `shell_elf_image` and `shell_elf_size`. -/
  shellElf : Option Image
  /-- `file_list`, the newest file first. -/
  files : List RamfsFile

/-- How a system call ends. -/
inductive Outcome
  /-- It returns to the program with this frame. -/
  | ret (frame : InterruptFrame)
  /-- It returns to user mode in a program that it has just loaded. -/
  | start (frame : InterruptFrame) (image : Image)
  /-- The kernel halts on request. -/
  | halt
  /-- The kernel halts on an exception. -/
  | fault

/-! ## Constants -/

/-- `GDT_USER_CODE_RPL3`. -/
def gdtUserCodeRpl3 : Nat := 0x23

/-- `GDT_USER_DATA_RPL3`. -/
def gdtUserDataRpl3 : Nat := 0x1B

/-- The flags `PRESENT | WRITE | USER` of stack pages. -/
def stackFlags : Nat := vmmFlagPresent ||| vmmFlagWrite ||| vmmFlagUser

/-- `USER_STACK_VADDR`. -/
def userStackVaddr : Nat := 0x800000

/-- `CHILD_STACK_VADDR`. -/
def childStackVaddr : Nat := 0x900000

/-- `USER_STACK_PAGES` and `CHILD_STACK_PAGES`. -/
def stackPages : Nat := 2

/-- `MAX_SYSCALLS`. -/
def maxSyscalls : Nat := 16

/-- `SYS_READ`. -/
def sysRead : Nat := 0

/-- `SYS_WRITE`. -/
def sysWrite : Nat := 1

/-- `SYS_LISTFILES`. -/
def sysListfiles : Nat := 2

/-- `SYS_EXEC`. -/
def sysExec : Nat := 3

/-- `SYS_EXIT`. -/
def sysExit : Nat := 4

/-- `(uint64_t)(int64_t)-1`. -/
def minusOne : Nat := 2 ^ 64 - 1

/-- `frame->rax = v`. -/
def InterruptFrame.withRax (frame : InterruptFrame) (v : Nat) : InterruptFrame :=
  { frame with rax := v }

/-- The changes `handle_exec` makes to the frame to enter the child. -/
def InterruptFrame.enterChild (frame : InterruptFrame) (entry : Nat) : InterruptFrame :=
  { frame with
    rip := entry
    rsp := childStackVaddr + stackPages * 4096
    cs := gdtUserCodeRpl3
    ss := gdtUserDataRpl3
    rflags := 0x202 }

section

variable {σ : Type} [FrameSource σ]

/-! ## Starting a program -/

/-- The loops of `usermode_exec_elf` and `handle_exec` that allocate a stack,
with `n` pages to go from `vaddr` on.  They return false when there is no
frame. -/
def mapStack : Nat → Nat → Act σ Bool
  | 0, _ => return true
  | n + 1, vaddr => do
    let frame ← allocFrame
    if frame = 0 then return false
    else
      vmmMapPage vaddr frame stackFlags
      mapStack n (vaddr + 4096)

/-- The values that `usermode_exec_elf` pushes for `iretq`. -/
structure IretFrame where
  rip : Nat
  cs : Nat
  rflags : Nat
  rsp : Nat
  ss : Nat
deriving DecidableEq, Repr

/-- `usermode_exec_elf`.  `none` is a return to the caller. -/
def usermodeExecElf (img : Image) : Act σ (Option IretFrame) := do
  let entry ← elfLoad img
  if entry = 0 then return none
  else
    let ok ← mapStack stackPages userStackVaddr
    if ok then
      return some
        { rip := entry
          cs := gdtUserCodeRpl3
          rflags := 0x202
          rsp := userStackVaddr + stackPages * 4096
          ss := gdtUserDataRpl3 }
    else return none

/-! ## System calls -/

/-- The byte at an address, if reading it raises no exception.  The kernel reads with
its own rights. -/
def Mach.userByte (M : Mach σ) (a : Nat) : Option UInt8 :=
  if canonical a then (M.translate a).map fun t => M.mem (t.frame + a % 4096) else none

/-- A byte read through a user pointer. -/
def loadUser (a : Nat) : Act σ UInt8 := fun M =>
  ((M.userByte a).getD 0, { M with fault := M.fault || (M.userByte a).isNone })

/-- `len` bytes read through a user pointer. -/
def loadUserBytes (a : Nat) : Nat → Act σ (List UInt8)
  | 0 => return []
  | n + 1 => do
    let bytes ← loadUserBytes a n
    let b ← loadUser (wrap64 (a + n))
    return bytes ++ [b]

/-- `handle_exec`. -/
def handleExec (S : Services) (frame : InterruptFrame) : Act σ (Services × Outcome) := do
  if frame.rdi = 0 ∨ frame.rsi = 0 ∨ frame.rsi > 127 then
    return (S, .ret (frame.withRax minusOne))
  else
    let name ← loadUserBytes frame.rdi frame.rsi
    match ramfsFind S.files name with
    | none => return (S, .ret (frame.withRax minusOne))
    | some f =>
      let entry ← elfLoad f.image
      if entry = 0 then return (S, .ret (frame.withRax minusOne))
      else
        let ok ← mapStack stackPages childStackVaddr
        if ok then
          return ({ S with savedFrame := frame, childRunning := true },
            .start (frame.enterChild entry) f.image)
        else return (S, .ret (frame.withRax minusOne))

/-- The reload of the shell in `handle_exit`. -/
def reloadShell (S : Services) : Act σ Unit :=
  match S.shellElf with
  | none => pure ()
  | some img => do
    let _ ← elfLoad img
    pure ()

/-- `handle_exit`.  The caller's frame is overwritten. -/
def handleExit (S : Services) : Act σ (Services × Outcome) := do
  if S.childRunning = false then return (S, .halt)
  else
    reloadShell S
    return ({ S with childRunning := false }, .ret (S.savedFrame.withRax 0))

/-- The handlers in `syscall_table`: the result, or `none` for an empty slot.
`input` is the next byte from the serial line. -/
def syscallTable (number : Nat) (frame : InterruptFrame) (input : UInt8) : Option (Act σ Nat) :=
  if number = sysRead then some (return input.toNat)
  else if number = sysWrite then
    some do
      if frame.rdi = 0 ∨ wrap64 (frame.rdi + frame.rsi) < frame.rdi then return minusOne
      else
        let _ ← loadUserBytes frame.rdi frame.rsi
        return frame.rsi
  else if number = sysListfiles then some (return 0)
  else none

/-- `syscall_dispatch` up to exceptions. -/
def dispatchCall (S : Services) (frame : InterruptFrame) (input : UInt8) :
    Act σ (Services × Outcome) :=
  if frame.rax = sysExec then handleExec S frame
  else if frame.rax = sysExit then handleExit S
  else if frame.rax ≥ maxSyscalls then return (S, .ret (frame.withRax minusOne))
  else
    match syscallTable frame.rax frame input with
    | none => return (S, .ret (frame.withRax minusOne))
    | some handler => do
      let result ← handler
      return (S, .ret (frame.withRax result))

/-- An exception in the kernel is fatal. -/
def orFault (r : Services × Outcome) : Act σ (Services × Outcome) := fun M =>
  (if M.fault then (r.1, .fault) else r, M)

/-- `syscall_dispatch`. -/
def syscallDispatch (S : Services) (frame : InterruptFrame) (input : UInt8) :
    Act σ (Services × Outcome) := do
  let r ← dispatchCall S frame input
  orFault r

end

/-! ## The kernel -/

/-- The state of the kernel. -/
structure Kernel (σ : Type) where
  /-- The heap, with the machine below it. -/
  heap : Heap (Mach σ)
  /-- System calls and files. -/
  services : Services

section

variable {σ : Type}

/-- The machine. -/
def Kernel.mach (k : Kernel σ) : Mach σ := k.heap.env

/-- The kernel with another machine. -/
def Kernel.withMach (k : Kernel σ) (M : Mach σ) : Kernel σ :=
  { k with heap := { k.heap with env := M } }

/-- The kernel with other services. -/
def Kernel.withServices (k : Kernel σ) (S : Services) : Kernel σ := { k with services := S }

@[simp] theorem Kernel.mach_withMach (k : Kernel σ) (M : Mach σ) : (k.withMach M).mach = M := rfl

@[simp] theorem Kernel.heapEnd_withMach (k : Kernel σ) (M : Mach σ) :
    (k.withMach M).heap.heapEnd = k.heap.heapEnd := rfl

@[simp] theorem Kernel.services_withMach (k : Kernel σ) (M : Mach σ) :
    (k.withMach M).services = k.services := rfl

@[simp] theorem Kernel.mach_withServices (k : Kernel σ) (S : Services) :
    (k.withServices S).mach = k.mach := rfl

@[simp] theorem Kernel.services_withServices (k : Kernel σ) (S : Services) :
    (k.withServices S).services = S := rfl

/-- What user code can do to memory. -/
def UserWrites (M : Mach σ) (m : Mem) : Prop :=
  ∀ x, m x ≠ M.mem x → ∃ a t, M.translate a = some t ∧ t.user = true ∧ t.write = true
    ∧ x = t.frame + a % 4096

variable [FrameSource σ]

/-- The kernel after a system call, and how the call ended. -/
def Kernel.syscall (k : Kernel σ) (frame : InterruptFrame) (input : UInt8) : Kernel σ × Outcome :=
  let r := syscallDispatch k.services frame input k.mach
  ((k.withMach r.2).withServices r.1.1, r.1.2)

/-- The operations of the kernel after boot. -/
inductive KernelOp
  /-- `kmalloc (size)`. -/
  | kmalloc (size : Nat)
  /-- `kfree (p)`. -/
  | kfree (p : Nat)
  /-- The kernel writes to its heap, or the heap's pages are remapped under it. -/
  | heapMem (m : Mem)
  /-- The end of `ramfs_create`: a file is put on the list. -/
  | addFile (f : RamfsFile)
  /-- `syscall_set_shell_elf (img)`. -/
  | setShellElf (img : Image)
  /-- `usermode_exec_elf (img)`. -/
  | usermode (img : Image)
  /-- User code runs. -/
  | user (m : Mem)
  /-- A system call. -/
  | syscall (frame : InterruptFrame) (input : UInt8)

/-- The steps of the kernel after boot. -/
inductive KernelStep : Kernel σ → KernelOp → Kernel σ → Prop
  | kmalloc {k : Kernel σ} {size p : Nat} {h : Heap (Mach σ)}
      (hm : kmalloc k.heap size = some (h, p)) : KernelStep k (.kmalloc size) { k with heap := h }
  | kfree {k : Kernel σ} {p : Nat} {h : Heap (Mach σ)} (hf : kfree k.heap p = some h) :
      KernelStep k (.kfree p) { k with heap := h }
  | heapMem {k : Kernel σ} {m : Mem} :
      KernelStep k (.heapMem m) { k with heap := k.heap.withMem m }
  | addFile {k : Kernel σ} {f : RamfsFile} :
      KernelStep k (.addFile f)
        (k.withServices { k.services with files := f :: k.services.files })
  | setShellElf {k : Kernel σ} {img : Image} :
      KernelStep k (.setShellElf img) (k.withServices { k.services with shellElf := some img })
  | usermode {k : Kernel σ} {img : Image} :
      KernelStep k (.usermode img) (k.withMach (usermodeExecElf img k.mach).2)
  | user {k : Kernel σ} {m : Mem} (hm : UserWrites k.mach m) :
      KernelStep k (.user m) (k.withMach (k.mach.withMem m))
  | syscall {k : Kernel σ} {frame : InterruptFrame} {input : UInt8} :
      KernelStep k (.syscall frame input) (k.syscall frame input).1

end

/-! ## Programs over the machine -/

section

variable {σ : Type} [FrameSource σ] {C : {β : Type} → Act σ β → Prop}

omit [FrameSource σ] in
theorem Closed.loadUserBytes (hC : Closed C) (hload : ∀ a, C (loadUser a : Act σ UInt8)) (a : Nat) :
    ∀ n, C (TunaOs.loadUserBytes a n : Act σ (List UInt8))
  | 0 => hC.pure _
  | n + 1 => hC.bind (Closed.loadUserBytes hC hload a n) fun _ =>
      hC.bind (hload _) fun _ => hC.pure _

theorem Closed.usermodeExecElf (hC : Closed C) {img : Image} (helf : C (elfLoad img : Act σ Nat))
    (hstack : C (mapStack stackPages userStackVaddr : Act σ Bool)) :
    C (TunaOs.usermodeExecElf img : Act σ (Option IretFrame)) :=
  hC.bind helf fun _ => Closed.ite (hC.pure _) (hC.bind hstack fun _ =>
    Closed.ite (hC.pure _) (hC.pure _))

/-- What the parts of a system call have in common, the whole has. -/
theorem Closed.syscallDispatch (hC : Closed C) {S : Services} {frame : InterruptFrame}
    (hload : ∀ a, C (loadUser a : Act σ UInt8))
    (helf : ∀ img, C (elfLoad img : Act σ Nat))
    (hstack : C (mapStack stackPages childStackVaddr : Act σ Bool))
    (hfault : ∀ r, C (orFault r : Act σ (Services × Outcome))) (input : UInt8) :
    C (TunaOs.syscallDispatch S frame input : Act σ (Services × Outcome)) := by
  refine hC.bind ?_ hfault
  unfold dispatchCall
  refine Closed.ite ?_ (Closed.ite ?_ ?_)
  · -- `handle_exec`
    refine Closed.ite (hC.pure _) (hC.bind (hC.loadUserBytes hload ..) fun name => ?_)
    cases ramfsFind S.files name with
    | none => exact hC.pure _
    | some f =>
        refine hC.bind (helf f.image) fun entry => ?_
        exact Closed.ite (hC.pure _) (hC.bind hstack fun _ => Closed.ite (hC.pure _) (hC.pure _))
  · -- `handle_exit`
    refine Closed.ite (hC.pure _) (hC.bind ?_ fun _ => hC.pure _)
    unfold reloadShell
    cases S.shellElf with
    | none => exact hC.pure _
    | some img => exact hC.bind (helf img) fun _ => hC.pure _
  · -- the table
    refine Closed.ite (hC.pure _) ?_
    cases hhandler : (syscallTable frame.rax frame input : Option (Act σ Nat)) with
    | none => exact hC.pure _
    | some handler =>
        refine hC.bind ?_ fun _ => hC.pure _
        unfold syscallTable at hhandler
        split at hhandler
        · exact Option.some.inj hhandler ▸ hC.pure _
        split at hhandler
        · refine Option.some.inj hhandler ▸ Closed.ite (hC.pure _) ?_
          exact hC.bind (hC.loadUserBytes hload ..) fun _ => hC.pure _
        split at hhandler
        · exact Option.some.inj hhandler ▸ hC.pure _
        · cases hhandler

theorem Mapping.mapStack (hC : Mapping C) :
    ∀ n vaddr, C (TunaOs.mapStack n vaddr : Act σ Bool)
  | 0, _ => hC.pure _
  | n + 1, vaddr => by
      refine hC.bind hC.allocFrame fun frame => Closed.ite (hC.pure _) ?_
      exact hC.bind (hC.vmmMapPage ..) fun _ => Mapping.mapStack hC n _

omit [FrameSource σ] in
theorem Robust.loadUser (a : Nat) : Robust (TunaOs.loadUser a : Act σ UInt8) :=
  .update _ (fun _ => rfl) fun _ _ => rfl

omit [FrameSource σ] in
theorem Robust.orFault (r : Services × Outcome) :
    Robust (TunaOs.orFault r : Act σ (Services × Outcome)) :=
  .update _ (fun _ => rfl) fun _ _ => rfl

theorem Robust.usermodeExecElf (img : Image) :
    Robust (TunaOs.usermodeExecElf img : Act σ (Option IretFrame)) :=
  closed_robust.usermodeExecElf (primitive_robust.elfLoad img) (primitive_robust.mapStack ..)

theorem Robust.syscallDispatch (S : Services) (frame : InterruptFrame) (input : UInt8) :
    Robust (TunaOs.syscallDispatch S frame input : Act σ (Services × Outcome)) :=
  closed_robust.syscallDispatch .loadUser primitive_robust.elfLoad (primitive_robust.mapStack ..)
    .orFault input

end

/-! ## Boot -/

/-- The static variables before boot. -/
def initialServices : Services where
  savedFrame := ⟨0, 0, 0, 0, 0, 0, 0, 0, 0, 0, 0, 0, 0, 0, 0, 0, 0, 0, 0, 0, 0, 0⟩
  childRunning := false
  shellElf := none
  files := []

/-- What `kernel_main` finds: memory, the tables of the boot code, the linker
symbols and the memory map.  The bus is that of the pointers to come. -/
structure BootEnv where
  /-- Physical memory. -/
  mem : Mem
  /-- Memory at the addresses of the heap. -/
  heapMem : Mem
  /-- The static variables of `pmm.c`. -/
  pmm : Pmm
  /-- `_kernel_start` and `_kernel_end`. -/
  image : KernelImage
  /-- The memory map. -/
  regions : List MmapRegion
  /-- The meaning of pointers to frames. -/
  bus : Bus

/-- The machine after `pmm_init`. -/
def BootEnv.start (env : BootEnv) : Mach Pmm where
  mem := env.mem
  frames := pmmInit env.image env.regions env.pmm
  bus := env.bus
  cr3 := none
  pml4 := 0
  heapFrames := []
  events := []
  stray := false
  fault := false
  oom := false

/-- The kernel after `pmm_init`, `vmm_init` and `kheap_init`. -/
def BootEnv.boot (env : BootEnv) : Kernel Pmm where
  heap := kheapInit env.heapMem (vmmInit env.start).2
  services := initialServices

/-- A condition on steps. -/
abbrev StepCond := Kernel Pmm → KernelOp → Kernel Pmm → Prop

/-- The states of runs from boot whose steps all meet a condition. -/
def BootEnv.Reaches (env : BootEnv) (C : StepCond) : Kernel Pmm → Prop :=
  Run.Reachable (fun k => k = env.boot) fun k k' => ∃ op, KernelStep k op k' ∧ C k op k'

/-- No condition. -/
def anyStep : StepCond := fun _ _ _ => True

theorem BootEnv.Reaches.boot (env : BootEnv) (C : StepCond) : env.Reaches C env.boot := .init rfl

theorem BootEnv.Reaches.next {env : BootEnv} {C : StepCond} {k k' : Kernel Pmm} {op : KernelOp}
    (hk : env.Reaches C k) (hs : KernelStep k op k') (hC : C k op k') : env.Reaches C k' :=
  .step hk ⟨op, hs, hC⟩

/-- The rule of runs. -/
theorem BootEnv.Reaches.invariant {env : BootEnv} {C : StepCond} {I : Kernel Pmm → Prop}
    (hboot : I env.boot) (hstep : ∀ k op k', I k → KernelStep k op k' → C k op k' → I k')
    {k : Kernel Pmm} (hk : env.Reaches C k) : I k := by
  refine Run.Reachable.invariant (fun s hs => hs ▸ hboot) ?_ hk
  rintro s t hs ⟨op, hst, hC⟩
  exact hstep s op t hs hst hC

end TunaOs
