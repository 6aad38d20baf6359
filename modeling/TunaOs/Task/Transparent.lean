import TunaOs.Lib.Run
import TunaOs.Task.Switch

/-!
# Context switches are transparent

Many tasks share one register file.  A state is the processor with the blocks
of the tasks and, for each task that does not run, how it stopped: `task_create`
built its stack, or it called `switch_to`.  The invariant is that a task that
does not run has the context it will go on with on its stack
(`Switching.Inv`).  `switch_transparent` is the simulation: every switch puts
the task it goes to back where that task stopped, over every run.
-/

namespace TunaOs

open Run (Reachable)

/-! ## Blocks of memory -/

/-- A block of memory. -/
structure MemBlock where
  /-- Its first address. -/
  base : Nat
  /-- Its size in bytes. -/
  size : Nat

/-- The addresses of a block. -/
def MemBlock.Has (b : MemBlock) (x : Nat) : Prop := b.base ≤ x ∧ x < b.base + b.size

/-- Blocks that do not meet. -/
def MemBlock.Apart (b c : MemBlock) : Prop := b.base + b.size ≤ c.base ∨ c.base + c.size ≤ b.base

instance (b c : MemBlock) : Decidable (b.Apart c) := inferInstanceAs (Decidable (_ ∨ _))

/-- A task's control block. -/
def tcbBlock (t : Nat) : MemBlock := ⟨t, taskSize⟩

/-- The blocks of the tasks, control blocks and stacks, do not meet. -/
structure Layout (tasks : List Nat) (stack : Nat → MemBlock) : Prop where
  /-- Stacks of different tasks. -/
  apart : ∀ t ∈ tasks, ∀ u ∈ tasks, t ≠ u → (stack t).Apart (stack u)
  /-- Control blocks of different tasks. -/
  tcbs : ∀ t ∈ tasks, ∀ u ∈ tasks, t ≠ u → (tcbBlock t).Apart (tcbBlock u)
  /-- Control blocks and stacks. -/
  mixed : ∀ t ∈ tasks, ∀ u ∈ tasks, (tcbBlock t).Apart (stack u)
  /-- Addresses have 64 bits. -/
  bound : ∀ t ∈ tasks, t + taskSize ≤ 2 ^ 64 ∧ (stack t).base + (stack t).size ≤ 2 ^ 64

theorem Layout.subset {tasks tasks' : List Nat} {stack : Nat → MemBlock}
    (h : Layout tasks stack) (hsub : tasks' ⊆ tasks) : Layout tasks' stack where
  apart t ht u hu := h.apart t (hsub ht) u (hsub hu)
  tcbs t ht u hu := h.tcbs t (hsub ht) u (hsub hu)
  mixed t ht u hu := h.mixed t (hsub ht) u (hsub hu)
  bound t ht := h.bound t (hsub ht)

/-! ## Runs -/

/-- How a task that does not run stopped. -/
inductive Stopped
  /-- `task_create (entry)` has built its stack and it has not run yet. -/
  | created (entry : UInt64) (stack : Nat)
  /-- It called `switch_to` with the processor in this state. -/
  | called (c : Cpu)

/-- The processor and the tasks. -/
structure Switching where
  /-- The processor. -/
  cpu : Cpu
  /-- The task that runs. -/
  current : Nat
  /-- The tasks, the boot task included. -/
  tasks : List Nat
  /-- The stack of each task. -/
  stack : Nat → MemBlock
  /-- How each task stopped last. -/
  stopped : Nat → Stopped

/-- `&t->rsp`. -/
def rspField (t : Nat) : Nat := t + 8

/-- The call of `switch_to (&prev->rsp, next->rsp)` with which `schedule` leaves
the current task for `next`.  48 bytes of its stack are left below the stack
pointer, which points to the return address. -/
structure SwitchCall (s : Switching) (next : Nat) : Prop where
  /-- The next task is another one. -/
  other : next ∈ s.tasks ∧ next ≠ s.current
  /-- `&prev->rsp`. -/
  rdi : (s.cpu.regs .rdi).toNat = rspField s.current
  /-- `next->rsp`. -/
  rsi : (s.cpu.regs .rsi).toNat = (taskAt s.cpu.mem next).rsp
  /-- The room on the stack. -/
  room : (s.stack s.current).base + 48 ≤ (s.cpu.regs .rsp).toNat ∧
    (s.cpu.regs .rsp).toNat + 8 ≤ (s.stack s.current).base + (s.stack s.current).size

/-- The state after the switch. -/
def Switching.switch (s : Switching) (next : Nat) : Switching :=
  { s with
    cpu := exec switchTo s.cpu
    current := next
    stopped := Function.update s.stopped s.current (.called s.cpu) }

/-- The state after the stores of `task_create (entry)`.  `trampoline` is the
address of `task_trampoline`. -/
def Switching.create (s : Switching) (trampoline entry : UInt64) (t stack id : Nat) : Switching :=
  { s with
    cpu := s.cpu.withMem (setupTask s.cpu.mem t stack id trampoline.toNat entry.toNat)
    tasks := t :: s.tasks
    stack := Function.update s.stack t ⟨stack, taskStackSize⟩
    stopped := Function.update s.stopped t (.created entry stack) }

/-- The boot task runs and there is no other. -/
def Switching.Start (s : Switching) : Prop :=
  s.tasks = [s.current] ∧ Layout s.tasks s.stack

/-- One step. -/
inductive SwitchStep (trampoline : UInt64) : Switching → Switching → Prop
  /-- The current task runs.  It may write anywhere but to the stacks and the
  saved stack pointers of the other tasks. -/
  | run {s : Switching} {cpu : Cpu} :
      (∀ t ∈ s.tasks, t ≠ s.current →
        (∀ x, (s.stack t).Has x → cpu.mem x = s.cpu.mem x) ∧
        (taskAt cpu.mem t).rsp = (taskAt s.cpu.mem t).rsp) →
      SwitchStep trampoline s { s with cpu := cpu }
  /-- The stores of `task_create (entry)`, for blocks that meet no other. -/
  | create {s : Switching} {t stack id : Nat} {entry : UInt64} :
      t ∉ s.tasks →
      Layout (t :: s.tasks) (Function.update s.stack t ⟨stack, taskStackSize⟩) →
      SwitchStep trampoline s (s.create trampoline entry t stack id)
  /-- `task_destroy` of another task. -/
  | destroy {s : Switching} {t : Nat} :
      t ≠ s.current → SwitchStep trampoline s { s with tasks := s.tasks.filter (· ≠ t) }
  /-- A switch. -/
  | switch {s : Switching} {next : Nat} :
      SwitchCall s next → SwitchStep trampoline s (s.switch next)

/-! ## The invariant -/

/-- The context a stopped task goes on with. -/
def Stopped.context (trampoline : UInt64) : Stopped → Context
  | created entry stack =>
      ⟨trampoline, 0, 0, entry, 0, 0, 0, UInt64.ofNat (stack + taskStackSize)⟩
  | called c => c.callContext

/-- The context `x` is saved on the stack `b`, at the stack pointer of the task
`t`. -/
structure HoldsContext (m : Mem) (t : Nat) (b : MemBlock) (x : Context) : Prop where
  /-- The words are on the stack. -/
  low : b.base ≤ (taskAt m t).rsp
  /-- All of them are. -/
  high : (taskAt m t).rsp + 56 ≤ b.base + b.size
  /-- They describe the context. -/
  saved : SavedAt m (taskAt m t).rsp x

theorem HoldsContext.congr {m m' : Mem} {t : Nat} {b : MemBlock} {x : Context}
    (h : HoldsContext m t b x) (hm : ∀ y, b.Has y → m' y = m y)
    (hrsp : (taskAt m' t).rsp = (taskAt m t).rsp) : HoldsContext m' t b x := by
  refine ⟨by rw [hrsp]; exact h.low, by rw [hrsp]; exact h.high, ?_⟩
  rw [hrsp]
  have hlow := h.low
  have hhigh := h.high
  exact h.saved.congr fun y h1 h2 => hm y ⟨by omega, by omega⟩

/-- Every task that does not run holds the context it stopped with. -/
structure Switching.Inv (trampoline : UInt64) (s : Switching) : Prop where
  /-- The blocks do not meet. -/
  layout : Layout s.tasks s.stack
  /-- The current task is one of the tasks. -/
  current : s.current ∈ s.tasks
  /-- The contexts of the other tasks. -/
  holds : ∀ t ∈ s.tasks, t ≠ s.current →
    HoldsContext s.cpu.mem t (s.stack t) ((s.stopped t).context trampoline)

/-- The control block a task has is decided by its bytes. -/
theorem rsp_congr {m m' : Mem} {t : Nat} (hm : ∀ y, (tcbBlock t).Has y → m' y = m y) :
    (taskAt m' t).rsp = (taskAt m t).rsp :=
  Mem.load_congr fun y h1 h2 => hm y ⟨by simp only [tcbBlock]; omega, by
    simp only [tcbBlock, taskSize]
    omega⟩

/-- What the stores of `task_create` do: the new task holds its first context,
and bytes of other blocks stay. -/
theorem setupTask_holds (m : Mem) {t stack : Nat} (id : Nat) (trampoline entry : UInt64)
    (hapart : (tcbBlock t).Apart ⟨stack, taskStackSize⟩) (hs : stack + taskStackSize ≤ 2 ^ 64) :
    HoldsContext (setupTask m t stack id trampoline.toNat entry.toNat) t ⟨stack, taskStackSize⟩
        (Stopped.context trampoline (.created entry stack)) ∧
      ∀ x, ¬ (tcbBlock t).Has x → ¬ MemBlock.Has ⟨stack, taskStackSize⟩ x →
        setupTask m t stack id trampoline.toNat entry.toNat x = m x := by
  have htcb : TcbOnly m (setTaskStack (setTaskState (setTaskId m t id) t taskReady) t stack) t :=
    (tcbOnly_setTaskId.trans tcbOnly_setTaskState).trans tcbOnly_setTaskStack
  rw [setupTask]
  generalize setTaskStack (setTaskState (setTaskId m t id) t taskReady) t stack = m₁ at htcb ⊢
  simp only [MemBlock.Apart, MemBlock.Has, tcbBlock, taskStackSize] at hapart hs ⊢
  have hwords : initialWords trampoline.toNat entry.toNat
      = (Stopped.context trampoline (.created entry stack)).words := rfl
  have hpushed := pushWords_spec (initialWords trampoline.toNat entry.toNat) m₁
    (show 8 * (initialWords trampoline.toNat entry.toNat).length ≤ stack + 8192 by
      simp only [initialWords, List.length_cons, List.length_nil]
      omega)
  have hsaved := savedAt_pushWords m₁ (show 56 ≤ stack + 8192 by omega)
    (show (Stopped.context trampoline (.created entry stack)).rsp = _ from rfl)
  rw [← hwords] at hsaved
  generalize pushWords (initialWords trampoline.toNat entry.toNat) m₁ (stack + 8192) = pushed
    at hpushed hsaved ⊢
  obtain ⟨hsp, hkept⟩ := hpushed
  simp only [initialWords, List.length_cons, List.length_nil] at hsp hkept
  have hrsp : (taskAt (setTaskRsp pushed.1 t pushed.2) t).rsp = stack + 8192 - 56 := by
    rw [taskAt_setTaskRsp, hsp]
    exact Nat.mod_eq_of_lt (show stack + 8192 - 56 < 256 ^ 8 by omega)
  constructor
  · refine ⟨by rw [hrsp]; simp only; omega, by rw [hrsp]; simp only; omega, ?_⟩
    rw [hrsp]
    exact hsaved.congr fun y h1 h2 => tcbOnly_setTaskRsp y (by omega)
  · intro x hx1 hx2
    rw [tcbOnly_setTaskRsp x (by omega), hkept x (by omega), htcb x (by omega)]

section

variable {trampoline : UInt64} {s : Switching} {next : Nat}

/-- The bytes that the first half of `switch_to` leaves alone. -/
theorem SwitchCall.kept (hc : SwitchCall s next) {x : Nat} (hstack : ¬ (s.stack s.current).Has x)
    (hfield : ¬ MemBlock.Has ⟨rspField s.current, 8⟩ x) :
    (exec saveContext s.cpu).mem x = s.cpu.mem x := by
  obtain ⟨hlow, hhigh⟩ := hc.room
  simp only [MemBlock.Has] at hstack hfield
  exact saveContext_kept (by omega) (by omega) (by rw [hc.rdi]; omega)

/-- The other tasks keep their stacks and their saved stack pointers. -/
theorem SwitchCall.kept_task (h : s.Inv trampoline) (hc : SwitchCall s next) {t : Nat}
    (ht : t ∈ s.tasks) (hne : t ≠ s.current) :
    (∀ x, (s.stack t).Has x → (exec saveContext s.cpu).mem x = s.cpu.mem x) ∧
      (taskAt (exec saveContext s.cpu).mem t).rsp = (taskAt s.cpu.mem t).rsp := by
  have hstacks := h.layout.apart t ht _ h.current hne
  have htcbs := h.layout.tcbs t ht _ h.current hne
  have hmixed := h.layout.mixed t ht _ h.current
  have hmixed' := h.layout.mixed _ h.current t ht
  simp only [MemBlock.Apart, tcbBlock, taskSize] at hstacks htcbs hmixed hmixed'
  refine ⟨fun x hx => hc.kept ?_ ?_, rsp_congr fun x hx => hc.kept ?_ ?_⟩
  all_goals
    simp only [MemBlock.Has, rspField, tcbBlock, taskSize] at hx ⊢
    omega

/-- Seen from memory, `switch_to` pushes the registers and does what `switchTask`
says: it saves the stack pointer in the control block of the task that is
left. -/
theorem SwitchCall.mem (hc : SwitchCall s next) :
    (exec saveContext s.cpu).mem =
      setTaskRsp (pushWords s.cpu.context.words.tail s.cpu.mem (s.cpu.regs .rsp).toNat).1 s.current
        ((s.cpu.regs .rsp).toNat - 48) := by
  have hroom := hc.room
  rw [(saveContext_spec (by omega)).1, hc.rdi]
  rfl

/-- The task that is left holds the context of its call. -/
theorem SwitchCall.left (h : s.Inv trampoline) (hc : SwitchCall s next) :
    HoldsContext (exec saveContext s.cpu).mem s.current (s.stack s.current)
      s.cpu.callContext := by
  obtain ⟨hlow, hhigh⟩ := hc.room
  have hself := h.layout.mixed _ h.current _ h.current
  have hbound := h.layout.bound _ h.current
  simp only [MemBlock.Apart, tcbBlock, taskSize] at hself
  have hsp : 48 ≤ (s.cpu.regs .rsp).toNat := by omega
  have hrsp : (taskAt (exec saveContext s.cpu).mem s.current).rsp
      = (s.cpu.regs .rsp).toNat - 48 := by
    rw [hc.mem, taskAt_setTaskRsp]
    exact Nat.mod_eq_of_lt (show (s.cpu.regs .rsp).toNat - 48 < 256 ^ 8 by omega)
  refine ⟨by rw [hrsp]; omega, by rw [hrsp]; omega, ?_⟩
  rw [hrsp]
  exact savedAt_saveContext hsp (by rw [hc.rdi, rspField]; omega)

/-- The task that goes on has its context in the registers, and the second half
of `switch_to` writes nothing. -/
theorem SwitchCall.goes_on (h : s.Inv trampoline) (hc : SwitchCall s next) :
    (exec switchTo s.cpu).context = (s.stopped next).context trampoline ∧
      (exec switchTo s.cpu).mem = (exec saveContext s.cpu).mem := by
  obtain ⟨hnext, hne⟩ := hc.other
  have hsp : 48 ≤ (s.cpu.regs .rsp).toNat := by
    have := hc.room
    omega
  obtain ⟨hstack, hrsp⟩ := hc.kept_task h hnext hne
  have hholds := (h.holds next hnext hne).congr hstack hrsp
  have hhigh := hholds.high
  have hbound := (h.layout.bound next hnext).2
  rw [switchTo, exec_append]
  apply loadContext_spec
  · rw [(saveContext_spec hsp).2, hc.rsi, ← hrsp]
    exact hholds.saved
  · rw [(saveContext_spec hsp).2, hc.rsi, ← hrsp]
    omega

/-- A switch keeps the invariant. -/
theorem Switching.Inv.switch (h : s.Inv trampoline) (hc : SwitchCall s next) :
    (s.switch next).Inv trampoline := by
  refine ⟨h.layout, hc.other.1, fun t ht hne => ?_⟩
  change HoldsContext (exec switchTo s.cpu).mem t (s.stack t)
    ((Function.update s.stopped s.current (.called s.cpu) t).context trampoline)
  rw [(hc.goes_on h).2]
  by_cases hcur : t = s.current
  · rw [hcur, Function.update_self]
    exact hc.left h
  · rw [Function.update_of_ne hcur]
    obtain ⟨hstack, hrsp⟩ := hc.kept_task h ht hcur
    exact (h.holds t ht hcur).congr hstack hrsp

/-- Creating a task keeps the invariant. -/
theorem Switching.Inv.create (h : s.Inv trampoline) {t stack id : Nat} {entry : UInt64}
    (hfresh : t ∉ s.tasks)
    (hlayout : Layout (t :: s.tasks) (Function.update s.stack t ⟨stack, taskStackSize⟩)) :
    (s.create trampoline entry t stack id).Inv trampoline := by
  have hnew : Function.update s.stack t ⟨stack, taskStackSize⟩ t = ⟨stack, taskStackSize⟩ :=
    Function.update_self ..
  have hold : ∀ u ∈ s.tasks, u ≠ t ∧
      Function.update s.stack t ⟨stack, taskStackSize⟩ u = s.stack u := fun u hu => by
    have hut : u ≠ t := fun heq => hfresh (heq ▸ hu)
    exact ⟨hut, Function.update_of_ne hut ..⟩
  have ht : t ∈ t :: s.tasks := List.mem_cons_self
  have hself := hlayout.mixed t ht t ht
  have hbound := (hlayout.bound t ht).2
  rw [hnew] at hself hbound
  obtain ⟨hholds, hkept⟩ := setupTask_holds s.cpu.mem id trampoline entry hself hbound
  refine ⟨hlayout, List.mem_cons_of_mem _ h.current, fun u hu hne => ?_⟩
  simp only [Switching.create, Cpu.withMem_mem]
  rcases List.mem_cons.mp hu with rfl | hin
  · rw [hnew, Function.update_self]
    exact hholds
  · obtain ⟨hut, hsame⟩ := hold u hin
    have hstacks := hlayout.apart u hu t ht hut
    have htcbs := hlayout.tcbs u hu t ht hut
    have hmixed := hlayout.mixed u hu t ht
    have hmixed' := hlayout.mixed t ht u hu
    rw [hsame] at hstacks hmixed' ⊢
    rw [hnew] at hstacks hmixed
    rw [Function.update_of_ne hut]
    simp only [MemBlock.Apart, tcbBlock, taskSize] at hstacks htcbs hmixed hmixed'
    refine (h.holds u hin hne).congr (fun x hx => hkept x ?_ ?_)
      (rsp_congr fun x hx => hkept x ?_ ?_)
    all_goals
      simp only [MemBlock.Has, tcbBlock, taskSize] at hx ⊢
      omega

theorem SwitchStep.inv {s' : Switching} (h : s.Inv trampoline) (hst : SwitchStep trampoline s s') :
    s'.Inv trampoline := by
  cases hst with
  | run hkept =>
      refine ⟨h.layout, h.current, fun t ht hne => ?_⟩
      obtain ⟨hstack, hrsp⟩ := hkept t ht hne
      exact (h.holds t ht hne).congr hstack hrsp
  | create hfresh hlayout => exact h.create hfresh hlayout
  | @destroy t hne =>
      have hsub : ∀ u ∈ s.tasks.filter (· ≠ t), u ∈ s.tasks := fun u hu => List.mem_of_mem_filter hu
      exact ⟨h.layout.subset hsub, List.mem_filter.mpr ⟨h.current, decide_eq_true hne.symm⟩,
        fun u hu => h.holds u (hsub u hu)⟩
  | switch hc => exact h.switch hc

theorem Switching.inv_of_reachable (hr : Reachable Switching.Start (SwitchStep trampoline) s) :
    s.Inv trampoline := by
  refine hr.invariant ?_ fun _ _ hinv hst => hst.inv hinv
  rintro s ⟨htasks, hlayout⟩
  refine ⟨hlayout, by rw [htasks]; exact List.mem_singleton_self _, fun t ht hne => ?_⟩
  rw [htasks, List.mem_singleton] at ht
  exact absurd ht hne

end

/-! ## What every switch does -/

/-- The processor goes on with a task where that task stopped. -/
def Stopped.GoesOn (trampoline : UInt64) (c : Cpu) : Stopped → Prop
  /- It enters `task_trampoline` on an empty stack, with the entry in R12. -/
  | created entry stack =>
      c.rip = trampoline ∧ c.regs .r12 = entry ∧ c.regs .rbx = 0 ∧ c.regs .rbp = 0 ∧
        c.regs .r13 = 0 ∧ c.regs .r14 = 0 ∧ c.regs .r15 = 0 ∧
        c.regs .rsp = UInt64.ofNat (stack + taskStackSize)
  /- It returns from its call. -/
  | called d =>
      c.rip = d.word (d.regs .rsp) ∧ (∀ r ∈ calleeSaved, c.regs r = d.regs r) ∧
        c.regs .rsp = d.regs .rsp + 8

/-- Every switch goes on with the next task where that task stopped, and writes
only to the stack of the task that is left and to its saved stack pointer. -/
theorem switch_transparent {trampoline : UInt64} {s : Switching} {next : Nat}
    (hr : Reachable Switching.Start (SwitchStep trampoline) s) (hc : SwitchCall s next) :
    (s.stopped next).GoesOn trampoline (exec switchTo s.cpu) ∧
      ∀ x, ¬ (s.stack s.current).Has x → ¬ MemBlock.Has ⟨rspField s.current, 8⟩ x →
        (exec switchTo s.cpu).mem x = s.cpu.mem x := by
  have h := Switching.inv_of_reachable hr
  obtain ⟨hctx, hmem⟩ := hc.goes_on h
  constructor
  · cases hstop : s.stopped next with
    | created entry stack =>
        rw [hstop] at hctx
        simp only [Cpu.context, Stopped.context, Context.mk.injEq] at hctx
        obtain ⟨hrip, hrbx, hrbp, hr12, hr13, hr14, hr15, hrsp⟩ := hctx
        exact ⟨hrip, hr12, hrbx, hrbp, hr13, hr14, hr15, hrsp⟩
    | called d =>
        rw [hstop] at hctx
        simp only [Cpu.context, Stopped.context, Cpu.callContext, Context.mk.injEq] at hctx
        obtain ⟨hrip, hrbx, hrbp, hr12, hr13, hr14, hr15, hrsp⟩ := hctx
        refine ⟨hrip, fun r hr => ?_, hrsp⟩
        simp only [calleeSaved, List.mem_cons, List.not_mem_nil, or_false] at hr
        rcases hr with rfl | rfl | rfl | rfl | rfl | rfl
        · exact hrbx
        · exact hrbp
        · exact hr12
        · exact hr13
        · exact hr14
        · exact hr15
  · intro x hx1 hx2
    rw [hmem]
    exact hc.kept hx1 hx2

/-- The boot task with its control block at `0x1000`, before it has created a
task. -/
def bootSwitching : Switching where
  cpu := ⟨fun _ => 0, 0, fun _ => 0⟩
  current := 0x1000
  tasks := [0x1000]
  stack := fun _ => ⟨0x10000, 0x4000⟩
  stopped := fun _ => .created 0 0

/-- The boot task has created a task with its control block at `0x2000` and its
stack at `0x20000`. -/
def pairSwitching : Switching := bootSwitching.create 0x100500 0x100600 0x2000 0x20000 1

/-- The boot task calls `switch_to` for the task it has created. -/
def callSwitching : Switching :=
  { pairSwitching with
    cpu.regs := fun
      | .rdi => 0x1008
      | .rsi => 0x21fc8
      | .rsp => 0x13000
      | _ => 7 }

/-- The boot task creates a task and switches to it. -/
theorem switch_transparent_first :
    Reachable Switching.Start (SwitchStep 0x100500) callSwitching ∧
      SwitchCall callSwitching 0x2000 ∧
      callSwitching.stopped 0x2000 = .created 0x100600 0x20000 ∧
      (callSwitching.stopped 0x2000).GoesOn 0x100500 (exec switchTo callSwitching.cpu) := by
  have hstart : bootSwitching.Start := ⟨rfl, by decide, by decide, by decide, by decide⟩
  have hcreate : SwitchStep 0x100500 bootSwitching pairSwitching :=
    .create (by decide) ⟨by decide, by decide, by decide, by decide⟩
  have hrun : SwitchStep 0x100500 pairSwitching callSwitching :=
    .run fun _ _ _ => ⟨fun _ _ => rfl, rfl⟩
  have hreach := Reachable.step (Reachable.step (.init hstart) hcreate) hrun
  have hcall : SwitchCall callSwitching 0x2000 := by
    refine ⟨by decide, rfl, ?_, by decide⟩
    change _ = (taskAt (setupTask _ _ _ _ _ _) _).rsp
    rw [setupTask, taskAt_setTaskRsp]
    decide
  refine ⟨hreach, hcall, ?_, (switch_transparent hreach hcall).1⟩
  change Function.update bootSwitching.stopped 0x2000 (.created 0x100600 0x20000) 0x2000 = _
  rw [Function.update_self]

end TunaOs
