import TunaOs.Kheap.Canonical
import TunaOs.Task.Safety
import TunaOs.Task.Transparent

/-!
# The stack a new task starts on

`task_create` lays seven words on top of the stack that `kmalloc` gives it, and
`switch_to` takes all of them off again: a new task enters `task_trampoline` with
the stack pointer at the end of its stack.  The calling convention wants
`rsp + 8` to be a multiple of 16 there.  `kmalloc` promises multiples of 8 only,
so whether a task starts aligned is decided by the block its stack is in.
-/

namespace TunaOs

open Word

section

variable {σ : Type} [HeapBacking σ] {T T' : Tasks σ} {live : List (Nat × Nat)}

/-! ## What `task_create` leaves behind -/

/-- Where first fit puts the stack of a new task, as an offset from the start of the
heap.  The control block is taken from the chain first. -/
def stackOffset (bs : List Block) : Option Nat :=
  (fitGrown (requestSize taskSize) bs).bind fun r =>
    (fitGrown (requestSize taskStackSize) r.2).map Prod.fst

/-- The stack of a new task is the payload of that block. -/
theorem TaskBlocks.stackOffset {h h₂ : Heap σ} {t stack : Nat}
    (hb : TaskBlocks h h₂ live t stack) (hinv : HeapInv h live) :
    ∃ x, TunaOs.stackOffset h.blocks = some x ∧ stack = kheapStart + x + 16 := by
  obtain ⟨h₁, hk₁, hk₂⟩ := hb.allocs
  obtain ⟨bs, hr, -⟩ := hinv
  obtain ⟨y, cs, hfit₁, -, hr₁⟩ := hr.kmalloc_fitGrown (by decide) (by decide) hk₁ hb.tcb_ne
  obtain ⟨x, ds, hfit₂, hstack, -⟩ := hr₁.kmalloc_fitGrown (by decide) (by decide) hk₂ hb.stack_ne
  refine ⟨x, ?_, hstack⟩
  rw [TunaOs.stackOffset, hr.blocks_eq, hfit₁, Option.bind_some, hfit₂, Option.map_some]

/-- A state of `task.c` between two calls: there is no task yet, or the task list
is the ring of the tasks. -/
def Tasks.Listed (T : Tasks σ) (live : List (Nat × Nat)) : Prop :=
  (T.taskList = 0 ∧ HeapInv T.heap live) ∨
    ∃ order other, live = taskAllocs T.heap.mem order ++ other ∧ TaskRep T order other

/-- A context on the stack of a task stays when another control block is written,
and when the task is linked. -/
theorem HoldsContext.setTaskNext {m : Mem} {t x v : Nat} {b : MemBlock} {ctx : Context}
    (h : HoldsContext m t b ctx) (hb : (tcbBlock x).Apart b)
    (ht : x = t ∨ (tcbBlock x).Apart (tcbBlock t)) :
    HoldsContext (setTaskNext m x v) t b ctx := by
  simp only [MemBlock.Apart, tcbBlock, taskSize] at hb ht
  refine h.congr (fun y hy => ?_) ?_
  · obtain ⟨h1, h2⟩ := hy
    exact Mem.store_other (by omega)
  · exact Mem.load_store_other (by omega)

/-- A task that `task_create` has returned holds its first context, on the stack
that first fit has found. -/
theorem taskCreate_holds (hlist : T.Listed live) (trampoline entry : UInt64) {t : Nat}
    (hk : taskCreate trampoline.toNat entry.toNat T = some (T', t)) (ht : t ≠ 0) :
    ∃ x stack, stackOffset T.heap.blocks = some x ∧ stack = kheapStart + x + 16 ∧
      stack + taskStackSize < 2 ^ 32 ∧ (taskAt T'.heap.mem t).stack = stack ∧
      HoldsContext T'.heap.mem t ⟨stack, taskStackSize⟩
        (Stopped.context trampoline (.created entry stack)) := by
  have hinv : HeapInv T.heap live := by
    rcases hlist with ⟨-, hinv⟩ | ⟨order, other, rfl, hr⟩
    · exact hinv
    · exact hr.heap
  rcases taskCreate_blocks hinv trampoline.toNat entry.toNat with
    ⟨h', hfails, -, -⟩ | ⟨h₂, t₁, stack, hb⟩
  · exact absurd (congrArg Prod.snd (Option.some.inj (hk.symm.trans hfails))) ht
  obtain ⟨x, hoffset, hplace⟩ := hb.stackOffset hinv
  have hbound := hb.inv.bounds List.mem_cons_self
  have hapart : ∀ {x : Nat}, (x, taskSize) ∈ (t₁, taskSize) :: live →
      (tcbBlock x).Apart ⟨stack, taskStackSize⟩ := fun hx =>
    hb.inv.disjoint (List.mem_cons_of_mem _ hx) List.mem_cons_self (hb.inv.head_ne hx)
  have hsetup := (setupTask_holds h₂.mem T.nextId trampoline entry (hapart List.mem_cons_self)
    (by omega)).1
  have hlinks := fun tail => hb.taskCreate_linked trampoline.toNat entry.toNat tail
  have hstarts := hb.taskCreate_first trampoline.toNat entry.toNat
  obtain ⟨hinv₃, hkept₃, -, -, hstack⟩ :=
    setupTask_spec hb.inv T.nextId trampoline.toNat entry.toNat
  generalize setupTask h₂.mem t₁ stack T.nextId trampoline.toNat entry.toNat = m₃
    at hlinks hstarts hsetup hinv₃ hkept₃ hstack
  have hfirst := fun v => hsetup.setTaskNext (v := v) (hapart List.mem_cons_self) (.inl rfl)
  have hfield : ∀ m v, (taskAt (TunaOs.setTaskNext m t₁ v) t₁).stack = (taskAt m t₁).stack :=
    fun m v => Mem.load_store_other (by omega)
  rcases hlist with ⟨hempty, -⟩ | ⟨order, other, rfl, hr⟩
  · -- the first task is linked to itself
    obtain ⟨rfl, rfl⟩ := Prod.mk.inj (Option.some.inj (hk.symm.trans (hstarts hempty)))
    exact ⟨x, stack, hoffset, hplace, by omega, (hfield m₃ t).trans hstack, hfirst t⟩
  · -- another task is linked behind the last one, which is one of the tasks
    have hsame : ∀ x ∈ order, taskAt m₃ x = taskAt T.heap.mem x := fun x hx =>
      taskAt_congr fun y h1 h2 => by
        rw [hkept₃ x taskSize (hr.tcb hx) y h1 h2,
          hb.kept.payload x taskSize (hr.tcb hx) y h1 h2]
    have hring : Circular.IsRing (taskNext m₃) order :=
      hr.ring.congr fun x hx => congrArg Task.next (hsame x hx)
    have hL := List.mem_of_mem_head? hr.head
    have hfuel := hinv₃.order_lt_walkFuel hring.nodup fun x hx =>
      List.mem_cons_of_mem _ (List.mem_cons_of_mem _ (hr.tcb hx))
    obtain ⟨tail, hfind, htail, -⟩ := hring.findPrev hL hL (Nat.le_of_lt hfuel)
    obtain ⟨rfl, rfl⟩ :=
      Prod.mk.inj (Option.some.inj (hk.symm.trans (hlinks tail (hr.pos hL) hfind)))
    have hin : (tail, taskSize) ∈ (t, taskSize) :: (taskAllocs T.heap.mem order ++ other) :=
      List.mem_cons_of_mem _ (hr.tcb htail)
    have hdis : (tcbBlock tail).Apart (tcbBlock t) :=
      hb.inv.disjoint (List.mem_cons_of_mem _ hin) (List.mem_cons_of_mem _ List.mem_cons_self)
        ((hb.inv.perm (List.Perm.swap _ _ _)).head_ne (List.mem_cons_of_mem _ (hr.tcb htail)))
    have hlinked := hsetup.setTaskNext (v := t) (hapart hin) (.inr hdis)
    refine ⟨x, stack, hoffset, hplace, by omega, ?_,
      hlinked.setTaskNext (hapart List.mem_cons_self) (.inl rfl)⟩
    rw [Heap.withMem_mem, hfield, tcbOnly_setTaskNext.taskAt_other (t := tail) (x := t) hdis.symm,
      hstack]

/-! ## The first switch -/

omit [HeapBacking σ] in
/-- A call of `switch_to` that goes to the task `t` for the first time: nothing has
been written to its stack since `task_create`, and the task that is left has its
stack and its control block elsewhere. -/
structure FirstSwitch (T : Tasks σ) (t : Nat) (c : Cpu) : Prop where
  /-- `next->rsp`. -/
  rsi : (c.regs .rsi).toNat = (taskAt T.heap.mem t).rsp
  /-- The new stack is as it was. -/
  fresh : ∀ y, MemBlock.Has ⟨(taskAt T.heap.mem t).stack, taskStackSize⟩ y →
    c.mem y = T.heap.mem y
  /-- The stack of the task that is left has room for six words. -/
  room : 48 ≤ (c.regs .rsp).toNat
  /-- They are not on the new stack. -/
  stack : MemBlock.Apart ⟨(c.regs .rsp).toNat - 48, 48⟩
    ⟨(taskAt T.heap.mem t).stack, taskStackSize⟩
  /-- Neither is `old->rsp`. -/
  rdi : MemBlock.Apart ⟨(c.regs .rdi).toNat, 8⟩ ⟨(taskAt T.heap.mem t).stack, taskStackSize⟩

/-- The calling convention at the entry of a function. -/
def Cpu.EntryAligned (c : Cpu) : Prop := ((c.regs .rsp).toNat + 8) % 16 = 0

/-- A task enters `task_trampoline` with the stack pointer at the end of its
stack. -/
theorem taskCreate_enters (hlist : T.Listed live) (trampoline entry : UInt64) {t : Nat}
    (hk : taskCreate trampoline.toNat entry.toNat T = some (T', t)) (ht : t ≠ 0) {c : Cpu}
    (hc : FirstSwitch T' t c) :
    ∃ x, stackOffset T.heap.blocks = some x ∧ (exec switchTo c).rip = trampoline ∧
      ((exec switchTo c).regs .rsp).toNat = kheapStart + x + 16 + taskStackSize := by
  obtain ⟨x, stack, hoffset, hplace, hbound, hfield, hholds⟩ :=
    taskCreate_holds hlist trampoline entry hk ht
  obtain ⟨hrsi, hfresh, hroom, hstack, hrdi⟩ := hc
  rw [hfield] at hfresh hstack hrdi
  simp only [MemBlock.Apart, MemBlock.Has] at hfresh hstack hrdi
  obtain ⟨hlow, hhigh, hsaved⟩ := hholds
  simp only at hlow hhigh
  -- the first half of `switch_to` writes neither to the new stack nor to RSI
  have hrsi' : ((exec saveContext c).regs .rsi).toNat = (taskAt T'.heap.mem t).rsp := by
    rw [(saveContext_spec hroom).2, hrsi]
  have hsaved' : SavedAt (exec saveContext c).mem ((exec saveContext c).regs .rsi).toNat
      (Stopped.context trampoline (.created entry stack)) := by
    rw [hrsi']
    refine hsaved.congr fun y h1 h2 => ?_
    rw [saveContext_kept hroom (by omega) (by omega)]
    exact hfresh y ⟨by omega, by omega⟩
  obtain ⟨hctx, -⟩ := loadContext_spec hsaved' (by omega)
  simp only [Cpu.context, Stopped.context, Context.mk.injEq] at hctx
  obtain ⟨hrip, -, -, -, -, -, -, hrsp⟩ := hctx
  rw [switchTo, exec_append]
  refine ⟨x, hoffset, hrip, ?_⟩
  rw [hrsp, UInt64.toNat_ofNat', Nat.mod_eq_of_lt (by omega), hplace]

/-- A new task enters `task_trampoline` on an aligned stack exactly if the block that
first fit finds for its stack, in the chain before `task_create`, starts 8 bytes behind
a multiple of 16. -/
theorem newTask_aligned_iff (hlist : T.Listed live) (trampoline entry : UInt64) {t : Nat}
    (hk : taskCreate trampoline.toNat entry.toNat T = some (T', t)) (ht : t ≠ 0) {c : Cpu}
    (hc : FirstSwitch T' t c) :
    (exec switchTo c).rip = trampoline ∧
      ((exec switchTo c).EntryAligned ↔
        ∃ x, stackOffset T.heap.blocks = some x ∧ x % 16 = 8) := by
  obtain ⟨x, hoffset, hrip, hrsp⟩ := taskCreate_enters hlist trampoline entry hk ht hc
  refine ⟨hrip, ?_⟩
  rw [Cpu.EntryAligned, hrsp, taskStackSize, kheapStart]
  constructor
  · intro h
    exact ⟨x, hoffset, by omega⟩
  · rintro ⟨y, hy, h⟩
    obtain rfl := Option.some.inj (hoffset.symm.trans hy)
    omega

end

/-! ## Two tasks after the boot task -/

theorem bootTasks_listed : ∃ live, bootTasks.Listed live := by
  have hcur : bootTasks.currentTask = 0x200010 := by decide +kernel
  have hboot : TaskHistory.Start ⟨bootTasks, [0x200010], []⟩ :=
    ⟨_, _, bootTasks, .init ⟨_, _, rfl⟩, taskInit_bootTasks, by decide +kernel, by rw [hcur]⟩
  obtain ⟨order, other, hr, -⟩ := TaskHistory.inv_of_reachable (.init hboot)
  exact ⟨_, Or.inr ⟨order, other, rfl, hr⟩⟩

theorem pairTasks_listed : ∃ live, pairTasks.Listed live := by
  obtain ⟨order, other, hr, -⟩ := TaskHistory.inv_of_reachable pairTasks_reachable
  exact ⟨_, Or.inr ⟨order, other, rfl, hr⟩⟩

/-- The boot task in a call of `switch_to` for the task whose stack pointer is
`rsp`. -/
def bootCall (T : Tasks Unit) (rsp : UInt64) : Cpu where
  regs := fun
    | .rdi => 0x200018
    | .rsi => rsp
    | .rsp => 0x180000
    | _ => 0
  rip := 0
  mem := T.heap.mem

theorem firstSwitch_bootCall {T : Tasks Unit} {t stack : Nat} {rsp : UInt64}
    (hrsp : (taskAt T.heap.mem t).rsp = rsp.toNat) (hstack : (taskAt T.heap.mem t).stack = stack)
    (hlow : 0x200020 ≤ stack) : FirstSwitch T t (bootCall T rsp) := by
  rw [← hstack] at hlow
  refine ⟨hrsp.symm, fun _ _ => rfl, ?_, Or.inl ?_, Or.inl hlow⟩
  · exact show 48 ≤ UInt64.toNat 0x180000 by decide
  · exact Nat.le_trans (show UInt64.toNat 0x180000 - 48 + 48 ≤ 0x200020 by decide) hlow

/-- The first task that the boot task creates starts on a misaligned stack. -/
theorem firstTask_misaligned :
    taskInit ⟨kheapInit (fun _ => 0) (), 0, 0, 0⟩ = some bootTasks ∧
      taskCreate 0x100500 0x100600 bootTasks = some (pairTasks, 0x200048) ∧
      FirstSwitch pairTasks 0x200048 (bootCall pairTasks 0x202048) ∧
      (exec switchTo (bootCall pairTasks 0x202048)).rip = 0x100500 ∧
      ¬ (exec switchTo (bootCall pairTasks 0x202048)).EntryAligned := by
  obtain ⟨live, hlist⟩ := bootTasks_listed
  have hc : FirstSwitch pairTasks 0x200048 (bootCall pairTasks 0x202048) :=
    firstSwitch_bootCall (by decide +kernel) (show _ = 0x200080 by decide +kernel) (by decide)
  obtain ⟨x, hoffset, hrip, hrsp⟩ := taskCreate_enters hlist 0x100500 0x100600
    taskCreate_pairTasks (by decide) hc
  have hblock : stackOffset bootTasks.heap.blocks = some 0x70 := by decide +kernel
  obtain rfl := Option.some.inj (hoffset.symm.trans hblock)
  refine ⟨taskInit_bootTasks, taskCreate_pairTasks, hc, hrip, ?_⟩
  rw [Cpu.EntryAligned, hrsp]
  decide

/-- The boot task and two more tasks. -/
def trioTasks : Tasks Unit :=
  ((taskCreate 0x100500 0x100600 pairTasks).get (by decide +kernel)).1

/-- The second task starts on an aligned stack. -/
theorem newTask_aligned_second :
    taskCreate 0x100500 0x100600 pairTasks = some (trioTasks, 0x202090) ∧
      (exec switchTo (bootCall trioTasks 0x204090)).rip = 0x100500 ∧
      (exec switchTo (bootCall trioTasks 0x204090)).EntryAligned := by
  obtain ⟨live, hlist⟩ := pairTasks_listed
  have hsnd : ((taskCreate 0x100500 0x100600 pairTasks).get (by decide +kernel)).2
      = 0x202090 := by decide +kernel
  have hk : taskCreate 0x100500 0x100600 pairTasks = some (trioTasks, 0x202090) := by
    rw [trioTasks, ← hsnd, Option.some_get]
  have hc : FirstSwitch trioTasks 0x202090 (bootCall trioTasks 0x204090) :=
    firstSwitch_bootCall (by decide +kernel) (show _ = 0x2020c8 by decide +kernel) (by decide)
  obtain ⟨hrip, hiff⟩ := newTask_aligned_iff hlist 0x100500 0x100600 hk (by decide) hc
  exact ⟨hk, hrip, hiff.mpr ⟨0x20b8, by decide +kernel, by decide⟩⟩

end TunaOs
