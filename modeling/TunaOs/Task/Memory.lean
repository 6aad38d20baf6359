import TunaOs.Kheap.Canonical
import TunaOs.Task.Safety

/-!
# The memory of the tasks

The scheduler owns one block of the kernel heap for each task control block and
one for each stack.  The boot task runs on a stack of its own, so the history of
the scheduler is extended by a note of which task is the boot task, as long as
it has not been destroyed.  `task_memory` states what holds in every history:
which blocks are live, which blocks are given to `kfree`, and that the heap gets
back to what it was before the first `task_create`.
-/

namespace TunaOs

open Circular (IsRing)
open Run (Reachable)

attribute [local irreducible] taskAt

/-! ## Used blocks -/

section

variable {σ : Type} {h h' : Heap σ} {live : List (Nat × Nat)}

/-- The used blocks of a heap, read off its headers. -/
def Heap.used (h : Heap σ) : List (Nat × Nat) := usedBlocks h.heapStart h.blocks

/-- The used blocks are the blocks of the live allocations. -/
theorem HeapInv.mem_used (hi : HeapInv h live) (y size : Nat) :
    (y, size) ∈ h.used ↔ (∃ s, (y + 16, s) ∈ live) ∧ size = blockSize h.mem y := by
  obtain ⟨bs, hr, hl⟩ := hi
  have hsize : ∀ z, (y, z) ∈ usedBlocks h.heapStart bs → z = blockSize h.mem y := fun z hz =>
    (hr.chain.header (mem_usedBlocks.mp hz)).1.symm
  rw [Heap.used, hr.blocks_eq]
  constructor
  · intro hy
    exact ⟨hl.owned y size hy, hsize size hy⟩
  · rintro ⟨⟨s, hs⟩, rfl⟩
    obtain ⟨x, z, hx, heq, -⟩ := hl.block _ _ hs
    obtain rfl : y = x := Nat.add_right_cancel heq
    rw [← hsize z hx]
    exact hx

/-- Heaps with the same allocations and block sizes have the same used blocks. -/
theorem HeapInv.used_congr (hi : HeapInv h live) (hi' : HeapInv h' live)
    (hkept : HeadersKept h.mem h'.mem live) (e : Nat × Nat) : e ∈ h'.used ↔ e ∈ h.used := by
  obtain ⟨y, size⟩ := e
  rw [hi.mem_used, hi'.mem_used]
  refine and_congr_right ?_
  rintro ⟨s, hs⟩
  have hy := hkept _ _ hs
  rw [Nat.add_sub_cancel] at hy
  rw [hy]

end

/-! ## Histories -/

/-- A history of the scheduler with the boot task, as long as it has not been
destroyed. -/
structure BootHistory (σ : Type) extends TaskHistory σ where
  /-- The boot task. -/
  boot : Option Nat

section

variable {σ : Type} [HeapBacking σ] {live : List (Nat × Nat)} {T₀ : Tasks σ}

/-- The history right after a `task_init` that found memory for the boot task.
`live` lists the allocations of the rest of the kernel. -/
def BootHistory.Start (live : List (Nat × Nat)) (T₀ : Tasks σ) (h : BootHistory σ) : Prop :=
  ∃ heap : Heap σ, Reachable HeapHistory.Start HeapStep ⟨heap, live⟩ ∧
    taskInit ⟨heap, 0, 0, 0⟩ = some T₀ ∧ T₀.currentTask ≠ 0 ∧
    h = ⟨⟨T₀, [T₀.currentTask], []⟩, some T₀.currentTask⟩

/-- One operation. -/
def BootStep (h h' : BootHistory σ) : Prop :=
  TaskStep h.toTaskHistory h'.toTaskHistory ∧ h'.boot = h.boot.filter (· ∈ h'.members)

/-- The blocks of one task: its control block and, but for the boot task, its
stack. -/
def BootHistory.blocksOf (h : BootHistory σ) (t : Nat) : List (Nat × Nat) :=
  (t, taskSize) ::
    if h.boot = some t then [] else [((taskAt h.tasks.heap.mem t).stack, taskStackSize)]

/-- What holds along every history. -/
structure BootHistory.Inv (live : List (Nat × Nat)) (T₀ : Tasks σ) (order : List Nat)
    (h : BootHistory σ) : Prop where
  /-- The invariant of the scheduler. -/
  holds : h.Holds order live
  /-- Only the boot task has no stack of its own. -/
  stackless : ∀ x ∈ order, (taskAt h.tasks.heap.mem x).stack = 0 ↔ h.boot = some x
  /-- The boot task is in the ring. -/
  boot : ∀ b, h.boot = some b → b = T₀.currentTask ∧ b ∈ order
  /-- The blocks from before the first `task_create` keep their sizes. -/
  kept : SameBlocks T₀.heap.mem h.tasks.heap.mem h.boot.toList live
  /-- The blocks from before the first `task_create`. -/
  start : HeapInv T₀.heap ((T₀.currentTask, taskSize) :: live)

omit [HeapBacking σ] in
/-- The allocations of a task that has a stack unless it is the boot task. -/
theorem BootHistory.Inv.allocs {order : List Nat} {h : BootHistory σ} (hinv : h.Inv live T₀ order) :
    taskAllocs h.tasks.heap.mem order = order.flatMap h.blocksOf :=
  List.flatMap_congr fun x hx => by
    simp only [allocsOf, BootHistory.blocksOf, hinv.stackless x hx]

theorem BootStep.inv {order : List Nat} {h h' : BootHistory σ} (hinv : h.Inv live T₀ order)
    (hst : BootStep h h') : ∃ order', h'.Inv live T₀ order' := by
  obtain ⟨hstep, hboot⟩ := hst
  obtain ⟨order', hholds, hblocks⟩ := hstep.holds hinv.holds
  -- the boot task of the new history
  have hboot' : ∀ b, h'.boot = some b ↔ h.boot = some b ∧ b ∈ order' := fun b => by
    rw [hboot, hholds.2.1, Option.filter_eq_some_iff, decide_eq_true_eq]
  refine ⟨order', hholds, fun x hx => ?_, fun b hb => ?_, ?_, hinv.start⟩
  · rw [hboot']
    by_cases hin : x ∈ order
    · rw [hblocks.kept.stack x (List.mem_filter.mpr ⟨hx, decide_eq_true hin⟩),
        hinv.stackless x hin, and_iff_left hx]
    · refine iff_of_false (hblocks.fresh x hx hin) ?_
      rintro ⟨hb, -⟩
      exact hin (hinv.boot x hb).2
  · obtain ⟨hb, hin⟩ := (hboot' b).mp hb
    exact ⟨(hinv.boot b hb).1, hin⟩
  · have hsub : ∀ x ∈ h'.boot.toList, x ∈ h.boot.toList ∧ x ∈ order'.filter (· ∈ order) := by
      intro x hx
      obtain ⟨hb, hin⟩ := (hboot' x).mp (Option.mem_toList.mp hx)
      exact ⟨Option.mem_toList.mpr hb,
        List.mem_filter.mpr ⟨hin, decide_eq_true (hinv.boot x hb).2⟩⟩
    exact (hinv.kept.mono fun x hx => (hsub x hx).1).trans
      (hblocks.kept.mono fun x hx => (hsub x hx).2)

theorem BootHistory.inv_of_reachable {h : BootHistory σ}
    (hr : Reachable (BootHistory.Start live T₀) BootStep h) : ∃ order, h.Inv live T₀ order := by
  refine hr.invariant (P := fun h => ∃ order, h.Inv live T₀ order) ?_
    fun _ _ ⟨_, hinv⟩ hst => hst.inv hinv
  rintro h ⟨heap, hheap, hinit, hne, rfl⟩
  rcases taskInit_spec ⟨heap, 0, 0, 0⟩ (HeapHistory.inv_of_reachable hheap) with
    hfail | ⟨T', hinit', hrep, hrun, hstack⟩
  · exact absurd (congrArg Tasks.currentTask (Option.some.inj (hinit.symm.trans hfail))) hne
  · obtain rfl := Option.some.inj (hinit.symm.trans hinit')
    have hallocs : taskAllocs T₀.heap.mem [T₀.currentTask] = [(T₀.currentTask, taskSize)] := by
      simp [taskAllocs, allocsOf, hstack]
    refine ⟨[T₀.currentTask], ⟨hrep, fun x => Iff.rfl, ?_⟩, fun x hx => ?_, fun b hb => ?_,
      .refl _ _ _, ?_⟩
    · refine ⟨fun x hx hxc => ?_, Or.inl hrun, fun x hx y hy hxc => ?_⟩
      · exact absurd (List.mem_singleton.mp hx) hxc
      · exact absurd (List.mem_singleton.mp hx) hxc
    · rw [List.mem_singleton.mp hx]
      exact iff_of_true hstack rfl
    · obtain rfl := Option.some.inj hb
      exact ⟨rfl, List.mem_singleton_self _⟩
    · have := hrep.heap
      rwa [hallocs] at this

/-! ## The calls of `kfree` -/

/-- `task_create` gives back the control block it has just got, or nothing. -/
theorem TaskRep.create_frees {T : Tasks σ} {order : List Nat} (hr : TaskRep T order live)
    (c : Heap σ × Nat) (hc : c ∈ taskCreateCalls T) :
    FreesLive live T.currentTask (taskAt T.heap.mem T.currentTask).stack c := by
  rcases hr.heap.kmalloc taskSize (by decide) with hk | ⟨h₁, t, hk, hne, hinv₁, -⟩
  · rw [taskCreateCalls, hk] at hc
    exact absurd hc List.not_mem_nil
  · rw [taskCreateCalls, hk] at hc
    simp only [if_neg hne] at hc
    rcases hinv₁.kmalloc taskStackSize (by decide) with hk₂ | ⟨h₂, stack, hk₂, hne₂, -⟩
    · rw [hk₂] at hc
      obtain rfl := List.mem_singleton.mp hc
      exact freesLive_of_heapInv hinv₁ fun e he => List.mem_flatMap.mpr ⟨_, hr.cur, he⟩
    · simp only [hk₂, if_neg hne₂] at hc
      exact absurd hc List.not_mem_nil

omit [HeapBacking σ] in
/-- `task_exit` frees nothing of the task that exits. -/
theorem TaskRep.exit_frees {T : Tasks σ} {order : List Nat} (hr : TaskRep T order live)
    (c : Heap σ × Nat) (hc : c ∈ taskExitCalls T) :
    FreesLive live T.currentTask (taskAt T.heap.mem T.currentTask).stack c := by
  obtain ⟨r, -, he⟩ := taskExit_effect hr 0
  rw [← hr.die.2.1.stack _ hr.cur]
  exact he.calls c hc

/-! ## The boot task alone -/

omit [HeapBacking σ] in
/-- Once all other tasks are dead, `schedule` leaves the current task alone in
the ring. -/
theorem ScheduleEffect.alone {T : Tasks σ} {order : List Nat} {r : Scheduled σ}
    (he : ScheduleEffect T order live r) (hcur : T.currentTask ∈ order)
    (hdead : ∀ x ∈ order, x ≠ T.currentTask → (taskAt T.heap.mem x).state = taskDead) :
    order.filter (· ∉ r.destroyed) = [T.currentTask] := by
  have hmem : ∀ x, x ∈ order.filter (· ∉ r.destroyed) ↔ x ∈ [T.currentTask] := fun x => by
    rw [List.mem_filter, decide_eq_true_eq, List.mem_singleton]
    constructor
    · rintro ⟨hx, hnot⟩
      by_contra hne
      exact he.reaped x hx hne hnot (hdead x hx hne)
    · rintro rfl
      exact ⟨hcur, fun hin => (he.destroyed _ hin).2.1 rfl⟩
  have hperm := (List.perm_ext_iff_of_nodup he.rep.ring.nodup (List.nodup_singleton _)).mpr hmem
  exact List.perm_singleton.mp hperm

omit [HeapBacking σ] in
/-- The used blocks are then those from before the first `task_create`. -/
theorem BootHistory.Inv.balance {order : List Nat} {h : BootHistory σ} (hinv : h.Inv live T₀ order)
    (hboot : h.boot = some h.tasks.currentTask)
    (hdead : ∀ x ∈ h.members, x ≠ h.tasks.currentTask →
      (taskAt h.tasks.heap.mem x).state = taskDead)
    {rsp : Nat} {r : Scheduled σ} (hs : schedule rsp h.tasks = some r) (e : Nat × Nat) :
    e ∈ r.tasks.heap.used ↔ e ∈ T₀.heap.used := by
  obtain ⟨hrep, hmem, hstates⟩ := hinv.holds
  obtain ⟨r', hs', he⟩ := schedule_effect hrep hstates.current_ne_ready rsp
  obtain rfl := Option.some.inj (hs.symm.trans hs')
  have halone := he.alone hrep.cur fun x hx => hdead x ((hmem x).mp hx)
  have hrep' := he.rep
  have hblocks := he.blocks
  rw [halone] at hrep' hblocks
  -- the boot task has the same two facts in all three states: no stack, and its block
  have hkept := hinv.kept
  rw [hboot, Option.toList_some] at hkept
  have hstack : (taskAt h.tasks.heap.mem h.tasks.currentTask).stack = 0 :=
    (hinv.stackless _ hrep.cur).mpr hboot
  have hstack' : (taskAt r.tasks.heap.mem h.tasks.currentTask).stack = 0 :=
    (hblocks.stack _ (List.mem_singleton_self _)).trans hstack
  have hstack₀ : (taskAt T₀.heap.mem h.tasks.currentTask).stack = 0 :=
    (hkept.stack _ (List.mem_singleton_self _)).symm.trans hstack
  have hallocs : ∀ m : Mem, (taskAt m h.tasks.currentTask).stack = 0 →
      taskAllocs m [h.tasks.currentTask] ++ live = (h.tasks.currentTask, taskSize) :: live :=
    fun m hm => by simp [taskAllocs, allocsOf, hm]
  have hheaders := (hkept.trans hblocks).headers
  have hheap := hrep'.heap
  have hstart := hinv.start
  rw [hallocs _ hstack₀] at hheaders
  rw [hallocs _ hstack'] at hheap
  rw [← (hinv.boot _ hboot).1] at hstart
  exact hstart.used_congr hheap hheaders e

/-! ## What holds in every history -/

/-- The task memory is accounted for.  `live` and `T₀` are the allocations of the
rest of the kernel and the state right after `task_init`. -/
structure BootHistory.Accounted (live : List (Nat × Nat)) (T₀ : Tasks σ) (h : BootHistory σ) :
    Prop where
  /-- The live blocks are those of the tasks on the cycle and those of the rest
  of the kernel. -/
  blocks : ∃ order, order.head? = some h.tasks.taskList ∧
    IsRing (taskNext h.tasks.heap.mem) order ∧
    HeapInv h.tasks.heap (order.flatMap h.blocksOf ++ live)
  /-- `task_create` frees only live blocks of the scheduler. -/
  create_frees : ∀ c ∈ taskCreateCalls h.tasks,
    FreesLive live h.tasks.currentTask (taskAt h.tasks.heap.mem h.tasks.currentTask).stack c
  /-- So does `schedule`, and none of the task that calls it. -/
  schedule_frees : ∀ c ∈ scheduleCalls h.tasks,
    FreesLive live h.tasks.currentTask (taskAt h.tasks.heap.mem h.tasks.currentTask).stack c
  /-- So does `task_exit`. -/
  exit_frees : ∀ c ∈ taskExitCalls h.tasks,
    FreesLive live h.tasks.currentTask (taskAt h.tasks.heap.mem h.tasks.currentTask).stack c
  /-- If the boot task calls `schedule` when every other task has exited, the
  used blocks are those from before the first `task_create`. -/
  balance : h.boot = some h.tasks.currentTask →
    (∀ x ∈ h.members, x ≠ h.tasks.currentTask →
      (taskAt h.tasks.heap.mem x).state = taskDead) →
    ∀ rsp r, schedule rsp h.tasks = some r → ∀ e, e ∈ r.tasks.heap.used ↔ e ∈ T₀.heap.used

/-- In every history of calls of `task_create`, `schedule` and `task_exit` after
`task_init` the memory of the tasks is neither leaked nor freed twice or too
early. -/
theorem task_memory {h : BootHistory σ} (hr : Reachable (BootHistory.Start live T₀) BootStep h) :
    h.Accounted live T₀ := by
  obtain ⟨order, hinv⟩ := BootHistory.inv_of_reachable hr
  obtain ⟨hrep, -, hstates⟩ := hinv.holds
  constructor
  case blocks =>
    refine ⟨order, hrep.head, hrep.ring, ?_⟩
    rw [← hinv.allocs]
    exact hrep.heap
  case create_frees => exact hrep.create_frees
  case schedule_frees =>
    obtain ⟨r, -, he⟩ := schedule_effect hrep hstates.current_ne_ready 0
    exact he.calls
  case exit_frees => exact hrep.exit_frees
  case balance => exact fun hboot hdead rsp r hs => hinv.balance hboot hdead hs

end

/-- The memory of the boot task and of a second task. -/
theorem task_memory_pair :
    (⟨⟨pairTasks, [0x200048, 0x200010], []⟩, some 0x200010⟩ : BootHistory Unit).Accounted
      [] bootTasks := by
  have hcur : bootTasks.currentTask = 0x200010 := by decide +kernel
  have hstart : BootHistory.Start [] bootTasks
      ⟨⟨bootTasks, [0x200010], []⟩, some 0x200010⟩ :=
    ⟨_, .init ⟨_, _, rfl⟩, taskInit_bootTasks, by decide +kernel, by rw [hcur]⟩
  exact task_memory (.step (.init hstart) ⟨.create taskCreate_pairTasks (by decide), rfl⟩)

end TunaOs
