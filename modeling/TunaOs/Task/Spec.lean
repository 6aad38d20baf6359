import TunaOs.Kheap.Safety
import TunaOs.Task.Model

/-!
# What the task operations do

`TaskRep T order other` says that the task list is the ring `order`, read from
`task_list`, and that the heap holds one block for each task control block, one
for each stack, and the allocations `other` of the rest of the kernel.  Each
operation has one specification in terms of `order`: `task_create` appends,
`task_destroy` removes, and `schedule` removes the dead tasks and switches to
the first ready task after the current one.
-/

namespace TunaOs

open Circular (IsRing)

/-! ## Reading and writing task control blocks -/

/-- The memories differ at most in the task control block at `t`. -/
def TcbOnly (m m' : Mem) (t : Nat) : Prop := ∀ x, x < t ∨ t + taskSize ≤ x → m' x = m x

theorem TcbOnly.trans {m m' m'' : Mem} {t : Nat} (h : TcbOnly m m' t) (h' : TcbOnly m' m'' t) :
    TcbOnly m m'' t := fun x hx => (h' x hx).trans (h x hx)

theorem taskAt_congr {m m' : Mem} {t : Nat}
    (h : ∀ x, t ≤ x → x < t + taskSize → m' x = m x) : taskAt m' t = taskAt m t := by
  simp only [taskSize] at h
  have hid : m'.load t 8 = m.load t 8 :=
    Mem.load_congr fun x h1 h2 => h x (by omega) (by omega)
  have hload : ∀ k n, k + n ≤ 40 → m'.load (t + k) n = m.load (t + k) n := fun k n hk =>
    Mem.load_congr fun x h1 h2 => h x (by omega) (by omega)
  simp only [taskAt, hid, hload 8 8 (by decide), hload 16 4 (by decide), hload 24 8 (by decide),
    hload 32 8 (by decide)]

theorem TcbOnly.taskAt_other {m m' : Mem} {t x : Nat} (h : TcbOnly m m' t)
    (hx : x + taskSize ≤ t ∨ t + taskSize ≤ x) : taskAt m' x = taskAt m x :=
  taskAt_congr fun y h1 h2 => h y (by omega)

section

variable {m : Mem} {t v : Nat}

theorem tcbOnly_setTaskId : TcbOnly m (setTaskId m t v) t := fun _ hx =>
  Mem.store_other (by simp only [taskSize] at hx; omega)

theorem tcbOnly_setTaskRsp : TcbOnly m (setTaskRsp m t v) t := fun _ hx =>
  Mem.store_other (by simp only [taskSize] at hx; omega)

theorem tcbOnly_setTaskState : TcbOnly m (setTaskState m t v) t := fun _ hx =>
  Mem.store_other (by simp only [taskSize] at hx; omega)

theorem tcbOnly_setTaskStack : TcbOnly m (setTaskStack m t v) t := fun _ hx =>
  Mem.store_other (by simp only [taskSize] at hx; omega)

theorem tcbOnly_setTaskNext : TcbOnly m (setTaskNext m t v) t := fun _ hx =>
  Mem.store_other (by simp only [taskSize] at hx; omega)

theorem taskAt_setTaskRsp :
    taskAt (setTaskRsp m t v) t = { taskAt m t with rsp := v % 256 ^ 8 } := by
  simp (disch := omega) only [taskAt, setTaskRsp, Mem.load_store_self, Mem.load_store_other]

theorem taskAt_setTaskState (hv : v < 2 ^ 32) :
    taskAt (setTaskState m t v) t = { taskAt m t with state := v } := by
  simp (disch := omega) only [taskAt, setTaskState, Mem.load_store_self, Mem.load_store_other,
    Nat.mod_eq_of_lt]

theorem taskAt_setTaskStack (hv : v < 2 ^ 64) :
    taskAt (setTaskStack m t v) t = { taskAt m t with stack := v } := by
  simp (disch := omega) only [taskAt, setTaskStack, Mem.load_store_self, Mem.load_store_other,
    Nat.mod_eq_of_lt]

theorem taskAt_setTaskNext (hv : v < 2 ^ 64) :
    taskAt (setTaskNext m t v) t = { taskAt m t with next := v } := by
  simp (disch := omega) only [taskAt, setTaskNext, Mem.load_store_self, Mem.load_store_other,
    Nat.mod_eq_of_lt]

end

/-- The tasks agree in every field but `next`. -/
def SameTask (a b : Task) : Prop := b = { a with next := b.next }

theorem SameTask.state {a b : Task} (h : SameTask a b) : b.state = a.state := by rw [h]

theorem SameTask.stack {a b : Task} (h : SameTask a b) : b.stack = a.stack := by rw [h]

theorem SameTask.refl (a : Task) : SameTask a a := rfl

theorem SameTask.trans {a b c : Task} (h : SameTask a b) (h' : SameTask b c) : SameTask a c := by
  rw [SameTask, h', h]

/-! ## The task list in memory -/

-- from here on control blocks are read through the lemmas above
attribute [local irreducible] taskAt

/-- The allocations of one task: its control block and, but for the boot task,
its stack. -/
def allocsOf (m : Mem) (t : Nat) : List (Nat × Nat) :=
  (t, taskSize) ::
    if (taskAt m t).stack = 0 then [] else [((taskAt m t).stack, taskStackSize)]

/-- The allocations of the tasks of a list. -/
def taskAllocs (m : Mem) (order : List Nat) : List (Nat × Nat) := order.flatMap (allocsOf m)

/-- The task list is the ring `order`, read from `task_list`, and the heap holds
the tasks and the allocations `other`. -/
structure TaskRep {σ : Type} (T : Tasks σ) (order : List Nat) (other : List (Nat × Nat)) :
    Prop where
  /-- Every block of the heap is a task's or one of the others. -/
  heap : HeapInv T.heap (taskAllocs T.heap.mem order ++ other)
  /-- The tasks are linked in a ring. -/
  ring : IsRing (taskNext T.heap.mem) order
  /-- The ring starts at `task_list`. -/
  head : order.head? = some T.taskList
  /-- The current task is in the ring. -/
  cur : T.currentTask ∈ order

theorem taskAllocs_congr {m m' : Mem} {order : List Nat}
    (h : ∀ x ∈ order, (taskAt m' x).stack = (taskAt m x).stack) :
    taskAllocs m' order = taskAllocs m order :=
  List.flatMap_congr fun x hx => by rw [allocsOf, h x hx, allocsOf]

/-- The tasks keep their stacks, and all blocks keep their sizes. -/
structure SameBlocks (m m' : Mem) (order : List Nat) (other : List (Nat × Nat)) : Prop where
  /-- The stacks. -/
  stack : ∀ x ∈ order, (taskAt m' x).stack = (taskAt m x).stack
  /-- The sizes. -/
  headers : HeadersKept m m' (taskAllocs m order ++ other)

theorem SameBlocks.refl (m : Mem) (order : List Nat) (other : List (Nat × Nat)) :
    SameBlocks m m order other := ⟨fun _ _ => rfl, .refl _ _⟩

theorem SameBlocks.trans {m m' m'' : Mem} {order : List Nat} {other : List (Nat × Nat)}
    (h : SameBlocks m m' order other) (h' : SameBlocks m' m'' order other) :
    SameBlocks m m'' order other := by
  refine ⟨fun x hx => (h'.stack x hx).trans (h.stack x hx), h.headers.trans ?_⟩
  rw [← taskAllocs_congr h.stack]
  exact h'.headers

theorem SameBlocks.mono {m m' : Mem} {order order' : List Nat} {other : List (Nat × Nat)}
    (h : SameBlocks m m' order other) (hsub : ∀ x ∈ order', x ∈ order) :
    SameBlocks m m' order' other := by
  refine ⟨fun x hx => h.stack x (hsub x hx), h.headers.mono fun e he => ?_⟩
  rcases List.mem_append.mp he with he | he
  · obtain ⟨x, hx, hex⟩ := List.mem_flatMap.mp he
    exact List.mem_append_left _ (List.mem_flatMap.mpr ⟨x, hsub x hx, hex⟩)
  · exact List.mem_append_right _ he

theorem mem_taskAllocs {m : Mem} {order : List Nat} {x : Nat} (hx : x ∈ order) :
    (x, taskSize) ∈ taskAllocs m order :=
  List.mem_flatMap.mpr ⟨x, hx, List.mem_cons_self⟩

theorem taskAllocs_append (m : Mem) (l₁ l₂ : List Nat) :
    taskAllocs m (l₁ ++ l₂) = taskAllocs m l₁ ++ taskAllocs m l₂ := List.flatMap_append

/-- The allocations with those of one task in front. -/
theorem taskAllocs_perm (m : Mem) (l₁ l₂ : List Nat) (t : Nat) (other : List (Nat × Nat)) :
    (taskAllocs m (l₁ ++ t :: l₂) ++ other).Perm
      (allocsOf m t ++ (taskAllocs m (l₁ ++ l₂) ++ other)) := by
  have hcons : taskAllocs m (t :: l₂) = allocsOf m t ++ taskAllocs m l₂ := List.flatMap_cons
  rw [taskAllocs_append, taskAllocs_append, hcons, ← List.append_assoc (allocsOf m t)]
  refine List.Perm.append_right other ?_
  rw [← List.append_assoc, ← List.append_assoc]
  exact List.Perm.append_right _ List.perm_append_comm

section

variable {σ : Type} {T : Tasks σ} {order : List Nat} {other : List (Nat × Nat)}

/-- The heap has room for fewer task control blocks than it has bytes. -/
theorem HeapInv.order_lt_walkFuel {h : Heap σ} {live : List (Nat × Nat)} (hinv : HeapInv h live)
    (hnd : order.Nodup) (hmem : ∀ x ∈ order, (x, taskSize) ∈ live) :
    order.length < h.walkFuel := by
  have hsub : order ⊆ live.map Prod.fst := fun x hx => List.mem_map.mpr ⟨_, hmem x hx, rfl⟩
  have hle := (List.subperm_of_subset hnd hsub).length_le
  rw [List.length_map] at hle
  exact Nat.lt_of_le_of_lt hle hinv.length_lt_walkFuel

theorem TaskRep.tcb (_ : TaskRep T order other) {x : Nat} (hx : x ∈ order) :
    (x, taskSize) ∈ taskAllocs T.heap.mem order ++ other :=
  List.mem_append_left _ (mem_taskAllocs hx)

/-- Control blocks of different tasks do not meet. -/
theorem TaskRep.apart (hr : TaskRep T order other) {x y : Nat} (hx : x ∈ order) (hy : y ∈ order)
    (hne : x ≠ y) : x + taskSize ≤ y ∨ y + taskSize ≤ x :=
  hr.heap.disjoint (hr.tcb hx) (hr.tcb hy) hne

theorem TaskRep.pos (hr : TaskRep T order other) {x : Nat} (hx : x ∈ order) : x ≠ 0 := by
  have := (hr.heap.bounds (hr.tcb hx)).1
  omega

theorem TaskRep.lt (hr : TaskRep T order other) {x : Nat} (hx : x ∈ order) : x < 2 ^ 32 := by
  have := hr.heap.bounds (hr.tcb hx)
  simp only [taskSize] at this
  omega

/-- The fuel of the walks is enough for the ring. -/
theorem TaskRep.length_le (hr : TaskRep T order other) : order.length < T.heap.walkFuel :=
  hr.heap.order_lt_walkFuel hr.ring.nodup fun _ hx => hr.tcb hx

/-- What writes to one task's control block do to the others. -/
theorem TaskRep.taskAt_other (hr : TaskRep T order other) {m' : Mem} {t x : Nat}
    (ht : t ∈ order) (h : TcbOnly T.heap.mem m' t) (hx : x ∈ order) (hne : x ≠ t) :
    taskAt m' x = taskAt T.heap.mem x :=
  h.taskAt_other (hr.apart hx ht hne)

/-- Writes to one task's control block that keep its `stack` field. -/
theorem TaskRep.write_blocks (hr : TaskRep T order other) {m' : Mem} {t : Nat} (ht : t ∈ order)
    (h : TcbOnly T.heap.mem m' t) (hs : (taskAt m' t).stack = (taskAt T.heap.mem t).stack) :
    SameBlocks T.heap.mem m' order other := by
  refine ⟨fun x hx => ?_, hr.heap.write_headers (hr.tcb ht) h⟩
  by_cases hxt : x = t
  · rw [hxt, hs]
  · rw [hr.taskAt_other ht h hx hxt]

/-- Writes to one task's control block that keep its `stack` field keep the
heap. -/
theorem TaskRep.heap_write (hr : TaskRep T order other) {m' : Mem} {t : Nat} (ht : t ∈ order)
    (h : TcbOnly T.heap.mem m' t) (hs : (taskAt m' t).stack = (taskAt T.heap.mem t).stack) :
    HeapInv (T.heap.withMem m') (taskAllocs m' order ++ other) := by
  rw [taskAllocs_congr (hr.write_blocks ht h hs).stack]
  exact hr.heap.write (hr.tcb ht) h

/-- Writes to one task's control block that keep its `stack` and `next` fields
keep the representation. -/
theorem TaskRep.write (hr : TaskRep T order other) {m' : Mem} {t : Nat} (ht : t ∈ order)
    (h : TcbOnly T.heap.mem m' t) (hs : (taskAt m' t).stack = (taskAt T.heap.mem t).stack)
    (hn : (taskAt m' t).next = (taskAt T.heap.mem t).next) :
    TaskRep (T.withMem m') order other := by
  refine ⟨hr.heap_write ht h hs, hr.ring.congr fun x hx => ?_, hr.head, hr.cur⟩
  by_cases hxt : x = t
  · rw [hxt]
    exact hn
  · exact congrArg Task.next (hr.taskAt_other ht h hx hxt)

/-- A write to the `state` field of a task. -/
theorem TaskRep.setState (hr : TaskRep T order other) {t v : Nat} (ht : t ∈ order)
    (hv : v < 2 ^ 32) :
    TaskRep (T.withMem (setTaskState T.heap.mem t v)) order other ∧
      SameBlocks T.heap.mem (setTaskState T.heap.mem t v) order other ∧
      ∀ x ∈ order, (taskAt (setTaskState T.heap.mem t v) x).state =
        if x = t then v else (taskAt T.heap.mem x).state := by
  have hself := taskAt_setTaskState (m := T.heap.mem) (t := t) hv
  refine ⟨hr.write ht tcbOnly_setTaskState (by rw [hself]) (by rw [hself]),
    hr.write_blocks ht tcbOnly_setTaskState (by rw [hself]), fun x hx => ?_⟩
  by_cases hxt : x = t
  · rw [hxt, hself, if_pos rfl]
  · rw [hr.taskAt_other ht tcbOnly_setTaskState hx hxt, if_neg hxt]

/-- A write to the `rsp` field of a task. -/
theorem TaskRep.setRsp (hr : TaskRep T order other) {t : Nat} (ht : t ∈ order) (v : Nat) :
    TaskRep (T.withMem (setTaskRsp T.heap.mem t v)) order other ∧
      SameBlocks T.heap.mem (setTaskRsp T.heap.mem t v) order other ∧
      ∀ x ∈ order, (taskAt (setTaskRsp T.heap.mem t v) x).state = (taskAt T.heap.mem x).state := by
  have hself := taskAt_setTaskRsp (m := T.heap.mem) (t := t) (v := v)
  refine ⟨hr.write ht tcbOnly_setTaskRsp (by rw [hself]) (by rw [hself]),
    hr.write_blocks ht tcbOnly_setTaskRsp (by rw [hself]), fun x hx => ?_⟩
  by_cases hxt : x = t
  · rw [hxt, hself]
  · rw [hr.taskAt_other ht tcbOnly_setTaskRsp hx hxt]

/-- The task list in a heap that has changed elsewhere. -/
theorem TaskRep.of_kept (hr : TaskRep T order other) {h' : Heap σ}
    (hinv : HeapInv h' (taskAllocs T.heap.mem order ++ other))
    (hkept : PayloadKept T.heap.mem h'.mem (taskAllocs T.heap.mem order ++ other)) :
    TaskRep { T with heap := h' } order other ∧
      ∀ x ∈ order, taskAt h'.mem x = taskAt T.heap.mem x := by
  have hsame : ∀ x ∈ order, taskAt h'.mem x = taskAt T.heap.mem x := fun x hx =>
    taskAt_congr (hkept x taskSize (hr.tcb hx))
  refine ⟨⟨?_, hr.ring.congr fun x hx => congrArg Task.next (hsame x hx), hr.head, hr.cur⟩, hsame⟩
  rw [← taskAllocs_congr fun x hx => congrArg Task.stack (hsame x hx)] at hinv
  exact hinv

/-- Writes to the stack of a task keep every control block. -/
theorem TaskRep.write_stack (hr : TaskRep T order other) {t : Nat} (ht : t ∈ order)
    (hne : (taskAt T.heap.mem t).stack ≠ 0) {m' : Mem}
    (hm : ∀ x, x < (taskAt T.heap.mem t).stack ∨
      (taskAt T.heap.mem t).stack + taskStackSize ≤ x → m' x = T.heap.mem x) :
    TaskRep (T.withMem m') order other ∧ SameBlocks T.heap.mem m' order other ∧
      ∀ x ∈ order, taskAt m' x = taskAt T.heap.mem x := by
  have hlive : ((taskAt T.heap.mem t).stack, taskStackSize) ∈
      taskAllocs T.heap.mem order ++ other := by
    refine List.mem_append_left _ (List.mem_flatMap.mpr ⟨t, ht, ?_⟩)
    rw [allocsOf, if_neg hne]
    simp
  have hsame : ∀ x ∈ order, taskAt m' x = taskAt T.heap.mem x := fun x hx => by
    have hxs : x ≠ (taskAt T.heap.mem t).stack := fun heq => by
      have := hr.heap.fst_inj (heq ▸ hr.tcb hx) hlive
      cases this
    have := hr.heap.disjoint (hr.tcb hx) hlive hxs
    exact taskAt_congr fun y h1 h2 => hm y (by omega)
  have hinv := hr.heap.write hlive hm
  rw [← taskAllocs_congr fun x hx => congrArg Task.stack (hsame x hx)] at hinv
  exact ⟨⟨hinv, hr.ring.congr fun x hx => congrArg Task.next (hsame x hx), hr.head, hr.cur⟩,
    ⟨fun x hx => congrArg Task.stack (hsame x hx), hr.heap.write_headers hlive hm⟩, hsame⟩

/-- A call of `kfree` on a live block that is none of the allocations `other`,
not the control block `cur` and not the stack `stack`. -/
def FreesLive (other : List (Nat × Nat)) (cur stack : Nat) (call : Heap σ × Nat) : Prop :=
  (∃ size live, HeapInv call.1 ((call.2, size) :: (live ++ other))) ∧
    call.2 ≠ cur ∧ call.2 ≠ stack

theorem freesLive_of_heapInv {h : Heap σ} {m : Mem} {p size cur : Nat} {live : List (Nat × Nat)}
    (hinv : HeapInv h ((p, size) :: (live ++ other))) (hcur : ∀ e ∈ allocsOf m cur, e ∈ live) :
    FreesLive other cur (taskAt m cur).stack (h, p) := by
  refine ⟨⟨size, live, hinv⟩, ?_, ?_⟩
  · exact (hinv.head_ne (List.mem_append_left _ (hcur _ List.mem_cons_self))).symm
  · by_cases h0 : (taskAt m cur).stack = 0
    · have := hinv.bounds List.mem_cons_self
      rw [h0]
      change p ≠ 0
      omega
    · have hstack : ((taskAt m cur).stack, taskStackSize) ∈ allocsOf m cur := by
        rw [allocsOf, if_neg h0]
        exact List.mem_cons_of_mem _ List.mem_cons_self
      exact (hinv.head_ne (List.mem_append_left _ (hcur _ hstack))).symm

/-! ## `task_init` and `task_create` -/

/-- The boot task is the only task after `task_init`, if memory was found for
it. -/
theorem taskInit_spec [HeapBacking σ] (T : Tasks σ) (hinv : HeapInv T.heap other) :
    taskInit T = some T ∨
      ∃ T', taskInit T = some T' ∧ TaskRep T' [T'.currentTask] other ∧
        (taskAt T'.heap.mem T'.currentTask).state = taskRunning ∧
        (taskAt T'.heap.mem T'.currentTask).stack = 0 := by
  rcases hinv.kmalloc taskSize (by decide) with hk | ⟨h, boot, hk, hne, hinv', -⟩
  · left
    rw [taskInit, hk]
    rfl
  · right
    have hb := hinv'.bounds List.mem_cons_self
    have hboot : boot < 2 ^ 64 := by
      simp only [taskSize] at hb
      omega
    obtain ⟨m', hm', honly, hat⟩ : ∃ m', m' = setTaskNext (setTaskStack (setTaskState
        (setTaskRsp (setTaskId h.mem boot T.nextId) boot 0) boot taskRunning) boot 0) boot boot ∧
        TcbOnly h.mem m' boot ∧ (taskAt m' boot).state = taskRunning ∧
        (taskAt m' boot).stack = 0 ∧ (taskAt m' boot).next = boot := by
      refine ⟨_, rfl, ?_, ?_⟩
      · exact (((tcbOnly_setTaskId.trans tcbOnly_setTaskRsp).trans tcbOnly_setTaskState).trans
          tcbOnly_setTaskStack).trans tcbOnly_setTaskNext
      · rw [taskAt_setTaskNext hboot, taskAt_setTaskStack (by decide),
          taskAt_setTaskState (by decide)]
        exact ⟨rfl, rfl, rfl⟩
    refine ⟨⟨h.withMem m', Word.wrap64 (T.nextId + 1), boot, boot⟩, ?_, ⟨?_, ?_, rfl, ?_⟩, hat.1,
      hat.2.1⟩
    · rw [taskInit, hk]
      simp only [if_neg hne, ← hm']
    · have hallocs : taskAllocs m' [boot] ++ other = (boot, taskSize) :: other := by
        simp [taskAllocs, allocsOf, hat.2.1]
      exact hallocs ▸ hinv'.write List.mem_cons_self honly
    · exact IsRing.single hat.2.2
    · exact List.mem_singleton_self _

theorem pushWords_spec : ∀ (vs : List Nat) (m : Mem) {sp : Nat}, 8 * vs.length ≤ sp →
    (pushWords vs m sp).2 = sp - 8 * vs.length ∧
      ∀ x, x < sp - 8 * vs.length ∨ sp ≤ x → (pushWords vs m sp).1 x = m x
  | [], _, _, _ => ⟨rfl, fun _ _ => rfl⟩
  | v :: vs, m, sp, h => by
      rw [List.length_cons] at h ⊢
      obtain ⟨h1, h2⟩ := pushWords_spec vs (m.store (sp - 8) 8 v) (show 8 * vs.length ≤ sp - 8 by
        omega)
      rw [pushWords]
      refine ⟨by omega, fun x hx => ?_⟩
      rw [h2 x (by omega), Mem.store_other (by omega)]

/-- A new task before it is linked: ready, with its stack, and nothing else has
changed. -/
theorem setupTask_spec {h : Heap σ} {live : List (Nat × Nat)} {t stack : Nat}
    (hinv : HeapInv h ((stack, taskStackSize) :: (t, taskSize) :: live))
    (id trampoline entry : Nat) :
    HeapInv (h.withMem (setupTask h.mem t stack id trampoline entry))
        ((stack, taskStackSize) :: (t, taskSize) :: live) ∧
      PayloadKept h.mem (setupTask h.mem t stack id trampoline entry) live ∧
      HeadersKept h.mem (setupTask h.mem t stack id trampoline entry)
        ((stack, taskStackSize) :: (t, taskSize) :: live) ∧
      (taskAt (setupTask h.mem t stack id trampoline entry) t).state = taskReady ∧
      (taskAt (setupTask h.mem t stack id trampoline entry) t).stack = stack := by
  have hstack : stack < 2 ^ 64 := by
    have := hinv.bounds List.mem_cons_self
    simp only [taskStackSize] at this
    omega
  have hmemT : (t, taskSize) ∈ (stack, taskStackSize) :: (t, taskSize) :: live := by simp
  have hne : t ≠ stack := hinv.head_ne List.mem_cons_self
  -- the control block, the stack, and the control block again
  have hA : TcbOnly h.mem
      (setTaskStack (setTaskState (setTaskId h.mem t id) t taskReady) t stack) t :=
    (tcbOnly_setTaskId.trans tcbOnly_setTaskState).trans tcbOnly_setTaskStack
  generalize hmA : setTaskStack (setTaskState (setTaskId h.mem t id) t taskReady) t stack = mA
    at hA
  have hatA : (taskAt mA t).state = taskReady ∧ (taskAt mA t).stack = stack := by
    rw [← hmA, taskAt_setTaskStack hstack, taskAt_setTaskState (by decide)]
    exact ⟨rfl, rfl⟩
  have hB : ∀ x, x < stack ∨ stack + taskStackSize ≤ x →
      (pushWords (initialWords trampoline entry) mA (stack + taskStackSize)).1 x = mA x := by
    have hlen : 8 * (initialWords trampoline entry).length = 56 := rfl
    intro x hx
    simp only [taskStackSize] at hx ⊢
    exact (pushWords_spec _ mA (by omega)).2 x (by omega)
  have hset : setupTask h.mem t stack id trampoline entry = setTaskRsp
      (pushWords (initialWords trampoline entry) mA (stack + taskStackSize)).1 t
      (pushWords (initialWords trampoline entry) mA (stack + taskStackSize)).2 := by
    rw [← hmA]
    rfl
  generalize (pushWords (initialWords trampoline entry) mA (stack + taskStackSize)).1 = mB
    at hB hset
  have hC := tcbOnly_setTaskRsp (m := mB) (t := t)
    (v := (pushWords (initialWords trampoline entry) mA (stack + taskStackSize)).2)
  rw [hset]
  have hapart := hinv.disjoint hmemT List.mem_cons_self hne
  have hinvA := hinv.write hmemT hA
  have hinvB := hinvA.write List.mem_cons_self hB
  refine ⟨hinvB.write hmemT hC, ?_, ?_, ?_⟩
  · intro p s hp x hx1 hx2
    have hp' : (p, s) ∈ (stack, taskStackSize) :: (t, taskSize) :: live := by simp [hp]
    have hpt : p ≠ t := (hinv.perm (List.Perm.swap _ _ _)).head_ne (List.mem_cons_of_mem _ hp)
    have hps : p ≠ stack := hinv.head_ne (List.mem_cons_of_mem _ hp)
    have ht := hinv.disjoint hp' hmemT hpt
    have hs := hinv.disjoint hp' List.mem_cons_self hps
    rw [hC x (by omega), hB x (by omega), hA x (by omega)]
  · exact ((hinv.write_headers hmemT hA).trans (hinvA.write_headers List.mem_cons_self hB)).trans
      (hinvB.write_headers hmemT hC)
  · have hatB : taskAt mB t = taskAt mA t := taskAt_congr fun x hx1 hx2 => hB x (by omega)
    rw [taskAt_setTaskRsp, hatB]
    exact hatA

/-- The two writes `tail->next = t` and `t->next = task_list`. -/
theorem taskAt_linked {m : Mem} {members : List Nat} {tail t L : Nat}
    (hapart : ∀ x ∈ members, ∀ y ∈ members, x ≠ y → x + taskSize ≤ y ∨ y + taskSize ≤ x)
    (hlt : ∀ x ∈ members, x < 2 ^ 64) (ht : t ∈ members) (htail : tail ∈ members)
    (hL : L ∈ members) {x : Nat} (hx : x ∈ members) :
    taskAt (setTaskNext (setTaskNext m tail t) t L) x = { taskAt m x with
      next := if x = t then L else if x = tail then t else (taskAt m x).next } := by
  have hfirst : ∀ x ∈ members, taskAt (setTaskNext m tail t) x =
      { taskAt m x with next := if x = tail then t else (taskAt m x).next } := by
    intro x hx
    by_cases hxt : x = tail
    · rw [hxt, taskAt_setTaskNext (hlt t ht), if_pos rfl]
    · rw [tcbOnly_setTaskNext.taskAt_other (hapart x hx tail htail hxt), if_neg hxt]
  by_cases hxt : x = t
  · rw [hxt, taskAt_setTaskNext (hlt L hL), hfirst t ht, if_pos rfl]
  · rw [tcbOnly_setTaskNext.taskAt_other (hapart x hx t ht hxt), hfirst x hx, if_neg hxt]

/-- Linking a task behind the last one. -/
theorem linkTask_spec {h : Heap σ} {t stack : Nat} {L : Nat}
    (hinv : HeapInv h
      ((stack, taskStackSize) :: (t, taskSize) :: (taskAllocs h.mem order ++ other)))
    (hring : IsRing (taskNext h.mem) order) (hhead : order.head? = some L)
    (hstack : (taskAt h.mem t).stack = stack) :
    ∃ tail, Circular.findPrev (taskNext h.mem) L h.walkFuel L = some tail ∧
      HeapInv (h.withMem (setTaskNext (setTaskNext h.mem tail t) t L))
        (taskAllocs (setTaskNext (setTaskNext h.mem tail t) t L) (order ++ [t]) ++ other) ∧
      IsRing (taskNext (setTaskNext (setTaskNext h.mem tail t) t L)) (order ++ [t]) ∧
      t ∉ order ∧
      HeadersKept h.mem (setTaskNext (setTaskNext h.mem tail t) t L)
        ((stack, taskStackSize) :: (t, taskSize) :: (taskAllocs h.mem order ++ other)) ∧
      ∀ x ∈ order ++ [t],
        SameTask (taskAt h.mem x) (taskAt (setTaskNext (setTaskNext h.mem tail t) t L) x) := by
  have hlive : ∀ x ∈ order ++ [t], (x, taskSize) ∈
      (stack, taskStackSize) :: (t, taskSize) :: (taskAllocs h.mem order ++ other) := by
    intro x hx
    rcases List.mem_append.mp hx with hx | hx
    · simp [mem_taskAllocs hx]
    · simp [List.mem_singleton.mp hx]
  have hfresh : t ∉ order := fun ht =>
    (hinv.perm (List.Perm.swap _ _ _)).head_ne
      (List.mem_cons_of_mem _ (List.mem_append_left _ (mem_taskAllocs ht))) rfl
  have hL : L ∈ order := List.mem_of_mem_head? hhead
  have hlt : ∀ x ∈ order ++ [t], x < 2 ^ 64 := fun x hx => by
    have := hinv.bounds (hlive x hx)
    simp only [taskSize] at this
    omega
  have hfuel := hinv.order_lt_walkFuel hring.nodup fun x hx =>
    hlive x (List.mem_append_left _ hx)
  obtain ⟨tail, hfind, htail, hnext⟩ := hring.findPrev hL hL (Nat.le_of_lt hfuel)
  obtain ⟨l, p, rfl⟩ : ∃ l p, order = l ++ [p] :=
    ⟨_, _, (List.dropLast_append_getLast (List.ne_nil_of_mem htail)).symm⟩
  obtain rfl : tail = p := hring.next_inj htail (by simp)
    (hnext.trans (hring.next_last hhead).symm)
  have htne : t ≠ tail := fun heq => hfresh (heq ▸ htail)
  have ht : t ∈ l ++ [tail] ++ [t] := by simp
  have htail' : tail ∈ l ++ [tail] ++ [t] := by simp
  have hat₂ : ∀ x ∈ l ++ [tail] ++ [t],
      taskAt (setTaskNext (setTaskNext h.mem tail t) t L) x = { taskAt h.mem x with
        next := if x = t then L else if x = tail then t else (taskAt h.mem x).next } := fun x hx =>
    taskAt_linked (fun x hx y hy hne => hinv.disjoint (hlive x hx) (hlive y hy) hne) hlt ht htail'
      (List.mem_append_left _ hL) hx
  have hinv₁ := hinv.write (hlive tail htail') (tcbOnly_setTaskNext (v := t))
  have hinv₂ := hinv₁.write (hlive t ht) (tcbOnly_setTaskNext (v := L))
  have hheaders := (hinv.write_headers (hlive tail htail') (tcbOnly_setTaskNext (v := t))).trans
    (hinv₁.write_headers (hlive t ht) (tcbOnly_setTaskNext (v := L)))
  refine ⟨tail, hfind, ?_, ?_, hfresh, hheaders, fun x hx => ?_⟩
  · have hallocs : taskAllocs (setTaskNext (setTaskNext h.mem tail t) t L) (l ++ [tail] ++ [t])
        = taskAllocs h.mem (l ++ [tail] ++ [t]) :=
      taskAllocs_congr fun x hx => by rw [hat₂ x hx]
    rw [hallocs]
    refine HeapInv.perm hinv₂ (List.Perm.symm ?_)
    have hperm := taskAllocs_perm h.mem (l ++ [tail]) [] t other
    have hof : allocsOf h.mem t = [(t, taskSize), (stack, taskStackSize)] := by
      rw [allocsOf, hstack, if_neg]
      have := hinv.bounds List.mem_cons_self
      omega
    rw [hof, List.append_nil] at hperm
    exact hperm.trans (List.Perm.swap _ _ _)
  · refine hring.insert hhead hfresh (fun x hx => ?_) ?_ ?_
    · have hxo : x ∈ l ++ [tail] ++ [t] := by simp [hx]
      have hxt : x ≠ t := fun heq => hfresh (heq ▸ List.mem_append_left _ hx)
      have hxtail : x ≠ tail := fun heq => by
        have hnd := List.nodup_append.mp hring.nodup
        exact hnd.2.2 x hx tail (List.mem_singleton_self _) heq
      rw [taskNext, hat₂ x hxo, if_neg hxt, if_neg hxtail]
      rfl
    · rw [taskNext, hat₂ tail htail', if_neg (Ne.symm htne), if_pos rfl]
    · rw [taskNext, hat₂ t ht, if_pos rfl]
  · rw [hat₂ x hx]
    rfl

section

variable [HeapBacking σ]

/-- Both allocations of `task_create` succeed, with `h₂` the heap after them. -/
structure TaskBlocks (h h₂ : Heap σ) (live : List (Nat × Nat)) (t stack : Nat) : Prop where
  /-- The control block and then the stack are allocated. -/
  allocs : ∃ h₁, kmalloc h taskSize = some (h₁, t) ∧ kmalloc h₁ taskStackSize = some (h₂, stack)
  /-- There is a control block. -/
  tcb_ne : t ≠ 0
  /-- There is a stack. -/
  stack_ne : stack ≠ 0
  /-- Both are live. -/
  inv : HeapInv h₂ ((stack, taskStackSize) :: (t, taskSize) :: live)
  /-- The blocks that were live are kept. -/
  kept : BlocksKept h.mem h₂.mem live

/-- `task_create` fails and leaves the live blocks alone, or has its two blocks. -/
theorem taskCreate_blocks {live : List (Nat × Nat)} (hinv : HeapInv T.heap live)
    (trampoline entry : Nat) :
    (∃ h', taskCreate trampoline entry T = some ({ T with heap := h' }, 0) ∧ HeapInv h' live ∧
      BlocksKept T.heap.mem h'.mem live) ∨
    ∃ h₂ t stack, TaskBlocks T.heap h₂ live t stack := by
  rcases hinv.kmalloc taskSize (by decide) with hk | ⟨h₁, t, hk, hne, hinv₁, hkept₁⟩
  · refine Or.inl ⟨T.heap, ?_, hinv, fun _ _ _ _ _ _ => rfl⟩
    rw [taskCreate, hk]
    rfl
  rcases hinv₁.kmalloc taskStackSize (by decide) with
    hk₂ | ⟨h₂, stack, hk₂, hne₂, hinv₂, hkept₂⟩
  · -- no stack: the control block is given back
    obtain ⟨m₃, hk₃, hinv₃, hkept₃⟩ := hinv₁.kfree_head
    refine Or.inl ⟨h₁.withMem m₃, ?_, hinv₃, hkept₁.trans hkept₃⟩
    rw [taskCreate, hk]
    simp only [if_neg hne, hk₂, if_true, hk₃]
  · exact Or.inr ⟨h₂, t, stack, ⟨h₁, hk, hk₂⟩, hne, hne₂, hinv₂,
      hkept₁.trans (hkept₂.mono fun _ he => List.mem_cons_of_mem _ he)⟩

section

variable {h₂ : Heap σ} {live : List (Nat × Nat)} {t stack : Nat}

/-- With both blocks, a task is linked behind the last one. -/
theorem TaskBlocks.taskCreate_linked (hb : TaskBlocks T.heap h₂ live t stack)
    (trampoline entry tail : Nat) (hlist : T.taskList ≠ 0)
    (hfind : Circular.findPrev (taskNext (setupTask h₂.mem t stack T.nextId trampoline entry))
      T.taskList h₂.walkFuel T.taskList = some tail) :
    taskCreate trampoline entry T = some
      ({ T with
          heap := h₂.withMem (setTaskNext (setTaskNext
            (setupTask h₂.mem t stack T.nextId trampoline entry) tail t) t T.taskList)
          nextId := Word.wrap64 (T.nextId + 1) }, t) := by
  obtain ⟨h₁, hk, hk₂⟩ := hb.allocs
  rw [taskCreate, hk]
  simp only [if_neg hb.tcb_ne, hk₂, if_neg hb.stack_ne, if_pos hlist, hfind]

/-- With both blocks, the first task is linked to itself. -/
theorem TaskBlocks.taskCreate_first (hb : TaskBlocks T.heap h₂ live t stack)
    (trampoline entry : Nat) (hlist : T.taskList = 0) :
    taskCreate trampoline entry T = some
      ({ T with
          heap := h₂.withMem (setTaskNext
            (setupTask h₂.mem t stack T.nextId trampoline entry) t t)
          nextId := Word.wrap64 (T.nextId + 1)
          taskList := t }, t) := by
  obtain ⟨h₁, hk, hk₂⟩ := hb.allocs
  rw [taskCreate, hk]
  simp only [if_neg hb.tcb_ne, hk₂, if_neg hb.stack_ne, if_neg (not_not.mpr hlist)]

end

/-- `task_create` fails and changes no task, or it appends a ready task. -/
theorem taskCreate_spec (hr : TaskRep T order other) (trampoline entry : Nat) :
    (∃ h', taskCreate trampoline entry T = some ({ T with heap := h' }, 0) ∧
      TaskRep { T with heap := h' } order other ∧
      HeadersKept T.heap.mem h'.mem (taskAllocs T.heap.mem order ++ other) ∧
      ∀ x ∈ order, taskAt h'.mem x = taskAt T.heap.mem x) ∨
    (∃ h' t, taskCreate trampoline entry T
          = some ({ T with heap := h', nextId := Word.wrap64 (T.nextId + 1) }, t) ∧
      t ≠ 0 ∧ t ∉ order ∧
      TaskRep { T with heap := h', nextId := Word.wrap64 (T.nextId + 1) } (order ++ [t]) other ∧
      HeadersKept T.heap.mem h'.mem (taskAllocs T.heap.mem order ++ other) ∧
      (taskAt h'.mem t).stack ≠ 0 ∧ (taskAt h'.mem t).state = taskReady ∧
      ∀ x ∈ order, SameTask (taskAt T.heap.mem x) (taskAt h'.mem x)) := by
  rcases taskCreate_blocks hr.heap trampoline entry with
    ⟨h', hc, hinv', hkept⟩ | ⟨h₂, t, stack, hb⟩
  · obtain ⟨hr', hsame⟩ := hr.of_kept hinv' hkept.payload
    exact Or.inl ⟨h', hc, hr', hr.heap.headers (fun _ he => he) hkept, hsame⟩
  have hheaders₂ := hr.heap.headers (fun _ he => he) hb.kept
  have hcreate := fun tail =>
    hb.taskCreate_linked trampoline entry tail (hr.pos (List.mem_of_mem_head? hr.head))
  obtain ⟨hinv₃, hkept₃, hheaders₃, hstate, hstack⟩ :=
    setupTask_spec hb.inv T.nextId trampoline entry
  generalize setupTask h₂.mem t stack T.nextId trampoline entry = m₃
    at hcreate hinv₃ hkept₃ hheaders₃ hstate hstack
  have hsame₃ : ∀ x ∈ order, taskAt m₃ x = taskAt T.heap.mem x := fun x hx =>
    taskAt_congr fun y h1 h2 => (hkept₃ x taskSize (hr.tcb hx) y h1 h2).trans
      (hb.kept.payload x taskSize (hr.tcb hx) y h1 h2)
  have hallocs : taskAllocs m₃ order = taskAllocs T.heap.mem order :=
    taskAllocs_congr fun x hx => congrArg Task.stack (hsame₃ x hx)
  rw [← hallocs] at hinv₃
  obtain ⟨tail, hfind, hinv₄, hring₄, hfresh, hheaders₄, hsame₄⟩ := linkTask_spec hinv₃
    (hr.ring.congr fun x hx => congrArg Task.next (hsame₃ x hx)) hr.head hstack
  refine Or.inr ⟨_, t, hcreate tail hfind, hb.tcb_ne, hfresh, ⟨hinv₄, hring₄, ?_, ?_⟩, ?_, ?_, ?_,
    ?_⟩
  · rw [List.head?_append, hr.head]
    rfl
  · exact List.mem_append_left _ hr.cur
  · rw [Heap.withMem_mem, hallocs] at hheaders₄
    exact hheaders₂.trans ((hheaders₃.trans hheaders₄).mono fun e he =>
      List.mem_cons_of_mem _ (List.mem_cons_of_mem _ he))
  · have hst := (hsame₄ t (by simp)).stack
    rw [Heap.withMem_mem, hstack] at hst
    exact fun h0 => hb.stack_ne (hst.symm.trans h0)
  · exact (hsame₄ t (by simp)).state.trans hstate
  · intro x hx
    have := hsame₄ x (List.mem_append_left _ hx)
    rwa [Heap.withMem_mem, hsame₃ x hx] at this

end

/-! ## `task_destroy` -/

/-- Task `x` after task `t` has been taken out of the list. -/
def unlinked (m : Mem) (t x : Nat) : Task :=
  { taskAt m x with next := if taskNext m x = t then taskNext m t else taskNext m x }

theorem next_unlinked (m : Mem) (t x : Nat) : (unlinked m t x).next =
    if taskNext m x = t then taskNext m t else taskNext m x := rfl

theorem unlinkTask_spec {l₁ l₂ : List Nat} {t : Nat} (hr : TaskRep T (l₁ ++ t :: l₂) other)
    (hcur : T.currentTask ≠ t) :
    ∃ m' L, unlinkTask T t = some ((T.withMem m').withList L) ∧
      (l₁ ++ l₂).head? = some L ∧ IsRing (taskNext m') (l₁ ++ l₂) ∧
      HeapInv (T.heap.withMem m') (taskAllocs m' (l₁ ++ t :: l₂) ++ other) ∧
      SameBlocks T.heap.mem m' (l₁ ++ t :: l₂) other ∧
      ∀ x ∈ l₁ ++ l₂, taskAt m' x = unlinked T.heap.mem t x := by
  have ht : t ∈ l₁ ++ t :: l₂ := by simp
  have hself : taskNext T.heap.mem t ≠ t := hr.ring.next_ne ht hr.cur hcur
  have hlist : T.taskList ∈ l₁ ++ t :: l₂ := List.mem_of_mem_head? hr.head
  obtain ⟨prev, hprev, hmem, hnext⟩ :=
    hr.ring.findPrev hlist ht (Nat.le_of_lt hr.length_le)
  have hpt : prev ≠ t := fun heq => hself (heq ▸ hnext)
  have hmem' : ∀ x ∈ l₁ ++ l₂, x ∈ l₁ ++ t :: l₂ := fun x hx => by
    simp only [List.mem_append, List.mem_cons] at hx ⊢
    exact hx.imp_right Or.inr
  have hnt : taskNext T.heap.mem t < 2 ^ 64 :=
    Nat.lt_trans (hr.lt (hr.ring.next_mem ht)) (by decide)
  -- the one write: `prev->next = t->next`
  have hself' := taskAt_setTaskNext (m := T.heap.mem) (t := prev) hnt
  have hother : ∀ x ∈ l₁ ++ t :: l₂, x ≠ prev →
      taskAt (setTaskNext T.heap.mem prev (taskNext T.heap.mem t)) x = taskAt T.heap.mem x :=
    fun x hx hne => hr.taskAt_other hmem tcbOnly_setTaskNext hx hne
  have hall : ∀ x ∈ l₁ ++ l₂,
      taskAt (setTaskNext T.heap.mem prev (taskNext T.heap.mem t)) x
        = unlinked T.heap.mem t x := by
    intro x hx
    by_cases hxp : x = prev
    · rw [hxp, hself', unlinked, if_pos hnext]
    · have hne : taskNext T.heap.mem x ≠ t := fun heq =>
        hxp (hr.ring.next_inj (hmem' x hx) hmem (heq.trans hnext.symm))
      rw [hother x (hmem' x hx) hxp, unlinked, if_neg hne]
      rfl
  have hne : l₂ ++ l₁ ≠ [] := by
    intro hnil
    obtain ⟨rfl, rfl⟩ := List.append_eq_nil_iff.mp hnil
    exact hcur (by simpa using hr.cur)
  have hring : IsRing (taskNext (setTaskNext T.heap.mem prev (taskNext T.heap.mem t)))
      (l₁ ++ l₂) := by
    refine hr.ring.remove hne fun x hx => ?_
    rw [← next_unlinked, ← hall x hx]
    rfl
  have hL : (l₁ ++ l₂).head? = some (if T.taskList = t then
      taskNext (setTaskNext T.heap.mem prev (taskNext T.heap.mem t)) t else T.taskList) := by
    have hnt' : taskNext (setTaskNext T.heap.mem prev (taskNext T.heap.mem t)) t
        = taskNext T.heap.mem t := congrArg Task.next (hother t ht (Ne.symm hpt))
    rw [hnt']
    cases l₁ with
    | nil =>
        obtain rfl : t = T.taskList := by simpa using hr.head
        rw [if_pos rfl]
        cases l₂ with
        | nil => exact absurd rfl hne
        | cons b l₂ => simp [hr.ring.next_first]
    | cons a l₁ =>
        obtain rfl : a = T.taskList := by simpa using hr.head
        have hat : T.taskList ≠ t := fun heq => by
          have hnd := hr.ring.nodup
          rw [heq] at hnd
          simp at hnd
        rw [if_neg hat]
        rfl
  refine ⟨_, _, ?_, hL, hring, hr.heap_write hmem tcbOnly_setTaskNext (by rw [hself']),
    hr.write_blocks hmem tcbOnly_setTaskNext (by rw [hself']), hall⟩
  rw [unlinkTask, if_neg hself, hprev]

/-- The members of a list without repetitions after one has been taken out. -/
theorem mem_middle {l₁ l₂ : List Nat} {t x : Nat} (hnd : (l₁ ++ t :: l₂).Nodup) :
    x ∈ l₁ ++ l₂ ↔ x ∈ l₁ ++ t :: l₂ ∧ x ≠ t := by
  have hnot := (List.nodup_cons.mp (List.nodup_middle.mp hnd)).1
  rw [List.perm_middle.mem_iff, List.mem_cons]
  constructor
  · exact fun hx => ⟨Or.inr hx, fun heq => hnot (heq ▸ hx)⟩
  · rintro ⟨rfl | hx, hne⟩
    · exact absurd rfl hne
    · exact hx

/-- The stack of a task is given back, if it has one. -/
theorem freeStack_spec {h : Heap σ} {own : List (Nat × Nat)} {t cur : Nat}
    (hinv : HeapInv h (allocsOf h.mem t ++ (own ++ other)))
    (hcur : ∀ e ∈ allocsOf h.mem cur, e ∈ own) :
    ∃ m', freeStack h (taskAt h.mem t).stack = some (h.withMem m') ∧
      HeapInv (h.withMem m') ((t, taskSize) :: (own ++ other)) ∧
      BlocksKept h.mem m' ((t, taskSize) :: (own ++ other)) ∧
      ∀ c ∈ freeStackCalls h (taskAt h.mem t).stack,
        FreesLive other cur (taskAt h.mem cur).stack c := by
  by_cases hs : (taskAt h.mem t).stack = 0
  · refine ⟨h.mem, by rw [freeStack, if_neg (not_not.mpr hs)]; rfl, ?_, fun _ _ _ _ _ _ => rfl, ?_⟩
    · rw [allocsOf, if_pos hs] at hinv
      exact hinv
    · intro c hc
      rw [freeStackCalls, if_neg (not_not.mpr hs)] at hc
      exact absurd hc List.not_mem_nil
  · have hperm : HeapInv h
        (((taskAt h.mem t).stack, taskStackSize) :: (((t, taskSize) :: own) ++ other)) := by
      refine HeapInv.perm hinv ?_
      rw [allocsOf, if_neg hs]
      exact List.Perm.swap _ _ _
    obtain ⟨m', hk, hinv', hkept⟩ := hperm.kfree_head
    refine ⟨m', by rw [freeStack, if_pos hs, hk], hinv', hkept, ?_⟩
    intro c hc
    rw [freeStackCalls, if_pos hs, List.mem_singleton] at hc
    subst hc
    exact freesLive_of_heapInv hperm fun e he => List.mem_cons_of_mem _ (hcur e he)

/-- `task_destroy` of a task other than the current one. -/
theorem taskDestroy_spec {l₁ l₂ : List Nat} {t : Nat} (hr : TaskRep T (l₁ ++ t :: l₂) other)
    (hcur : T.currentTask ≠ t) :
    ∃ m' L, taskDestroy T t = some ((T.withMem m').withList L) ∧
      TaskRep ((T.withMem m').withList L) (l₁ ++ l₂) other ∧
      SameBlocks T.heap.mem m' (l₁ ++ l₂) other ∧
      (∀ c ∈ taskDestroyCalls T t,
        FreesLive other T.currentTask (taskAt T.heap.mem T.currentTask).stack c) ∧
      ∀ x ∈ l₁ ++ l₂, taskAt m' x = unlinked T.heap.mem t x := by
  obtain ⟨m₁, L, hunlink, hhead, hring, hheap, hblocks, hall⟩ := unlinkTask_spec hr hcur
  have hperm := hheap.perm (taskAllocs_perm m₁ l₁ l₂ t other)
  have ht0 := hr.pos (show t ∈ l₁ ++ t :: l₂ by simp)
  have hcur' : T.currentTask ∈ l₁ ++ l₂ := by
    have := hr.cur
    simp only [List.mem_append, List.mem_cons, hcur, false_or] at this ⊢
    exact this
  have hallocsOf : ∀ e ∈ allocsOf m₁ T.currentTask, e ∈ taskAllocs m₁ (l₁ ++ l₂) := fun e he =>
    List.mem_flatMap.mpr ⟨_, hcur', he⟩
  rw [← hblocks.stack _ hr.cur]
  -- first the stack, if there is one
  obtain ⟨m₂, hk₂, hinv₂, hkept₂, hcalls₂⟩ := freeStack_spec hperm hallocsOf
  simp only [Heap.withMem_withMem, Heap.withMem_mem] at hk₂ hinv₂ hkept₂ hcalls₂
  -- then the control block
  obtain ⟨m₃, hk₃, hinv₃, hkept₃⟩ := hinv₂.kfree_head
  have hkept : BlocksKept m₁ m₃ (taskAllocs m₁ (l₁ ++ l₂) ++ other) := fun p s hp x h1 h2 =>
    (hkept₃ p s hp x h1 h2).trans (hkept₂ p s (List.mem_cons_of_mem _ hp) x h1 h2)
  have hsame : ∀ x ∈ l₁ ++ l₂, taskAt m₃ x = taskAt m₁ x := fun x hx =>
    taskAt_congr (hkept.payload x taskSize (List.mem_append_left _ (mem_taskAllocs hx)))
  have hheaders : HeadersKept m₁ m₃ (taskAllocs m₁ (l₁ ++ l₂) ++ other) :=
    hperm.headers (fun _ he => List.mem_append_right _ he) hkept
  have hallocs : taskAllocs m₃ (l₁ ++ l₂) = taskAllocs m₁ (l₁ ++ l₂) :=
    taskAllocs_congr fun x hx => by rw [hsame x hx]
  refine ⟨m₃, L, ?_, ⟨?_, ?_, hhead, hcur'⟩, ?_, ?_, fun x hx => (hsame x hx).trans (hall x hx)⟩
  · rw [taskDestroy, if_neg ht0, hunlink]
    simp only [Tasks.withList_heap, Tasks.withMem_heap, Heap.withMem_mem, hk₂, hk₃]
    rfl
  · rw [← hallocs] at hinv₃
    exact hinv₃
  · exact hring.congr fun x hx => congrArg Task.next (hsame x hx)
  · refine (hblocks.mono fun x hx => ((mem_middle hr.ring.nodup).mp hx).1).trans
      ⟨fun x hx => congrArg Task.stack (hsame x hx), hheaders⟩
  · intro c hc
    rw [taskDestroyCalls, if_neg ht0, hunlink] at hc
    simp only [Tasks.withList_heap, Tasks.withMem_heap, Heap.withMem_mem, hk₂,
      List.mem_append, List.mem_singleton] at hc
    rcases hc with hc | rfl
    · exact hcalls₂ c hc
    · exact freesLive_of_heapInv hinv₂ hallocsOf

/-! ## `schedule` -/

theorem sameTask_unlinked (m : Mem) (t x : Nat) : SameTask (taskAt m x) (unlinked m t x) := rfl

/-- Filtering out a node of a list without repetitions and some others. -/
theorem filter_not_mem_cons {l₁ l₂ ds : List Nat} {t : Nat} (hnd : (l₁ ++ t :: l₂).Nodup) :
    (l₁ ++ t :: l₂).filter (· ∉ t :: ds) = (l₁ ++ l₂).filter (· ∉ ds) := by
  have hne : ∀ x ∈ l₁ ++ l₂, x ≠ t := fun x hx => ((mem_middle hnd).mp hx).2
  have hcongr : ∀ l : List Nat, (∀ x ∈ l, x ≠ t) →
      l.filter (· ∉ t :: ds) = l.filter (· ∉ ds) := fun l hl =>
    List.filter_congr fun x hx => by simp [hl x hx]
  rw [List.filter_append, List.filter_append, List.filter_cons_of_neg (by simp),
    hcongr l₁ fun x hx => hne x (List.mem_append_left _ hx),
    hcongr l₂ fun x hx => hne x (List.mem_append_right _ hx)]

/-- The reaping loop, at a point where it has passed the tasks `done` and has
the tasks `todo` before it: it destroys the dead ones of `todo`. -/
structure Reaped (T : Tasks σ) (order : List Nat) (other : List (Nat × Nat))
    (done todo : List Nat) (fuel t : Nat) (m' : Mem) (L : Nat) : Prop where
  run : reap fuel T t = some ((T.withMem m').withList L, todo.filter (isDead T.heap.mem))
  rep : TaskRep ((T.withMem m').withList L)
    (order.filter (· ∉ todo.filter (isDead T.heap.mem))) other
  ring : IsRing (taskNext m') (T.currentTask :: (done ++ todo.filter (!isDead T.heap.mem ·)))
  blocks : SameBlocks T.heap.mem m' (order.filter (· ∉ todo.filter (isDead T.heap.mem))) other
  calls : ∀ c ∈ reapCalls fuel T t,
    FreesLive other T.currentTask (taskAt T.heap.mem T.currentTask).stack c
  same : ∀ x ∈ order.filter (· ∉ todo.filter (isDead T.heap.mem)),
    SameTask (taskAt T.heap.mem x) (taskAt m' x)

/-- A dead task is destroyed, and the loop goes on behind it. -/
theorem Reaped.dead {l₁ l₂ done rest : List Nat} {u fuel L₁ L₂ : Nat} {m₁ m₂ : Mem}
    (hr : TaskRep T (l₁ ++ u :: l₂) other) (hcur : T.currentTask ≠ u)
    (hdead : isDead T.heap.mem u = true) (hrest : ∀ x ∈ rest, x ∈ l₁ ++ l₂)
    (hdestroy : taskDestroy T u = some ((T.withMem m₁).withList L₁))
    (hr₁ : TaskRep ((T.withMem m₁).withList L₁) (l₁ ++ l₂) other)
    (hblocks₁ : SameBlocks T.heap.mem m₁ (l₁ ++ l₂) other)
    (hcalls₁ : ∀ c ∈ taskDestroyCalls T u,
      FreesLive other T.currentTask (taskAt T.heap.mem T.currentTask).stack c)
    (hst : ∀ x ∈ l₁ ++ l₂, SameTask (taskAt T.heap.mem x) (taskAt m₁ x))
    (h : Reaped ((T.withMem m₁).withList L₁) (l₁ ++ l₂) other done rest fuel
      (taskNext T.heap.mem u) m₂ L₂) :
    Reaped T (l₁ ++ u :: l₂) other done (u :: rest) (fuel + 1) u m₂ L₂ := by
  obtain ⟨hreap, hr₂, hring₂, hblocks₂, hcalls₂, hsame⟩ := h
  -- the states of the others have not changed
  have hdeadEq : ∀ x ∈ rest, isDead m₁ x = isDead T.heap.mem x := fun x hx => by
    rw [isDead, (hst x (hrest x hx)).state, isDead]
  have hstack : (taskAt m₁ T.currentTask).stack = (taskAt T.heap.mem T.currentTask).stack :=
    hblocks₁.stack _ hr₁.cur
  change reap fuel _ _ = some (_, rest.filter (isDead m₁)) at hreap
  change TaskRep _ (List.filter (· ∉ rest.filter (isDead m₁)) _) _ at hr₂
  change IsRing _ (_ :: (_ ++ rest.filter (!isDead m₁ ·))) at hring₂
  change SameBlocks m₁ _ (List.filter (· ∉ rest.filter (isDead m₁)) _) _ at hblocks₂
  change ∀ c ∈ reapCalls fuel _ _, FreesLive other T.currentTask
    (taskAt m₁ T.currentTask).stack c at hcalls₂
  change ∀ x ∈ List.filter (· ∉ rest.filter (isDead m₁)) _, _ at hsame
  rw [List.filter_congr hdeadEq] at hreap hr₂ hblocks₂ hsame
  rw [List.filter_congr fun x hx => congrArg (! ·) (hdeadEq x hx)] at hring₂
  rw [hstack] at hcalls₂
  constructor
  case run =>
    rw [reap, if_neg (Ne.symm hcur), List.filter_cons_of_pos hdead]
    simp only [if_pos hdead, hdestroy, hreap]
    rfl
  case rep =>
    rw [List.filter_cons_of_pos hdead, filter_not_mem_cons hr.ring.nodup]
    exact hr₂
  case ring =>
    rw [List.filter_cons_of_neg (by simp [hdead])]
    exact hring₂
  case blocks =>
    rw [List.filter_cons_of_pos hdead, filter_not_mem_cons hr.ring.nodup]
    exact (hblocks₁.mono fun x hx => List.mem_of_mem_filter hx).trans hblocks₂
  case calls =>
    intro c hc
    rw [reapCalls, if_neg (Ne.symm hcur)] at hc
    simp only [if_pos hdead, hdestroy, List.mem_append] at hc
    exact hc.elim (hcalls₁ c) (hcalls₂ c)
  case same =>
    intro x hx
    rw [List.filter_cons_of_pos hdead, filter_not_mem_cons hr.ring.nodup] at hx
    exact (hst x (List.mem_of_mem_filter hx)).trans (hsame x hx)

/-- Another task is passed. -/
theorem Reaped.passed {done rest : List Nat} {u fuel L : Nat} {m' : Mem}
    (hcur : T.currentTask ≠ u) (hdead : ¬ isDead T.heap.mem u = true)
    (h : Reaped T order other (done ++ [u]) rest fuel (taskNext T.heap.mem u) m' L) :
    Reaped T order other done (u :: rest) (fuel + 1) u m' L := by
  obtain ⟨hreap, hr, hring, hblocks, hcalls, hsame⟩ := h
  rw [← List.filter_cons_of_neg hdead] at hreap hr hblocks hsame
  refine ⟨?_, hr, ?_, hblocks, fun c hc => ?_, hsame⟩
  · rw [reap, if_neg (Ne.symm hcur)]
    simp only [if_neg hdead, hreap]
  · rw [List.filter_cons_of_pos (by simp [hdead])]
    simpa using hring
  · rw [reapCalls, if_neg (Ne.symm hcur)] at hc
    simp only [if_neg hdead] at hc
    exact hcalls c hc

theorem reap_spec : ∀ (todo : List Nat) {T : Tasks σ} {order done : List Nat} {t fuel : Nat},
    TaskRep T order other → IsRing (taskNext T.heap.mem) (T.currentTask :: (done ++ todo)) →
    (∀ x, x ∈ order ↔ x ∈ T.currentTask :: (done ++ todo)) →
    (todo ++ [T.currentTask]).head? = some t → todo.length < fuel →
    ∃ m' L, Reaped T order other done todo fuel t m' L := by
  intro todo
  induction todo with
  | nil =>
      intro T order done t fuel hr hring _ hhead hfuel
      obtain ⟨fuel, rfl⟩ := Nat.exists_eq_succ_of_ne_zero (Nat.ne_of_gt hfuel)
      obtain rfl : T.currentTask = t := by simpa using hhead
      refine ⟨T.heap.mem, T.taskList, ?_, ?_, by simpa using hring, .refl _ _ _, fun c hc => ?_,
        fun x _ => .refl _⟩
      · rw [reap, if_pos rfl]
        rfl
      · have hfilter : order.filter (· ∉ ([] : List Nat).filter (isDead T.heap.mem)) = order :=
          List.filter_eq_self.mpr fun x _ => by simp
        rw [hfilter]
        exact hr
      · rw [reapCalls, if_pos rfl] at hc
        exact absurd hc List.not_mem_nil
  | cons u rest ih =>
      intro T order done t fuel hr hring hmem hhead hfuel
      obtain ⟨fuel, rfl⟩ := Nat.exists_eq_succ_of_ne_zero (Nat.ne_of_gt (Nat.zero_lt_of_lt hfuel))
      obtain rfl : u = t := by simpa using hhead
      have hlen : rest.length < fuel := Nat.lt_of_succ_lt_succ hfuel
      have hring' : IsRing (taskNext T.heap.mem) ((T.currentTask :: done) ++ u :: rest) := hring
      have hcur : T.currentTask ≠ u := fun heq => by
        have := (List.nodup_cons.mp hring.nodup).1
        exact this (heq ▸ by simp)
      -- `save_next` is the next task to look at
      have hnext : (rest ++ [T.currentTask]).head? = some (taskNext T.heap.mem u) := by
        have hrot := hring'.rotate
        cases rest with
        | nil => simpa using hrot.next_first.symm
        | cons v rest => simpa using hrot.next_first.symm
      by_cases hdead : isDead T.heap.mem u = true
      · have hu : u ∈ order := (hmem u).mpr (by simp)
        obtain ⟨l₁, l₂, rfl⟩ := List.append_of_mem hu
        obtain ⟨m₁, L₁, hdestroy, hr₁, hblocks₁, hcalls₁, hall⟩ := taskDestroy_spec hr hcur
        have hmem₁ : ∀ x, x ∈ l₁ ++ l₂ ↔ x ∈ T.currentTask :: (done ++ rest) := fun x => by
          rw [mem_middle hr.ring.nodup, hmem]
          exact (mem_middle hring'.nodup).symm
        have hring₁ : IsRing (taskNext m₁) (T.currentTask :: (done ++ rest)) := by
          refine hring'.remove (by simp) ?_
          intro x hx
          rw [← next_unlinked, ← hall x ((hmem₁ x).mpr hx)]
          rfl
        obtain ⟨m₂, L₂, hreaped⟩ := ih hr₁ hring₁ hmem₁ hnext hlen
        exact ⟨m₂, L₂, .dead hr hcur hdead (fun x hx => (hmem₁ x).mpr (by simp [hx])) hdestroy hr₁
          hblocks₁ hcalls₁ (fun x hx => hall x hx ▸ sameTask_unlinked _ _ _) hreaped⟩
      · have hpassed : IsRing (taskNext T.heap.mem) (T.currentTask :: ((done ++ [u]) ++ rest)) := by
          simpa using hring
        have hmem' : ∀ x, x ∈ order ↔ x ∈ T.currentTask :: ((done ++ [u]) ++ rest) := fun x => by
          rw [hmem]
          simp
        obtain ⟨m₂, L₂, hreaped⟩ := ih hr hpassed hmem' hnext hlen
        exact ⟨m₂, L₂, .passed hcur hdead hreaped⟩

/-- The state of a task after a switch from `cur` to `next`. -/
def stateAfter (cur : Nat) (next : Option Nat) (x state : Nat) : Nat :=
  match next with
  | none => state
  | some n =>
      if x = n then taskRunning
      else if x = cur ∧ state = taskRunning then taskReady
      else state

/-- The first write of a switch: the task that is left is ready if it was running. -/
theorem TaskRep.leave (hr : TaskRep T order other) :
    ∃ m, (if (taskAt T.heap.mem T.currentTask).state = taskRunning then
        setTaskState T.heap.mem T.currentTask taskReady else T.heap.mem) = m ∧
      TaskRep (T.withMem m) order other ∧ SameBlocks T.heap.mem m order other ∧
      ∀ x ∈ order, (taskAt m x).state =
        if x = T.currentTask ∧ (taskAt T.heap.mem x).state = taskRunning then taskReady
        else (taskAt T.heap.mem x).state := by
  by_cases hrun : (taskAt T.heap.mem T.currentTask).state = taskRunning
  · obtain ⟨hr₁, hb₁, hst₁⟩ := hr.setState hr.cur (show taskReady < 2 ^ 32 by decide)
    refine ⟨_, if_pos hrun, hr₁, hb₁, fun x hx => ?_⟩
    rw [hst₁ x hx]
    by_cases hxc : x = T.currentTask
    · rw [if_pos hxc, if_pos ⟨hxc, hxc ▸ hrun⟩]
    · rw [if_neg hxc, if_neg fun h => hxc h.1]
  · refine ⟨_, if_neg hrun, hr, .refl _ _ _, fun x _ => ?_⟩
    rw [if_neg]
    rintro ⟨rfl, h⟩
    exact hrun h

/-- The switch changes the states of the two tasks and the saved stack pointer
of the one that is left. -/
theorem switchTask_spec (hr : TaskRep T order other) {n : Nat} (hn : n ∈ order) (rsp : Nat) :
    TaskRep (switchTask rsp T n) order other ∧
      SameBlocks T.heap.mem (switchTask rsp T n).heap.mem order other ∧
      ∀ x ∈ order, (taskAt (switchTask rsp T n).heap.mem x).state =
        stateAfter T.currentTask (some n) x (taskAt T.heap.mem x).state := by
  -- the three writes, one after the other
  obtain ⟨m₁, hm₁, hr₁, hb₁, hst₁⟩ := hr.leave
  obtain ⟨hr₂, hb₂, hst₂⟩ := hr₁.setState hn (show taskRunning < 2 ^ 32 by decide)
  obtain ⟨hr₃, hb₃, hst₃⟩ := hr₂.setRsp hr.cur rsp
  have hT : switchTask rsp T n = (T.withMem
      (setTaskRsp (setTaskState m₁ n taskRunning) T.currentTask rsp)).withCurrent n := by
    rw [← hm₁]
    rfl
  rw [hT]
  refine ⟨⟨hr₃.heap, hr₃.ring, hr₃.head, hn⟩, (hb₁.trans hb₂).trans hb₃, fun x hx => ?_⟩
  exact ((hst₃ x hx).trans (hst₂ x hx)).trans (congrArg (ite (x = n) taskRunning) (hst₁ x hx))

/-- Ready tasks are not dead. -/
theorem isReady_not_dead {m : Mem} {x : Nat} (h : isReady m x = true) : isDead m x = false := by
  have hstate : (taskAt m x).state = taskReady := of_decide_eq_true h
  exact decide_eq_false (by rw [hstate]; decide)

/-- The search for the next task goes once around the ring from the task behind
the current one. -/
theorem dispatch_spec {l : List Nat} (hr : TaskRep T order other)
    (hring : IsRing (taskNext T.heap.mem) (T.currentTask :: l))
    (hmem : ∀ x ∈ T.currentTask :: l, x ∈ order)
    (hcur : isReady T.heap.mem T.currentTask = false) (rsp : Nat) (destroyed : List Nat) :
    ∃ T', dispatch rsp T destroyed = some ⟨T', destroyed, l.find? (isReady T.heap.mem)⟩ ∧
      TaskRep T' order other ∧ SameBlocks T.heap.mem T'.heap.mem order other ∧
      T'.currentTask = (l.find? (isReady T.heap.mem)).getD T.currentTask ∧
      ∀ x ∈ order, (taskAt T'.heap.mem x).state = stateAfter T.currentTask
        (l.find? (isReady T.heap.mem)) x (taskAt T.heap.mem x).state := by
  have hlen : (l ++ [T.currentTask]).length ≤ T.heap.walkFuel := by
    have h1 := (List.subperm_of_subset hring.nodup hmem).length_le
    have h2 := hr.length_le
    simp only [List.length_append, List.length_cons, List.length_nil] at h1 ⊢
    omega
  have hscan := hring.concat.scan (isReady T.heap.mem) hring.head_concat hlen
  have hlast : (l ++ [T.currentTask]).find? (isReady T.heap.mem)
      = l.find? (isReady T.heap.mem) := by
    rw [List.find?_append, List.find?_cons_of_neg (by simp [hcur]), List.find?_nil, Option.or_none]
  rw [hlast] at hscan
  cases hfind : l.find? (isReady T.heap.mem) with
  | none =>
      refine ⟨T, ?_, hr, .refl _ _ _, rfl, fun x _ => rfl⟩
      rw [hfind, Option.getD_none] at hscan
      -- the walk came back to its start, which is not ready
      have hstart : isReady T.heap.mem (taskNext T.heap.mem T.currentTask) = false := by
        have hin := List.mem_of_mem_head? hring.head_concat
        rcases List.mem_append.mp hin with hin | hin
        · exact Bool.eq_false_iff.mpr (List.find?_eq_none.mp hfind _ hin)
        · rw [List.mem_singleton.mp hin]
          exact hcur
      simp only [dispatch, hscan, hstart, or_true, if_true]
  | some n =>
      have hn : n ∈ l := List.mem_of_find?_eq_some hfind
      have hready : isReady T.heap.mem n = true := List.find?_some hfind
      have hne : n ≠ T.currentTask := fun heq => (List.nodup_cons.mp hring.nodup).1 (heq ▸ hn)
      obtain ⟨hr', hblocks, hst⟩ := switchTask_spec hr (hmem n (List.mem_cons_of_mem _ hn)) rsp
      refine ⟨switchTask rsp T n, ?_, hr', hblocks, rfl, hst⟩
      rw [hfind, Option.getD_some] at hscan
      simp only [dispatch, hscan, hready, hne, Bool.true_eq_false, or_self, if_false]

/-- `schedule` first destroys the dead tasks other than the current one.  The tasks that are
left in the ring have not been destroyed. -/
theorem schedule_reaped {l₁ l₂ : List Nat}
    (hr : TaskRep T (l₁ ++ T.currentTask :: l₂) other) :
    ∃ m' L, Reaped T (l₁ ++ T.currentTask :: l₂) other [] (l₂ ++ l₁) T.heap.walkFuel
        (taskNext T.heap.mem T.currentTask) m' L ∧
      (∀ rsp, schedule rsp T = dispatch rsp ((T.withMem m').withList L)
        ((l₂ ++ l₁).filter (isDead T.heap.mem))) ∧
      scheduleCalls T = reapCalls T.heap.walkFuel T (taskNext T.heap.mem T.currentTask) ∧
      ∀ x ∈ T.currentTask :: (l₂ ++ l₁).filter (!isDead T.heap.mem ·),
        x ∈ (l₁ ++ T.currentTask :: l₂).filter (· ∉ (l₂ ++ l₁).filter (isDead T.heap.mem)) := by
  have hrot := hr.ring.rotate
  have hmem : ∀ x, x ∈ l₁ ++ T.currentTask :: l₂ ↔ x ∈ T.currentTask :: ([] ++ (l₂ ++ l₁)) := by
    intro x
    rw [List.nil_append, List.perm_middle.mem_iff, List.mem_cons, List.mem_cons,
      List.perm_append_comm.mem_iff]
  have hlen : (l₂ ++ l₁).length < T.heap.walkFuel := by
    have := hr.length_le
    simp only [List.length_append, List.length_cons] at this ⊢
    omega
  have hguard : ¬ (T.currentTask = 0 ∨ taskNext T.heap.mem T.currentTask = 0) := by
    rintro (h | h)
    · exact hr.pos hr.cur h
    · exact hr.pos (hr.ring.next_mem hr.cur) h
  obtain ⟨m', L, h⟩ := reap_spec (l₂ ++ l₁) hr hrot hmem hrot.head_concat hlen
  refine ⟨m', L, h, fun rsp => ?_, if_neg hguard, fun x hx => ?_⟩
  · rw [schedule, if_neg hguard, h.run]
  · rw [List.mem_filter, hmem, decide_eq_true_eq]
    rcases List.mem_cons.mp hx with rfl | hx
    · refine ⟨List.mem_cons_self, fun hin => ?_⟩
      exact (List.nodup_cons.mp hrot.nodup).1 (List.mem_of_mem_filter hin)
    · obtain ⟨hin, hdead⟩ := List.mem_filter.mp hx
      refine ⟨List.mem_cons_of_mem _ hin, fun hd => ?_⟩
      rw [(List.mem_filter.mp hd).2] at hdead
      cases hdead

/-- `schedule` by a task that is not ready itself.  It destroys the dead tasks
other than the current one and switches to the first ready task behind the
current one, if there is one. -/
theorem schedule_spec {l₁ l₂ : List Nat}
    (hr : TaskRep T (l₁ ++ T.currentTask :: l₂) other)
    (hcur : isReady T.heap.mem T.currentTask = false) (rsp : Nat) :
    ∃ T', schedule rsp T = some ⟨T', (l₂ ++ l₁).filter (isDead T.heap.mem),
        (l₂ ++ l₁).find? (isReady T.heap.mem)⟩ ∧
      TaskRep T' ((l₁ ++ T.currentTask :: l₂).filter
        (· ∉ (l₂ ++ l₁).filter (isDead T.heap.mem))) other ∧
      SameBlocks T.heap.mem T'.heap.mem ((l₁ ++ T.currentTask :: l₂).filter
        (· ∉ (l₂ ++ l₁).filter (isDead T.heap.mem))) other ∧
      (∀ c ∈ scheduleCalls T,
        FreesLive other T.currentTask (taskAt T.heap.mem T.currentTask).stack c) ∧
      T'.currentTask = ((l₂ ++ l₁).find? (isReady T.heap.mem)).getD T.currentTask ∧
      ∀ x ∈ (l₁ ++ T.currentTask :: l₂).filter (· ∉ (l₂ ++ l₁).filter (isDead T.heap.mem)),
        (taskAt T'.heap.mem x).state = stateAfter T.currentTask
          ((l₂ ++ l₁).find? (isReady T.heap.mem)) x (taskAt T.heap.mem x).state := by
  obtain ⟨m', L, ⟨-, hr', hring', hblocks, hcalls, hsame⟩, hsched, hschedCalls, hleft⟩ :=
    schedule_reaped hr
  -- the tasks that are left have the states they had
  have hready : ∀ x ∈ T.currentTask :: (l₂ ++ l₁).filter (!isDead T.heap.mem ·),
      isReady m' x = isReady T.heap.mem x := fun x hx => by
    rw [isReady, (hsame x (hleft x hx)).state, isReady]
  have hfind : ((l₂ ++ l₁).filter (!isDead T.heap.mem ·)).find? (isReady m')
      = (l₂ ++ l₁).find? (isReady T.heap.mem) := by
    rw [← List.head?_filter, List.filter_congr fun x hx => hready x (List.mem_cons_of_mem _ hx),
      List.head?_filter, List.find?_filter]
    congr 1
    funext x
    cases hx : isReady T.heap.mem x
    · simp
    · simp [isReady_not_dead hx]
  obtain ⟨T', hdisp, hrT', hblocksT', hcurT', hst⟩ := dispatch_spec hr' hring' hleft
    ((hready _ List.mem_cons_self).trans hcur) rsp ((l₂ ++ l₁).filter (isDead T.heap.mem))
  simp only [Tasks.withList_heap, Tasks.withMem_heap, Heap.withMem_mem, List.nil_append, hfind,
    Tasks.withList_currentTask, Tasks.withMem_currentTask] at hdisp hblocksT' hcurT' hst
  refine ⟨T', ?_, hrT', hblocks.trans hblocksT', fun c hc => ?_, hcurT', fun x hx => ?_⟩
  · rw [hsched]
    exact hdisp
  · rw [hschedCalls] at hc
    exact hcalls c hc
  · rw [hst x hx, (hsame x hx).state]

end

end TunaOs
