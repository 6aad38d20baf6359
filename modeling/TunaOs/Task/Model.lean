import TunaOs.Kheap.Model
import TunaOs.Lib.Circular

/-!
# Tasks and the scheduler

The model of `task.c`.  Task control blocks and stacks live in the kernel heap,
so the functions here read and write the heap's memory and call `kmalloc` and
`kfree`.  A null pointer is the address 0.  The loops over the task list take
fuel, and `none` means that some loop ran out of it.

`schedule` is executed atomically.  `switch_to` is seen from memory: it saves
the stack pointer of the task that is left, given as `rsp`.  The registers it
pushes go to the stack of that task, like everything a running task does.
`Scheduled` records what a call of `schedule` did on its way: which tasks it
destroyed and which task it switched to.
-/

namespace TunaOs

open Word

/-- `TASK_STACK_SIZE`. -/
def taskStackSize : Nat := 8192

/-- `sizeof(struct task)`. -/
def taskSize : Nat := 40

/-- `TASK_READY`. -/
def taskReady : Nat := 0

/-- `TASK_RUNNING`. -/
def taskRunning : Nat := 1

/-- `TASK_DEAD`. -/
def taskDead : Nat := 2

/-! ## Task control blocks in memory -/

/-- The fields of a `struct task`.  `_pad` is never accessed. -/
structure Task where
  /-- `id`. -/
  id : Nat
  /-- `rsp`. -/
  rsp : Nat
  /-- `state`. -/
  state : Nat
  /-- `stack`, the base of the allocated stack. -/
  stack : Nat
  /-- `next`. -/
  next : Nat
deriving DecidableEq, Repr

/-- The task control block at address `t`. -/
def taskAt (m : Mem) (t : Nat) : Task where
  id := m.load t 8
  rsp := m.load (t + 8) 8
  state := m.load (t + 16) 4
  stack := m.load (t + 24) 8
  next := m.load (t + 32) 8

/-- `t->id = v`. -/
def setTaskId (m : Mem) (t v : Nat) : Mem := m.store t 8 v

/-- `t->rsp = v`. -/
def setTaskRsp (m : Mem) (t v : Nat) : Mem := m.store (t + 8) 8 v

/-- `t->state = v`. -/
def setTaskState (m : Mem) (t v : Nat) : Mem := m.store (t + 16) 4 v

/-- `t->stack = v`. -/
def setTaskStack (m : Mem) (t v : Nat) : Mem := m.store (t + 24) 8 v

/-- `t->next = v`. -/
def setTaskNext (m : Mem) (t v : Nat) : Mem := m.store (t + 32) 8 v

/-- `t->next`, as a function of the task. -/
def taskNext (m : Mem) (t : Nat) : Nat := (taskAt m t).next

/-- `t->state == TASK_READY`. -/
def isReady (m : Mem) (t : Nat) : Bool := (taskAt m t).state = taskReady

/-- `t->state == TASK_DEAD`. -/
def isDead (m : Mem) (t : Nat) : Bool := (taskAt m t).state = taskDead

/-! ## Creating tasks -/

/-- The static state of `task.c`, with the heap. -/
structure Tasks (σ : Type) where
  /-- The kernel heap. -/
  heap : Heap σ
  /-- `next_id`. -/
  nextId : Nat
  /-- `current_task`. -/
  currentTask : Nat
  /-- `task_list`. -/
  taskList : Nat

section

variable {σ : Type} (T : Tasks σ) (m : Mem) (t : Nat)

/-- The state with the memory of its heap replaced. -/
def Tasks.withMem : Tasks σ := { T with heap := T.heap.withMem m }

/-- `task_list = t`. -/
def Tasks.withList : Tasks σ := { T with taskList := t }

/-- `current_task = t`. -/
def Tasks.withCurrent : Tasks σ := { T with currentTask := t }

@[simp] theorem Tasks.withMem_heap : (T.withMem m).heap = T.heap.withMem m := rfl

@[simp] theorem Tasks.withMem_currentTask : (T.withMem m).currentTask = T.currentTask := rfl

@[simp] theorem Tasks.withMem_taskList : (T.withMem m).taskList = T.taskList := rfl

@[simp] theorem Tasks.withList_heap : (T.withList t).heap = T.heap := rfl

@[simp] theorem Tasks.withList_currentTask : (T.withList t).currentTask = T.currentTask := rfl

@[simp] theorem Tasks.withList_taskList : (T.withList t).taskList = t := rfl

@[simp] theorem Tasks.withCurrent_heap : (T.withCurrent t).heap = T.heap := rfl

@[simp] theorem Tasks.withCurrent_currentTask : (T.withCurrent t).currentTask = t := rfl

@[simp] theorem Tasks.withCurrent_taskList : (T.withCurrent t).taskList = T.taskList := rfl

end

section Backing

variable {σ : Type} [HeapBacking σ]

/-- `task_init`. -/
def taskInit (T : Tasks σ) : Option (Tasks σ) :=
  match kmalloc T.heap taskSize with
  | none => none
  | some (heap, boot) =>
      if boot = 0 then some { T with heap }
      else
        let m := setTaskId heap.mem boot T.nextId
        let m := setTaskRsp m boot 0
        let m := setTaskState m boot taskRunning
        let m := setTaskStack m boot 0
        let m := setTaskNext m boot boot
        some { heap := heap.withMem m
               nextId := wrap64 (T.nextId + 1)
               currentTask := boot
               taskList := boot }

/-- The words `task_create` pushes on a new stack, in the order it pushes them:
the return address of `switch_to`, then RBX, RBP, R12, R13, R14 and R15. -/
def initialWords (trampoline entry : Nat) : List Nat := [trampoline, 0, 0, entry, 0, 0, 0]

/-- `*(--sp) = v` for each word: memory and the stack pointer at the end. -/
def pushWords : List Nat → Mem → Nat → Mem × Nat
  | [], m, sp => (m, sp)
  | v :: vs, m, sp => pushWords vs (m.store (sp - 8) 8 v) (sp - 8)

/-- The stores of `task_create` before the task is linked: its control block and
its initial stack. -/
def setupTask (m : Mem) (t stack id trampoline entry : Nat) : Mem :=
  let m := setTaskId m t id
  let m := setTaskState m t taskReady
  let m := setTaskStack m t stack
  let pushed := pushWords (initialWords trampoline entry) m (stack + taskStackSize)
  setTaskRsp pushed.1 t pushed.2

/-- `task_create (entry)`: the state after it and the task it returns.
`trampoline` is the address of `task_trampoline`. -/
def taskCreate (trampoline entry : Nat) (T : Tasks σ) : Option (Tasks σ × Nat) :=
  match kmalloc T.heap taskSize with
  | none => none
  | some (heap, t) =>
      if t = 0 then some ({ T with heap }, 0)
      else
        match kmalloc heap taskStackSize with
        | none => none
        | some (heap, stack) =>
            if stack = 0 then
              match kfree heap t with
              | none => none
              | some heap => some ({ T with heap }, 0)
            else
              let m := setupTask heap.mem t stack T.nextId trampoline entry
              let nextId := wrap64 (T.nextId + 1)
              if T.taskList ≠ 0 then
                match Circular.findPrev (taskNext m) T.taskList heap.walkFuel T.taskList with
                | none => none
                | some tail =>
                    let m := setTaskNext m tail t
                    let m := setTaskNext m t T.taskList
                    some ({ T with heap := heap.withMem m, nextId }, t)
              else
                let m := setTaskNext m t t
                some ({ T with heap := heap.withMem m, nextId, taskList := t }, t)

end Backing

/-! ## Destroying tasks -/

section

variable {σ : Type}

/-- The part of `task_destroy` that takes `t` out of the task list. -/
def unlinkTask (T : Tasks σ) (t : Nat) : Option (Tasks σ) :=
  if taskNext T.heap.mem t = t then some (T.withList 0)
  else
    match Circular.findPrev (taskNext T.heap.mem) t T.heap.walkFuel T.taskList with
    | none => none
    | some prev =>
        let m := setTaskNext T.heap.mem prev (taskNext T.heap.mem t)
        some ((T.withMem m).withList (if T.taskList = t then taskNext m t else T.taskList))

/-- `if (t->stack) kfree(t->stack);`. -/
def freeStack (h : Heap σ) (stack : Nat) : Option (Heap σ) :=
  if stack ≠ 0 then kfree h stack else some h

/-- `task_destroy (t)`. -/
def taskDestroy (T : Tasks σ) (t : Nat) : Option (Tasks σ) :=
  if t = 0 then some T
  else
    match unlinkTask T t with
    | none => none
    | some T =>
        match freeStack T.heap (taskAt T.heap.mem t).stack with
        | none => none
        | some heap =>
            match kfree heap t with
            | none => none
            | some heap => some { T with heap }

/-! ## Scheduling -/

/-- The loop of `schedule` that reaps dead tasks, from `t` on.  The second
component lists the tasks it destroyed. -/
def reap : Nat → Tasks σ → Nat → Option (Tasks σ × List Nat)
  | 0, _, _ => none
  | fuel + 1, T, t =>
      if t = T.currentTask then some (T, [])
      else
        let saveNext := taskNext T.heap.mem t
        if isDead T.heap.mem t then
          match taskDestroy T t with
          | none => none
          | some T =>
              match reap fuel T saveNext with
              | none => none
              | some (T, destroyed) => some (T, t :: destroyed)
        else reap fuel T saveNext

/-- What a call of `schedule` did. -/
structure Scheduled (σ : Type) where
  /-- The state after the call. -/
  tasks : Tasks σ
  /-- The tasks it passed to `task_destroy`. -/
  destroyed : List Nat
  /-- The task it switched to, if it switched. -/
  next : Option Nat

/-- The end of `schedule`: the state changes and the switch to `next`.  `rsp` is
what `switch_to` saves in the task that is left. -/
def switchTask (rsp : Nat) (T : Tasks σ) (next : Nat) : Tasks σ :=
  let prev := T.currentTask
  let m := T.heap.mem
  let m := if (taskAt m prev).state = taskRunning then setTaskState m prev taskReady else m
  let m := setTaskState m next taskRunning
  let m := setTaskRsp m prev rsp
  (T.withMem m).withCurrent next

/-- The part of `schedule` after the reaping: find the next runnable task and
switch to it. -/
def dispatch (rsp : Nat) (T : Tasks σ) (destroyed : List Nat) : Option (Scheduled σ) :=
  let m := T.heap.mem
  let start := taskNext m T.currentTask
  match Circular.scan (taskNext m) (isReady m) start T.heap.walkFuel start with
  | none => none
  | some next =>
      if next = T.currentTask ∨ isReady m next = false then some ⟨T, destroyed, none⟩
      else some ⟨switchTask rsp T next, destroyed, some next⟩

/-- `schedule`. -/
def schedule (rsp : Nat) (T : Tasks σ) : Option (Scheduled σ) :=
  if T.currentTask = 0 ∨ taskNext T.heap.mem T.currentTask = 0 then some ⟨T, [], none⟩
  else
    match reap T.heap.walkFuel T (taskNext T.heap.mem T.currentTask) with
    | none => none
    | some (T, destroyed) => dispatch rsp T destroyed

/-- `yield`. -/
def yield (rsp : Nat) (T : Tasks σ) : Option (Scheduled σ) := schedule rsp T

/-- `task_exit` up to the return of `schedule`, after which it only halts. -/
def taskExit (rsp : Nat) (T : Tasks σ) : Option (Scheduled σ) :=
  schedule rsp (T.withMem (setTaskState T.heap.mem T.currentTask taskDead))

/-! ## The calls of `kfree`

A call is recorded as the heap it is made on and the pointer it is given.  Each
function lists the calls of the function it is named after, in their order. -/

/-- The call in `if (t->stack) kfree(t->stack);`. -/
def freeStackCalls (h : Heap σ) (stack : Nat) : List (Heap σ × Nat) :=
  if stack ≠ 0 then [(h, stack)] else []

/-- The calls of `task_destroy (t)`. -/
def taskDestroyCalls (T : Tasks σ) (t : Nat) : List (Heap σ × Nat) :=
  if t = 0 then []
  else
    match unlinkTask T t with
    | none => []
    | some T =>
        freeStackCalls T.heap (taskAt T.heap.mem t).stack ++
          match freeStack T.heap (taskAt T.heap.mem t).stack with
          | none => []
          | some heap => [(heap, t)]

/-- The calls of the reaping loop from `t` on. -/
def reapCalls : Nat → Tasks σ → Nat → List (Heap σ × Nat)
  | 0, _, _ => []
  | fuel + 1, T, t =>
      if t = T.currentTask then []
      else
        let saveNext := taskNext T.heap.mem t
        if isDead T.heap.mem t then
          taskDestroyCalls T t ++
            match taskDestroy T t with
            | none => []
            | some T => reapCalls fuel T saveNext
        else reapCalls fuel T saveNext

/-- The calls of `schedule`. -/
def scheduleCalls (T : Tasks σ) : List (Heap σ × Nat) :=
  if T.currentTask = 0 ∨ taskNext T.heap.mem T.currentTask = 0 then []
  else reapCalls T.heap.walkFuel T (taskNext T.heap.mem T.currentTask)

/-- The calls of `task_exit`. -/
def taskExitCalls (T : Tasks σ) : List (Heap σ × Nat) :=
  scheduleCalls (T.withMem (setTaskState T.heap.mem T.currentTask taskDead))

/-- The calls of `task_create`: the control block, if there is no memory for the
stack. -/
def taskCreateCalls [HeapBacking σ] (T : Tasks σ) : List (Heap σ × Nat) :=
  match kmalloc T.heap taskSize with
  | none => []
  | some (heap, t) =>
      if t = 0 then []
      else
        match kmalloc heap taskStackSize with
        | none => []
        | some (heap, stack) => if stack = 0 then [(heap, t)] else []

end

end TunaOs
