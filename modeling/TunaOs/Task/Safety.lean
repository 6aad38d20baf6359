import TunaOs.Task.Spec

/-!
# Safety of the scheduler

A history is the state of `task.c` with two lists a client could keep: the
tasks created and not destroyed since, and those of them that exited when no
task was ready.  `TaskHistory.Inv` is the invariant, and `scheduler_safe` states
what holds in every history of calls of `task_create`, `schedule` and
`task_exit` after `task_init`.
-/

namespace TunaOs

open Circular (IsRing)
open Run (Reachable)

attribute [local irreducible] taskAt

/-! ## States of the tasks -/

/-- The states of the tasks of a list between two operations.  `stranded` lists
the tasks that exited when no task was ready. -/
structure TaskStates (m : Mem) (cur : Nat) (order stranded : List Nat) : Prop where
  /-- Only the current task runs. -/
  others : ∀ x ∈ order, x ≠ cur → (taskAt m x).state = taskReady ∨ (taskAt m x).state = taskDead
  /-- The current task runs, or it is stranded. -/
  current : (taskAt m cur).state = taskRunning ∨
    ((taskAt m cur).state = taskDead ∧ cur ∈ stranded)
  /-- At most one dead task waits to be reaped. -/
  oneDead : ∀ x ∈ order, ∀ y ∈ order, x ≠ cur → y ≠ cur →
    (taskAt m x).state = taskDead → (taskAt m y).state = taskDead → x = y

/-- The current task is not ready. -/
theorem TaskStates.current_ne_ready {m : Mem} {cur : Nat} {order stranded : List Nat}
    (h : TaskStates m cur order stranded) : (taskAt m cur).state ≠ taskReady := by
  rcases h.current with h | ⟨h, -⟩
  · rw [h]
    decide
  · rw [h]
    decide

theorem TaskStates.congr {m m' : Mem} {cur : Nat} {order stranded : List Nat}
    (h : TaskStates m cur order stranded) (hcur : cur ∈ order)
    (heq : ∀ x ∈ order, (taskAt m' x).state = (taskAt m x).state) :
    TaskStates m' cur order stranded where
  others x hx := by
    rw [heq x hx]
    exact h.others x hx
  current := by
    rw [heq cur hcur]
    exact h.current
  oneDead x hx y hy := by
    rw [heq x hx, heq y hy]
    exact h.oneDead x hx y hy

/-- A ready task is appended. -/
theorem TaskStates.append {m m' : Mem} {cur t : Nat} {order stranded : List Nat}
    (h : TaskStates m cur order stranded) (hcur : cur ∈ order)
    (hready : (taskAt m' t).state = taskReady)
    (heq : ∀ x ∈ order, (taskAt m' x).state = (taskAt m x).state) :
    TaskStates m' cur (order ++ [t]) stranded := by
  have hold : ∀ x ∈ order ++ [t], x ≠ t → x ∈ order := fun x hx hne =>
    (List.mem_append.mp hx).resolve_right fun h => hne (List.mem_singleton.mp h)
  have hdead : ∀ x ∈ order ++ [t], (taskAt m' x).state = taskDead →
      x ∈ order ∧ (taskAt m x).state = taskDead := fun x hx hd => by
    have hxt : x ≠ t := by
      rintro rfl
      rw [hready] at hd
      cases hd
    exact ⟨hold x hx hxt, heq x (hold x hx hxt) ▸ hd⟩
  refine ⟨fun x hx hne => ?_, ?_, ?_⟩
  · by_cases hxt : x = t
    · rw [hxt]
      exact Or.inl hready
    · rw [heq x (hold x hx hxt)]
      exact h.others x (hold x hx hxt) hne
  · rw [heq cur hcur]
    exact h.current
  · intro x hx y hy hxc hyc hdx hdy
    obtain ⟨hx', hdx'⟩ := hdead x hx hdx
    obtain ⟨hy', hdy'⟩ := hdead y hy hdy
    exact h.oneDead x hx' y hy' hxc hyc hdx' hdy'

section

variable {σ : Type} {T : Tasks σ} {order : List Nat} {other : List (Nat × Nat)}

/-- What a call of `schedule` does to the list and the states, whether the
current task runs or has just died. -/
structure ScheduleEffect (T : Tasks σ) (order : List Nat) (other : List (Nat × Nat))
    (r : Scheduled σ) : Prop where
  /-- The list loses the destroyed tasks. -/
  rep : TaskRep r.tasks (order.filter (· ∉ r.destroyed)) other
  /-- The blocks that are left keep their sizes. -/
  blocks : SameBlocks T.heap.mem r.tasks.heap.mem (order.filter (· ∉ r.destroyed)) other
  /-- Only live blocks are freed, and none of the current task. -/
  calls : ∀ c ∈ scheduleCalls T,
    FreesLive other T.currentTask (taskAt T.heap.mem T.currentTask).stack c
  /-- The destroyed tasks were dead tasks other than the current one. -/
  destroyed : ∀ x ∈ r.destroyed,
    x ∈ order ∧ x ≠ T.currentTask ∧ (taskAt T.heap.mem x).state = taskDead
  /-- No other dead task is left. -/
  reaped : ∀ x ∈ order, x ≠ T.currentTask → x ∉ r.destroyed →
    (taskAt T.heap.mem x).state ≠ taskDead
  /-- The task that is selected was ready. -/
  selected : ∀ n, r.next = some n →
    n ∈ order ∧ n ≠ T.currentTask ∧ (taskAt T.heap.mem n).state = taskReady
  /-- No task is selected only if none was ready. -/
  idle : r.next = none → ∀ x ∈ order, x ≠ T.currentTask →
    (taskAt T.heap.mem x).state ≠ taskReady
  /-- The selected task becomes the current one. -/
  current : r.tasks.currentTask = r.next.getD T.currentTask
  /-- The states afterwards. -/
  states : ∀ x ∈ order, x ∉ r.destroyed → (taskAt r.tasks.heap.mem x).state =
    stateAfter T.currentTask r.next x (taskAt T.heap.mem x).state

theorem schedule_effect (hr : TaskRep T order other)
    (hcur : (taskAt T.heap.mem T.currentTask).state ≠ taskReady) (rsp : Nat) :
    ∃ r, schedule rsp T = some r ∧ ScheduleEffect T order other r := by
  obtain ⟨l₁, l₂, heq⟩ := List.append_of_mem hr.cur
  have hnd := heq ▸ hr.ring.nodup
  obtain ⟨T', hsched, hr', hblocks, hcalls, hcur', hst⟩ :=
    schedule_spec (heq ▸ hr) (decide_eq_false hcur) rsp
  rw [← heq] at hr' hblocks hst
  have hmem : ∀ x, x ∈ l₂ ++ l₁ ↔ x ∈ order ∧ x ≠ T.currentTask := fun x => by
    rw [List.perm_append_comm.mem_iff, mem_middle hnd, ← heq]
  refine ⟨_, hsched, ⟨hr', hblocks, hcalls, ?_, ?_, ?_, ?_, hcur', ?_⟩⟩
  · intro x hx
    obtain ⟨hin, hdead⟩ := List.mem_filter.mp hx
    exact ⟨((hmem x).mp hin).1, ((hmem x).mp hin).2, of_decide_eq_true hdead⟩
  · intro x hx hne hnot hdead
    exact hnot (List.mem_filter.mpr ⟨(hmem x).mpr ⟨hx, hne⟩, decide_eq_true hdead⟩)
  · intro n hn
    obtain ⟨hin, hne⟩ := (hmem n).mp (List.mem_of_find?_eq_some hn)
    have hready : isReady T.heap.mem n = true := List.find?_some hn
    exact ⟨hin, hne, of_decide_eq_true hready⟩
  · intro hnone x hx hne hready
    exact List.find?_eq_none.mp hnone x ((hmem x).mpr ⟨hx, hne⟩) (decide_eq_true hready)
  · intro x hx hnot
    exact hst x (List.mem_filter.mpr ⟨hx, decide_eq_true hnot⟩)

section

variable {r : Scheduled σ} (he : ScheduleEffect T order other r)
  (hothers : ∀ x ∈ order, x ≠ T.currentTask →
    (taskAt T.heap.mem x).state = taskReady ∨ (taskAt T.heap.mem x).state = taskDead)
  (hcur : (taskAt T.heap.mem T.currentTask).state = taskRunning ∨
    (taskAt T.heap.mem T.currentTask).state = taskDead)

include he hothers

/-- Every other task that is left was ready. -/
theorem ScheduleEffect.left_ready {x : Nat} (hx : x ∈ order.filter (· ∉ r.destroyed))
    (hne : x ≠ T.currentTask) : (taskAt T.heap.mem x).state = taskReady := by
  obtain ⟨hin, hd⟩ := List.mem_filter.mp hx
  exact (hothers x hin hne).resolve_right (he.reaped x hin hne (of_decide_eq_true hd))

include hcur

/-- After a switch the task that was left is ready or dead, and the others are ready. -/
theorem ScheduleEffect.left_state {n x : Nat} (hnext : r.next = some n)
    (hx : x ∈ order.filter (· ∉ r.destroyed)) (hxn : x ≠ n) :
    (taskAt r.tasks.heap.mem x).state = taskReady ∨
      (x = T.currentTask ∧ (taskAt r.tasks.heap.mem x).state = taskDead) := by
  obtain ⟨hin, hd⟩ := List.mem_filter.mp hx
  rw [he.states x hin (of_decide_eq_true hd), hnext, stateAfter, if_neg hxn]
  by_cases hxc : x = T.currentTask
  · rcases hcur with h | h
    · rw [if_pos ⟨hxc, by rw [hxc, h]⟩]
      exact Or.inl rfl
    · rw [if_neg fun hc => by rw [hxc, h] at hc; cases hc.2]
      exact Or.inr ⟨hxc, by rw [hxc, h]⟩
  · rw [if_neg fun hc => hxc hc.1]
    exact Or.inl (he.left_ready hothers hx hxc)

/-- The states after a call of `schedule`.  `stranded` may have gained the
current task if none was ready. -/
theorem ScheduleEffect.taskStates {stranded : List Nat} (hmem : T.currentTask ∈ order)
    (hidle : r.next = none → (taskAt T.heap.mem T.currentTask).state = taskRunning ∨
      T.currentTask ∈ stranded) :
    TaskStates r.tasks.heap.mem r.tasks.currentTask (order.filter (· ∉ r.destroyed))
      (stranded.filter (· ∉ r.destroyed)) := by
  cases hnext : r.next with
  | none =>
      have hnot : T.currentTask ∉ r.destroyed := fun h => (he.destroyed _ h).2.1 rfl
      have hnone : ∀ x ∈ order.filter (· ∉ r.destroyed), x = T.currentTask := fun x hx =>
        Classical.byContradiction fun hne =>
          he.idle hnext x (List.mem_of_mem_filter hx) hne (he.left_ready hothers hx hne)
      rw [he.current, hnext, Option.getD_none]
      refine ⟨fun x hx hne => absurd (hnone x hx) hne, ?_,
        fun x hx y hy _ _ _ _ => (hnone x hx).trans (hnone y hy).symm⟩
      rw [he.states _ hmem hnot, hnext, stateAfter]
      rcases hidle hnext with h | h
      · exact Or.inl h
      · exact hcur.imp_right fun hd => ⟨hd, List.mem_filter.mpr ⟨h, decide_eq_true hnot⟩⟩
  | some n =>
      obtain ⟨hn, -, hnr⟩ := he.selected n hnext
      have hnd : n ∉ r.destroyed := fun h => by
        have := (he.destroyed n h).2.2
        rw [hnr] at this
        cases this
      have hdead : ∀ x ∈ order.filter (· ∉ r.destroyed), x ≠ n →
          (taskAt r.tasks.heap.mem x).state = taskDead → x = T.currentTask := by
        intro x hx hxn hd
        rcases he.left_state hothers hcur hnext hx hxn with h | ⟨h, -⟩
        · rw [h] at hd
          cases hd
        · exact h
      rw [he.current, hnext, Option.getD_some]
      refine ⟨fun x hx hxn => (he.left_state hothers hcur hnext hx hxn).imp_right And.right,
        Or.inl ?_,
        fun x hx y hy hxn hyn hdx hdy => (hdead x hx hxn hdx).trans (hdead y hy hyn hdy).symm⟩
      rw [he.states n hn hnd, hnext, stateAfter, if_pos rfl]

end

/-- The state in which `task_exit` calls `schedule`. -/
theorem TaskRep.die (hr : TaskRep T order other) :
    TaskRep (T.withMem (setTaskState T.heap.mem T.currentTask taskDead)) order other ∧
      SameBlocks T.heap.mem (setTaskState T.heap.mem T.currentTask taskDead) order other ∧
      ∀ x ∈ order, (taskAt (setTaskState T.heap.mem T.currentTask taskDead) x).state =
        if x = T.currentTask then taskDead else (taskAt T.heap.mem x).state :=
  hr.setState hr.cur (by decide)

end

/-! ## Histories -/

/-- The state of `task.c` with the lists a client keeps. -/
structure TaskHistory (σ : Type) where
  /-- The state. -/
  tasks : Tasks σ
  /-- Tasks created and not destroyed since. -/
  members : List Nat
  /-- Members that exited when no task was ready. -/
  stranded : List Nat

section

variable {σ : Type} [HeapBacking σ]

/-- The history right after a `task_init` that found memory for the boot task,
on a heap any kernel code may have used before. -/
def TaskHistory.Start (h : TaskHistory σ) : Prop :=
  ∃ (heap : Heap σ) (live : List (Nat × Nat)) (T : Tasks σ),
    Reachable HeapHistory.Start HeapStep ⟨heap, live⟩ ∧
    taskInit ⟨heap, 0, 0, 0⟩ = some T ∧ T.currentTask ≠ 0 ∧ h = ⟨T, [T.currentTask], []⟩

/-- The members that are left after a call of `schedule`. -/
def TaskHistory.after (r : Scheduled σ) (members stranded : List Nat) : TaskHistory σ :=
  ⟨r.tasks, members.filter (· ∉ r.destroyed), stranded.filter (· ∉ r.destroyed)⟩

/-- Some member other than the current task is ready. -/
def TaskHistory.AnyReady (T : Tasks σ) (members : List Nat) : Prop :=
  ∃ x ∈ members, x ≠ T.currentTask ∧ (taskAt T.heap.mem x).state = taskReady

/-- One operation, or a write of a byte on a stack. -/
inductive TaskStep : TaskHistory σ → TaskHistory σ → Prop
  | createFails {T T' : Tasks σ} {members stranded : List Nat} {trampoline entry : Nat} :
      taskCreate trampoline entry T = some (T', 0) →
      TaskStep ⟨T, members, stranded⟩ ⟨T', members, stranded⟩
  | create {T T' : Tasks σ} {members stranded : List Nat} {trampoline entry t : Nat} :
      taskCreate trampoline entry T = some (T', t) → t ≠ 0 →
      TaskStep ⟨T, members, stranded⟩ ⟨T', t :: members, stranded⟩
  | schedule {T : Tasks σ} {members stranded : List Nat} {rsp : Nat} {r : Scheduled σ} :
      schedule rsp T = some r →
      TaskStep ⟨T, members, stranded⟩ (TaskHistory.after r members stranded)
  | exit {T : Tasks σ} {members stranded : List Nat} {rsp : Nat} {r : Scheduled σ} :
      TaskHistory.AnyReady T members → taskExit rsp T = some r →
      TaskStep ⟨T, members, stranded⟩ (TaskHistory.after r members stranded)
  | exitStranded {T : Tasks σ} {members stranded : List Nat} {rsp : Nat} {r : Scheduled σ} :
      ¬ TaskHistory.AnyReady T members → taskExit rsp T = some r →
      TaskStep ⟨T, members, stranded⟩
        (TaskHistory.after r members (T.currentTask :: stranded))
  | write {T : Tasks σ} {members stranded : List Nat} {t x : Nat} {v : UInt8} :
      t ∈ members → (taskAt T.heap.mem t).stack ≠ 0 → (taskAt T.heap.mem t).stack ≤ x →
      x < (taskAt T.heap.mem t).stack + taskStackSize →
      TaskStep ⟨T, members, stranded⟩ ⟨T.withMem (T.heap.mem.set x v), members, stranded⟩

/-- The invariant for a given ring of tasks and given other allocations. -/
def TaskHistory.Holds (h : TaskHistory σ) (order : List Nat) (other : List (Nat × Nat)) : Prop :=
  TaskRep h.tasks order other ∧ (∀ x, x ∈ order ↔ x ∈ h.members) ∧
    TaskStates h.tasks.heap.mem h.tasks.currentTask order h.stranded

/-- The invariant of histories. -/
def TaskHistory.Inv (h : TaskHistory σ) : Prop := ∃ order other, h.Holds order other

/-- What an operation does to the blocks of the tasks: the tasks that stay keep
theirs, and a task that comes has a stack. -/
structure BlocksStep (m m' : Mem) (order order' : List Nat) (other : List (Nat × Nat)) :
    Prop where
  /-- The tasks that stay. -/
  kept : SameBlocks m m' (order'.filter (· ∈ order)) other
  /-- The tasks that come. -/
  fresh : ∀ x ∈ order', x ∉ order → (taskAt m' x).stack ≠ 0

theorem SameBlocks.blocksStep {m m' : Mem} {order : List Nat} {other : List (Nat × Nat)}
    (h : SameBlocks m m' order other) : BlocksStep m m' order order other where
  kept := h.mono fun _ hx => List.mem_of_mem_filter hx
  fresh _ hx hnot := absurd hx hnot

omit [HeapBacking σ] in
/-- The invariant after a call of `schedule` whose effect is known. -/
theorem ScheduleEffect.holds {T : Tasks σ} {order : List Nat} {other : List (Nat × Nat)}
    {r : Scheduled σ} {members stranded : List Nat} {m : Mem} (he : ScheduleEffect T order other r)
    (hm : SameBlocks m T.heap.mem order other) (hmem : ∀ x, x ∈ order ↔ x ∈ members)
    (hst : TaskStates r.tasks.heap.mem r.tasks.currentTask (order.filter (· ∉ r.destroyed))
      (stranded.filter (· ∉ r.destroyed))) :
    ∃ order', (TaskHistory.after r members stranded).Holds order' other ∧
      BlocksStep m r.tasks.heap.mem order order' other := by
  refine ⟨_, ⟨he.rep, fun x => ?_, hst⟩, ?_, fun x hx hnot => ?_⟩
  · rw [TaskHistory.after, List.mem_filter, List.mem_filter, hmem]
  · have hleft := hm.mono fun x (hx : x ∈ order.filter (· ∉ r.destroyed)) =>
      List.mem_of_mem_filter hx
    exact (hleft.trans he.blocks).mono fun x hx => List.mem_of_mem_filter hx
  · exact absurd (List.mem_of_mem_filter hx) hnot

omit [HeapBacking σ] in
/-- `task_exit` by the current task. -/
theorem taskExit_effect {T : Tasks σ} {order : List Nat} {other : List (Nat × Nat)}
    (hr : TaskRep T order other) (rsp : Nat) :
    ∃ r, taskExit rsp T = some r ∧
      ScheduleEffect (T.withMem (setTaskState T.heap.mem T.currentTask taskDead)) order other
        r := by
  obtain ⟨hr', -, hst⟩ := hr.die
  refine schedule_effect hr' ?_ rsp
  have := hst _ hr.cur
  rw [if_pos rfl] at this
  rw [Tasks.withMem_currentTask, Tasks.withMem_heap, Heap.withMem_mem, this]
  decide

omit [HeapBacking σ] in
/-- The states after `task_exit`.  If no task was ready, the task is stranded. -/
theorem taskExit_states {T : Tasks σ} {order : List Nat} {other : List (Nat × Nat)}
    {stranded : List Nat} (hr : TaskRep T order other) {r : Scheduled σ}
    (he : ScheduleEffect (T.withMem (setTaskState T.heap.mem T.currentTask taskDead)) order other r)
    (hothers : ∀ x ∈ order, x ≠ T.currentTask →
      (taskAt T.heap.mem x).state = taskReady ∨ (taskAt T.heap.mem x).state = taskDead)
    (hidle : (∃ x ∈ order, x ≠ T.currentTask ∧ (taskAt T.heap.mem x).state = taskReady) ∨
      T.currentTask ∈ stranded) :
    TaskStates r.tasks.heap.mem r.tasks.currentTask (order.filter (· ∉ r.destroyed))
      (stranded.filter (· ∉ r.destroyed)) := by
  obtain ⟨hr', -, hst⟩ := hr.die
  have hsame : ∀ x ∈ order, x ≠ T.currentTask →
      (taskAt (setTaskState T.heap.mem T.currentTask taskDead) x).state
        = (taskAt T.heap.mem x).state := fun x hx hne => by rw [hst x hx, if_neg hne]
  refine he.taskStates (fun x hx hne => ?_) (Or.inr ?_) hr'.cur (fun hnone => Or.inr ?_)
  · rw [Tasks.withMem_heap, Heap.withMem_mem, hsame x hx hne]
    exact hothers x hx hne
  · have := hst _ hr.cur
    rwa [if_pos rfl] at this
  · refine hidle.resolve_left ?_
    rintro ⟨x, hx, hne, hready⟩
    exact he.idle hnone x hx hne ((hsame x hx hne).trans hready)

/-- Every operation keeps the invariant and the blocks of the tasks that stay. -/
theorem TaskStep.holds {h h' : TaskHistory σ} {order : List Nat} {other : List (Nat × Nat)}
    (hinv : h.Holds order other) (hst : TaskStep h h') :
    ∃ order', h'.Holds order' other ∧
      BlocksStep h.tasks.heap.mem h'.tasks.heap.mem order order' other := by
  obtain ⟨hr, hmem, hs⟩ := hinv
  cases hst with
  | @createFails T T' members stranded trampoline entry hc =>
      rcases taskCreate_spec hr trampoline entry with
        ⟨h', hc', hr', hheaders, hsame⟩ | ⟨h', t, hc', hne, -⟩
      · obtain ⟨rfl, -⟩ := Prod.mk.inj (Option.some.inj (hc.symm.trans hc'))
        have hblocks : SameBlocks T.heap.mem h'.mem order other :=
          ⟨fun x hx => congrArg Task.stack (hsame x hx), hheaders⟩
        exact ⟨order, ⟨hr', hmem, hs.congr hr.cur fun x hx => congrArg Task.state (hsame x hx)⟩,
          hblocks.blocksStep⟩
      · exact absurd (Prod.mk.inj (Option.some.inj (hc.symm.trans hc'))).2.symm hne
  | @create T T' members stranded trampoline entry t hc hne =>
      rcases taskCreate_spec hr trampoline entry with
        ⟨h', hc', -⟩ | ⟨h', t', hc', -, hfresh, hr', hheaders, hstack, hready, hsame⟩
      · exact absurd (Prod.mk.inj (Option.some.inj (hc.symm.trans hc'))).2 hne
      · obtain ⟨rfl, rfl⟩ := Prod.mk.inj (Option.some.inj (hc.symm.trans hc'))
        have hblocks : SameBlocks T.heap.mem h'.mem order other :=
          ⟨fun x hx => (hsame x hx).stack, hheaders⟩
        refine ⟨order ++ [t], ⟨hr', fun x => ?_, hs.append hr.cur hready fun x hx =>
          (hsame x hx).state⟩, hblocks.mono fun x hx => of_decide_eq_true (List.mem_filter.mp hx).2,
          fun x hx hnot => ?_⟩
        · rw [List.mem_append, List.mem_singleton, hmem, List.mem_cons, or_comm]
        · have hxt : x = t :=
            List.mem_singleton.mp ((List.mem_append.mp hx).resolve_left hnot)
          rw [hxt]
          exact hstack
  | @schedule T members stranded rsp r hc =>
      obtain ⟨r', hc', he⟩ := schedule_effect hr hs.current_ne_ready rsp
      obtain rfl := Option.some.inj (hc.symm.trans hc')
      refine he.holds (.refl _ _ _) hmem (he.taskStates hs.others ?_ hr.cur fun _ => ?_)
      · exact hs.current.imp_right And.left
      · exact hs.current.imp_right And.right
  | @exit T members stranded rsp r hready hc =>
      obtain ⟨r', hc', he⟩ := taskExit_effect hr rsp
      obtain rfl := Option.some.inj (hc.symm.trans hc')
      obtain ⟨x, hx, hrest⟩ := hready
      exact he.holds hr.die.2.1 hmem
        (taskExit_states hr he hs.others (Or.inl ⟨x, (hmem x).mpr hx, hrest⟩))
  | @exitStranded T members stranded rsp r _ hc =>
      obtain ⟨r', hc', he⟩ := taskExit_effect hr rsp
      obtain rfl := Option.some.inj (hc.symm.trans hc')
      exact he.holds hr.die.2.1 hmem
        (taskExit_states hr he hs.others (Or.inr List.mem_cons_self))
  | @write T members stranded t x v ht hne hx1 hx2 =>
      have hset : ∀ y, y < (taskAt T.heap.mem t).stack ∨
          (taskAt T.heap.mem t).stack + taskStackSize ≤ y →
          T.heap.mem.set x v y = T.heap.mem y := fun y hy => Mem.set_other (by omega)
      obtain ⟨hr', hblocks, hsame⟩ := hr.write_stack ((hmem t).mpr ht) hne hset
      exact ⟨order,
        ⟨hr', hmem, hs.congr hr.cur fun y hy => congrArg Task.state (hsame y hy)⟩,
        hblocks.blocksStep⟩

theorem TaskStep.inv {h h' : TaskHistory σ} (hinv : h.Inv) (hst : TaskStep h h') : h'.Inv := by
  obtain ⟨order, other, hholds⟩ := hinv
  obtain ⟨order', hholds', -⟩ := hst.holds hholds
  exact ⟨order', other, hholds'⟩

theorem TaskHistory.inv_of_reachable {h : TaskHistory σ}
    (hr : Reachable TaskHistory.Start TaskStep h) : h.Inv := by
  refine hr.invariant ?_ fun _ _ hinv hst => hst.inv hinv
  rintro h ⟨heap, live, T, hheap, hinit, hne, rfl⟩
  rcases taskInit_spec ⟨heap, 0, 0, 0⟩ (HeapHistory.inv_of_reachable hheap) with
    hfail | ⟨T', hinit', hrep, hrun, -⟩
  · exact absurd (congrArg Tasks.currentTask (Option.some.inj (hinit.symm.trans hfail))) hne
  · obtain rfl := Option.some.inj (hinit.symm.trans hinit')
    refine ⟨_, live, hrep, fun x => Iff.rfl, ⟨fun x hx hxc => ?_, Or.inl hrun, ?_⟩⟩
    · exact absurd (List.mem_singleton.mp hx) hxc
    · intro x hx y hy hxc
      exact absurd (List.mem_singleton.mp hx) hxc

/-! ## What holds in every history -/

/-- What a call of `schedule` on the way from `T` may do. -/
structure SchedulesSafely (T : Tasks σ) (members : List Nat) (r : Scheduled σ) : Prop where
  /-- The task that is selected is a member that was ready. -/
  selected : ∀ n, r.next = some n → n ∈ members ∧ (taskAt T.heap.mem n).state = taskReady
  /-- `task_destroy` is not applied to the current task. -/
  spares : T.currentTask ∉ r.destroyed
  /-- `task_destroy` is applied to members that are dead. -/
  destroyed : ∀ x ∈ r.destroyed, x ∈ members ∧ (taskAt T.heap.mem x).state = taskDead

/-- The invariant of the scheduler, and the safety of its operations. -/
structure TaskHistory.Safe (h : TaskHistory σ) : Prop where
  /-- From `task_list`, `next` visits every member once and comes back. -/
  cycle : ∃ order, order.head? = some h.tasks.taskList ∧
    IsRing (taskNext h.tasks.heap.mem) order ∧ ∀ x, x ∈ order ↔ x ∈ h.members
  /-- The current task is a member. -/
  current : h.tasks.currentTask ∈ h.members
  /-- The other tasks are ready or dead. -/
  others : ∀ x ∈ h.members, x ≠ h.tasks.currentTask →
    (taskAt h.tasks.heap.mem x).state = taskReady ∨
    (taskAt h.tasks.heap.mem x).state = taskDead
  /-- The current task runs, or is dead and exited when no task was ready. -/
  current_state : (taskAt h.tasks.heap.mem h.tasks.currentTask).state = taskRunning ∨
    ((taskAt h.tasks.heap.mem h.tasks.currentTask).state = taskDead ∧
      h.tasks.currentTask ∈ h.stranded)
  /-- At most one other task is dead. -/
  one_dead : ∀ x ∈ h.members, ∀ y ∈ h.members,
    x ≠ h.tasks.currentTask → y ≠ h.tasks.currentTask →
    (taskAt h.tasks.heap.mem x).state = taskDead →
    (taskAt h.tasks.heap.mem y).state = taskDead → x = y
  /-- Nothing that is reachable has been freed: the members are closed under
  `next`, and their blocks are in use. -/
  not_freed : h.tasks.taskList ∈ h.members ∧
    ∀ x ∈ h.members, taskNext h.tasks.heap.mem x ∈ h.members ∧
      blockFree h.tasks.heap.mem (x - 16) = 0
  /-- `task_create` returns. -/
  create_returns : ∀ trampoline entry, (taskCreate trampoline entry h.tasks).isSome
  /-- `schedule` returns and is safe. -/
  schedule_safe : ∀ rsp, ∃ r, schedule rsp h.tasks = some r ∧
    SchedulesSafely h.tasks h.members r
  /-- `task_exit` gets back from `schedule`, which is safe on a current task
  that is dead. -/
  exit_safe : ∀ rsp, ∃ r, taskExit rsp h.tasks = some r ∧
    SchedulesSafely (h.tasks.withMem
      (setTaskState h.tasks.heap.mem h.tasks.currentTask taskDead)) h.members r

omit [HeapBacking σ] in
theorem ScheduleEffect.safely {T : Tasks σ} {order : List Nat} {other : List (Nat × Nat)}
    {r : Scheduled σ} {members : List Nat} (he : ScheduleEffect T order other r)
    (hmem : ∀ x, x ∈ order ↔ x ∈ members) : SchedulesSafely T members r where
  selected n hn := ⟨(hmem n).mp (he.selected n hn).1, (he.selected n hn).2.2⟩
  spares h := (he.destroyed _ h).2.1 rfl
  destroyed x hx := ⟨(hmem x).mp (he.destroyed x hx).1, (he.destroyed x hx).2.2⟩

/-- The scheduler is safe in every history of calls of `task_create`,
`schedule` and `task_exit` after `task_init`. -/
theorem scheduler_safe {h : TaskHistory σ} (hr : Reachable TaskHistory.Start TaskStep h) :
    h.Safe := by
  obtain ⟨order, other, hrep, hmem, hs⟩ := TaskHistory.inv_of_reachable hr
  constructor
  case cycle => exact ⟨order, hrep.head, hrep.ring, hmem⟩
  case current => exact (hmem _).mp hrep.cur
  case others => exact fun x hx => hs.others x ((hmem x).mpr hx)
  case current_state => exact hs.current
  case one_dead => exact fun x hx y hy => hs.oneDead x ((hmem x).mpr hx) y ((hmem y).mpr hy)
  case not_freed =>
    refine ⟨(hmem _).mp (List.mem_of_mem_head? hrep.head), fun x hx => ?_⟩
    have hx' := (hmem x).mpr hx
    exact ⟨(hmem _).mp (hrep.ring.next_mem hx'), hrep.heap.used (hrep.tcb hx')⟩
  case create_returns =>
    intro trampoline entry
    rcases taskCreate_spec hrep trampoline entry with ⟨h', hc, -⟩ | ⟨h', t, hc, -⟩
    · rw [hc]
      rfl
    · rw [hc]
      rfl
  case schedule_safe =>
    intro rsp
    obtain ⟨r, hc, he⟩ := schedule_effect hrep hs.current_ne_ready rsp
    exact ⟨r, hc, he.safely hmem⟩
  case exit_safe =>
    intro rsp
    obtain ⟨r, hc, he⟩ := taskExit_effect hrep rsp
    exact ⟨r, hc, he.safely hmem⟩

end

/-! ## Two tasks -/

/-- The boot task on a fresh heap. -/
def bootTasks : Tasks Unit :=
  (taskInit ⟨kheapInit (fun _ => 0) (), 0, 0, 0⟩).get (by decide +kernel)

/-- The boot task and a second task. -/
def pairTasks : Tasks Unit :=
  ((taskCreate 0x100500 0x100600 bootTasks).get (by decide +kernel)).1

theorem taskInit_bootTasks :
    taskInit ⟨kheapInit (fun _ => 0) (), 0, 0, 0⟩ = some bootTasks := by
  rw [bootTasks, Option.some_get]

theorem taskCreate_pairTasks :
    taskCreate 0x100500 0x100600 bootTasks = some (pairTasks, 0x200048) := by
  have hsnd : ((taskCreate 0x100500 0x100600 bootTasks).get (by decide +kernel)).2
      = 0x200048 := by decide +kernel
  rw [pairTasks, ← hsnd, Option.some_get]

theorem pairTasks_reachable :
    Reachable TaskHistory.Start TaskStep ⟨pairTasks, [0x200048, 0x200010], []⟩ := by
  have hcur : bootTasks.currentTask = 0x200010 := by decide +kernel
  have hboot : TaskHistory.Start ⟨bootTasks, [0x200010], []⟩ :=
    ⟨_, _, bootTasks, .init ⟨_, _, rfl⟩, taskInit_bootTasks, by decide +kernel, by rw [hcur]⟩
  exact .step (.init hboot) (.create taskCreate_pairTasks (by decide))

/-- The boot task calls `schedule`. -/
def secondScheduled : Scheduled Unit := (schedule 0x111000 pairTasks).get (by decide +kernel)

/-- The second task exits. -/
def secondExited : Scheduled Unit :=
  (taskExit 0x203000 secondScheduled.tasks).get (by decide +kernel)

/-- The scheduler is safe when the second task has run and is dead. -/
theorem scheduler_safe_dead :
    (⟨secondExited.tasks, [0x200048, 0x200010], []⟩ : TaskHistory Unit).Safe ∧
      secondExited.tasks.currentTask = 0x200010 ∧
      (taskAt secondExited.tasks.heap.mem 0x200048).state = taskDead := by
  have hschedule : schedule 0x111000 pairTasks = some secondScheduled := by
    rw [secondScheduled, Option.some_get]
  have hexit : taskExit 0x203000 secondScheduled.tasks = some secondExited := by
    rw [secondExited, Option.some_get]
  have hnone : secondScheduled.destroyed = [] ∧ secondExited.destroyed = [] := by decide +kernel
  have hafter : ∀ r : Scheduled Unit, r.destroyed = [] →
      TaskHistory.after r [0x200048, 0x200010] [] = ⟨r.tasks, [0x200048, 0x200010], []⟩ := by
    intro r hr
    rw [TaskHistory.after, hr]
    rfl
  have hrun := pairTasks_reachable.step (.schedule hschedule)
  rw [hafter _ hnone.1] at hrun
  have hready : TaskHistory.AnyReady secondScheduled.tasks [0x200048, 0x200010] :=
    ⟨0x200010, by decide, by decide +kernel, by decide +kernel⟩
  have hrun := hrun.step (.exit hready hexit)
  rw [hafter _ hnone.2] at hrun
  exact ⟨scheduler_safe hrun, by decide +kernel, by decide +kernel⟩

end TunaOs
