import TunaOs.Task.Safety

/-!
# The numbers of the tasks

`task_init` and `task_create` give each task the number `next_id`, which has 64 bits and goes up
by one.  The history of the scheduler is extended by the numbers that were given out.
`TaskStep.ids` says what one operation does to them: it gives out one, or changes none.
`task_ids` states that for the first `2 ^ 64` tasks the numbers are 0, 1, 2 and so on, so that no
two tasks ever have the same, whatever tasks are destroyed and whatever memory is used again.
-/

namespace TunaOs

open Circular (IsRing)
open Run (Reachable)
open Word (wrap64)

/-- `t->id`. -/
def taskId (m : Mem) (t : Nat) : Nat := (taskAt m t).id

theorem SameTask.id {a b : Task} (h : SameTask a b) : b.id = a.id := by rw [h]

/-- Writes behind the first field leave it alone. -/
theorem taskId_store {m : Mem} {x a n v : Nat} (h : x + 8 ≤ a ∨ a + n ≤ x) :
    taskId (m.store a n v) x = taskId m x := Mem.load_store_other h

theorem taskId_setTaskId (m : Mem) (t v : Nat) : taskId (setTaskId m t v) t = wrap64 v :=
  Mem.load_store_self 8 m t v

section

variable {σ : Type} {T : Tasks σ} {order : List Nat} {other : List (Nat × Nat)}

/-- Writes to another field of a task leave the numbers alone. -/
theorem TaskRep.taskId_field (hr : TaskRep T order other) {m : Mem} {x t k n v : Nat}
    (hx : x ∈ order) (ht : t ∈ order) (hk : 8 ≤ k) (hn : k + n ≤ 40) :
    taskId (m.store (t + k) n v) x = taskId m x := by
  refine taskId_store ?_
  by_cases heq : x = t
  · omega
  · have hapart := hr.apart hx ht heq
    simp only [taskSize] at hapart
    omega

/-! ## `schedule` -/

theorem switchTask_ids (hr : TaskRep T order other) {n : Nat} (hn : n ∈ order) (rsp : Nat)
    {x : Nat} (hx : x ∈ order) :
    taskId (switchTask rsp T n).heap.mem x = taskId T.heap.mem x := by
  have hleave : taskId (if (taskAt T.heap.mem T.currentTask).state = taskRunning then
      setTaskState T.heap.mem T.currentTask taskReady else T.heap.mem) x = taskId T.heap.mem x := by
    split
    · exact hr.taskId_field hx hr.cur (by decide) (by decide)
    · rfl
  have hlast : taskId (switchTask rsp T n).heap.mem x = taskId (setTaskState
      (if (taskAt T.heap.mem T.currentTask).state = taskRunning then
        setTaskState T.heap.mem T.currentTask taskReady else T.heap.mem) n taskRunning) x :=
    hr.taskId_field hx hr.cur (by decide) (by decide)
  exact (hlast.trans (hr.taskId_field hx hn (by decide) (by decide))).trans hleave

/-- The numbers after the search for the next task. -/
theorem dispatch_ids {l : List Nat} (hr : TaskRep T order other)
    (hring : IsRing (taskNext T.heap.mem) (T.currentTask :: l))
    (hmem : ∀ x ∈ T.currentTask :: l, x ∈ order)
    (hcur : isReady T.heap.mem T.currentTask = false) {rsp : Nat} {destroyed : List Nat}
    {r : Scheduled σ} (hc : dispatch rsp T destroyed = some r) :
    r.destroyed = destroyed ∧ r.tasks.nextId = T.nextId ∧
      ∀ x ∈ order, taskId r.tasks.heap.mem x = taskId T.heap.mem x := by
  obtain ⟨T', hspec, -⟩ := dispatch_spec hr hring hmem hcur rsp destroyed
  have hnext : r.next = l.find? (isReady T.heap.mem) :=
    congrArg Scheduled.next (Option.some.inj (hc.symm.trans hspec))
  simp only [dispatch] at hc
  split at hc
  case h_1 => cases hc
  case h_2 n hscan =>
    split at hc
    case isTrue =>
      obtain rfl := Option.some.inj hc
      exact ⟨rfl, rfl, fun _ _ => rfl⟩
    case isFalse =>
      obtain rfl := Option.some.inj hc
      have hn : n ∈ l := List.mem_of_find?_eq_some hnext.symm
      exact ⟨rfl, rfl, fun x hx => switchTask_ids hr (hmem n (List.mem_cons_of_mem _ hn)) rsp hx⟩

/-- `schedule` by a task that is not ready itself leaves the numbers alone. -/
theorem schedule_ids (hr : TaskRep T order other)
    (hcur : (taskAt T.heap.mem T.currentTask).state ≠ taskReady) {rsp : Nat} {r : Scheduled σ}
    (hc : schedule rsp T = some r) : r.tasks.nextId = T.nextId ∧
      ∀ x ∈ order, x ∉ r.destroyed → taskId r.tasks.heap.mem x = taskId T.heap.mem x := by
  obtain ⟨l₁, l₂, rfl⟩ := List.append_of_mem hr.cur
  obtain ⟨m', L, h, hsched, -, hleft⟩ := schedule_reaped hr
  rw [hsched] at hc
  have hcur' : isReady m' T.currentTask = false := by
    rw [isReady, (h.same _ (hleft _ List.mem_cons_self)).state]
    exact decide_eq_false hcur
  obtain ⟨hdestroyed, hid, hids⟩ := dispatch_ids h.rep h.ring hleft hcur' hc
  refine ⟨hid, fun x hx hnot => ?_⟩
  rw [hdestroyed] at hnot
  have hin : x ∈ (l₁ ++ T.currentTask :: l₂).filter
      (· ∉ (l₂ ++ l₁).filter (isDead T.heap.mem)) :=
    List.mem_filter.mpr ⟨hx, decide_eq_true hnot⟩
  exact (hids x hin).trans (h.same x hin).id

/-! ## `task_create` -/

/-- The number of a task before it is linked. -/
theorem taskId_setupTask {m : Mem} {t stack : Nat}
    (hapart : t + taskSize ≤ stack ∨ stack + taskStackSize ≤ t) (id trampoline entry : Nat) :
    taskId (setupTask m t stack id trampoline entry) t = wrap64 id := by
  have hfields : taskId (setTaskStack (setTaskState (setTaskId m t id) t taskReady) t stack) t
      = wrap64 id := by
    rw [setTaskStack, taskId_store (by omega), setTaskState, taskId_store (by omega),
      taskId_setTaskId]
  have hpush : taskId (pushWords (initialWords trampoline entry)
      (setTaskStack (setTaskState (setTaskId m t id) t taskReady) t stack)
      (stack + taskStackSize)).1 t = wrap64 id := by
    have hlen : 8 * (initialWords trampoline entry).length = 56 := rfl
    simp only [taskSize, taskStackSize] at hapart ⊢
    rw [← hfields]
    exact Mem.load_congr fun x h1 h2 => (pushWords_spec _ _ (by omega)).2 x (by omega)
  exact (taskId_store (by omega)).trans hpush

variable [HeapBacking σ]

/-- `task_create` gives out `next_id`. -/
theorem taskCreate_ids (hr : TaskRep T order other) {trampoline entry t : Nat} {T' : Tasks σ}
    (hc : taskCreate trampoline entry T = some (T', t)) (hne : t ≠ 0) :
    T'.nextId = wrap64 (T.nextId + 1) ∧ taskId T'.heap.mem t = wrap64 T.nextId ∧ t ∉ order ∧
      ∀ x ∈ order, taskId T'.heap.mem x = taskId T.heap.mem x := by
  rcases taskCreate_blocks hr.heap trampoline entry with ⟨h', hc', -⟩ | ⟨h₂, t', stack, hb⟩
  · exact absurd (Prod.mk.inj (Option.some.inj (hc.symm.trans hc'))).2 hne
  obtain ⟨hinv₃, hkept₃, -, -, hstack⟩ := setupTask_spec hb.inv T.nextId trampoline entry
  have hid := taskId_setupTask (m := h₂.mem) (hb.inv.disjoint
    (List.mem_cons_of_mem _ List.mem_cons_self) List.mem_cons_self (hb.inv.head_ne
      List.mem_cons_self)) T.nextId trampoline entry
  have hcreate := fun tail =>
    hb.taskCreate_linked trampoline entry tail (hr.pos (List.mem_of_mem_head? hr.head))
  generalize setupTask h₂.mem t' stack T.nextId trampoline entry = m₃
    at hcreate hinv₃ hkept₃ hstack hid
  have hsame₃ : ∀ x ∈ order, taskAt m₃ x = taskAt T.heap.mem x := fun x hx =>
    taskAt_congr fun y h1 h2 => (hkept₃ x taskSize (hr.tcb hx) y h1 h2).trans
      (hb.kept.payload x taskSize (hr.tcb hx) y h1 h2)
  have hallocs : taskAllocs m₃ order = taskAllocs T.heap.mem order :=
    taskAllocs_congr fun x hx => congrArg Task.stack (hsame₃ x hx)
  rw [← hallocs] at hinv₃
  obtain ⟨tail, hfind, -, -, hfresh, -, hsame₄⟩ := linkTask_spec hinv₃
    (hr.ring.congr fun x hx => congrArg Task.next (hsame₃ x hx)) hr.head hstack
  obtain ⟨rfl, rfl⟩ := Prod.mk.inj (Option.some.inj (hc.symm.trans (hcreate tail hfind)))
  refine ⟨rfl, ?_, hfresh, fun x hx => ?_⟩
  · exact (hsame₄ t (List.mem_append_right _ (List.mem_singleton_self _))).id.trans hid
  · exact (hsame₄ x (List.mem_append_left _ hx)).id.trans (congrArg Task.id (hsame₃ x hx))

/-- `task_init` gives out 0. -/
theorem taskInit_ids {heap : Heap σ} {T : Tasks σ} (hinit : taskInit ⟨heap, 0, 0, 0⟩ = some T)
    (hne : T.currentTask ≠ 0) : T.nextId = 1 ∧ taskId T.heap.mem T.currentTask = 0 := by
  rw [taskInit] at hinit
  split at hinit
  case h_1 => cases hinit
  case h_2 h boot hk =>
    simp only at hinit
    split at hinit
    case isTrue =>
      obtain rfl := Option.some.inj hinit
      exact absurd rfl hne
    case isFalse =>
      obtain rfl := Option.some.inj hinit
      refine ⟨rfl, ?_⟩
      change taskId (setTaskNext (setTaskStack (setTaskState (setTaskRsp (setTaskId h.mem boot 0)
        boot 0) boot taskRunning) boot 0) boot boot) boot = 0
      rw [setTaskNext, taskId_store (by omega), setTaskStack, taskId_store (by omega),
        setTaskState, taskId_store (by omega), setTaskRsp, taskId_store (by omega),
        taskId_setTaskId]
      rfl

/-! ## Histories -/

/-- The number of a task. -/
def TaskHistory.idOf (h : TaskHistory σ) (x : Nat) : Nat := taskId h.tasks.heap.mem x

omit [HeapBacking σ] in
/-- `task_exit` leaves the numbers alone. -/
theorem taskExit_ids (hr : TaskRep T order other) {members : List Nat} {rsp : Nat}
    {r : Scheduled σ} (hmem : ∀ x, x ∈ order ↔ x ∈ members) (hc : taskExit rsp T = some r) :
    members.filter (· ∉ r.destroyed) ⊆ members ∧ r.tasks.nextId = T.nextId ∧
      ∀ x ∈ members.filter (· ∉ r.destroyed),
        taskId r.tasks.heap.mem x = taskId T.heap.mem x := by
  obtain ⟨hr', -, hst⟩ := hr.die
  have hcur : (taskAt (setTaskState T.heap.mem T.currentTask taskDead) T.currentTask).state
      ≠ taskReady := by
    rw [hst _ hr.cur, if_pos rfl]
    decide
  obtain ⟨hnext, hsame⟩ := schedule_ids hr' hcur hc
  refine ⟨fun _ hx => List.mem_of_mem_filter hx, hnext, fun x hx => ?_⟩
  obtain ⟨hin, hnot⟩ := List.mem_filter.mp hx
  have hx : x ∈ order := (hmem x).mpr hin
  exact (hsame x hx (of_decide_eq_true hnot)).trans
    (hr.taskId_field hx hr.cur (by decide) (by decide))

/-- What an operation does to the numbers: it gives out one, or changes none. -/
theorem TaskStep.ids {h h' : TaskHistory σ} (hinv : h.Inv) (hst : TaskStep h h') :
    (∃ t, h'.members = t :: h.members ∧ t ∉ h.members ∧
      h'.tasks.nextId = wrap64 (h.tasks.nextId + 1) ∧ h'.idOf t = wrap64 h.tasks.nextId ∧
      ∀ x ∈ h.members, h'.idOf x = h.idOf x) ∨
    (h'.members ⊆ h.members ∧ h'.tasks.nextId = h.tasks.nextId ∧
      ∀ x ∈ h'.members, h'.idOf x = h.idOf x) := by
  obtain ⟨order, other, hr, hmem, hs⟩ := hinv
  cases hst with
  | @createFails T T' members stranded trampoline entry hc =>
      rcases taskCreate_spec hr trampoline entry with ⟨h', hc', -, -, hsame⟩ | ⟨h', t, hc', hne, -⟩
      · obtain ⟨rfl, -⟩ := Prod.mk.inj (Option.some.inj (hc.symm.trans hc'))
        exact Or.inr ⟨fun _ hx => hx, rfl,
          fun x hx => congrArg Task.id (hsame x ((hmem x).mpr hx))⟩
      · exact absurd (Prod.mk.inj (Option.some.inj (hc.symm.trans hc'))).2.symm hne
  | @create T T' members stranded trampoline entry t hc hne =>
      obtain ⟨hnext, hid, hfresh, hsame⟩ := taskCreate_ids hr hc hne
      exact Or.inl ⟨t, rfl, fun hin => hfresh ((hmem t).mpr hin), hnext, hid,
        fun x hx => hsame x ((hmem x).mpr hx)⟩
  | @schedule T members stranded rsp r hc =>
      obtain ⟨hnext, hsame⟩ := schedule_ids hr hs.current_ne_ready hc
      refine Or.inr ⟨fun _ hx => List.mem_of_mem_filter hx, hnext, fun x hx => ?_⟩
      obtain ⟨hin, hnot⟩ := List.mem_filter.mp hx
      exact hsame x ((hmem x).mpr hin) (of_decide_eq_true hnot)
  | @exit T members stranded rsp r _ hc =>
      exact Or.inr (taskExit_ids hr hmem hc)
  | @exitStranded T members stranded rsp r _ hc =>
      exact Or.inr (taskExit_ids hr hmem hc)
  | @write T members stranded t x v ht hne hx1 hx2 =>
      have hset : ∀ y, y < (taskAt T.heap.mem t).stack ∨
          (taskAt T.heap.mem t).stack + taskStackSize ≤ y →
          T.heap.mem.set x v y = T.heap.mem y := fun y hy => Mem.set_other (by omega)
      obtain ⟨-, -, hsame⟩ := hr.write_stack ((hmem t).mpr ht) hne hset
      exact Or.inr ⟨fun _ hx => hx, rfl,
        fun x hx => congrArg Task.id (hsame x ((hmem x).mpr hx))⟩

/-- A history with the numbers that were given out, the last one first. -/
structure Numbered (σ : Type) where
  history : TaskHistory σ
  given : List Nat

/-- After `task_init`. -/
def Numbered.Start (n : Numbered σ) : Prop :=
  n.history.Start ∧ n.given = n.history.members.map n.history.idOf

/-- One operation, with the numbers of the tasks that are new. -/
def NumberedStep (n n' : Numbered σ) : Prop :=
  TaskStep n.history n'.history ∧ n'.given =
    (n'.history.members.filter (· ∉ n.history.members)).map n'.history.idOf ++ n.given

/-- The numbers so far are 0, 1, 2 and so on, and the tasks that are left have different ones. -/
structure Numbered.Counted (n : Numbered σ) : Prop where
  given : n.given = (List.range n.given.length).reverse
  next : n.history.tasks.nextId = wrap64 n.given.length
  mem : ∀ x ∈ n.history.members, n.history.idOf x ∈ n.given
  inj : ∀ x ∈ n.history.members, ∀ y ∈ n.history.members,
    n.history.idOf x = n.history.idOf y → x = y

theorem Numbered.Counted.start {n : Numbered σ} (h : n.Start) : n.Counted := by
  obtain ⟨⟨heap, live, T, -, hinit, hne, hh⟩, hgiven⟩ := h
  obtain ⟨hist, given⟩ := n
  obtain rfl : hist = _ := hh
  obtain ⟨hnext, hid⟩ := taskInit_ids hinit hne
  have hgiven : given = [0] := by
    rw [← hid]
    exact hgiven
  subst hgiven
  refine ⟨rfl, hnext, fun x hx => ?_, fun x hx y hy _ => ?_⟩
  · rw [List.mem_singleton.mp hx]
    exact List.mem_singleton.mpr hid
  · rw [List.mem_singleton.mp hx, List.mem_singleton.mp hy]

omit [HeapBacking σ] in
/-- A number that is given out is a new one, up to the last one of 64 bits. -/
theorem Numbered.Counted.give {n n' : Numbered σ} {t : Nat} (hn : n.Counted)
    (hmembers : n'.history.members = t :: n.history.members)
    (hnext : n'.history.tasks.nextId = wrap64 (n.history.tasks.nextId + 1))
    (hid : n'.history.idOf t = wrap64 n.history.tasks.nextId)
    (hsame : ∀ x ∈ n.history.members, n'.history.idOf x = n.history.idOf x)
    (hgiven : n'.given = n'.history.idOf t :: n.given) (hlen : n'.given.length ≤ 2 ^ 64) :
    n'.Counted := by
  have hlen' : n'.given.length = n.given.length + 1 := by rw [hgiven, List.length_cons]
  have hlt : n.given.length < 2 ^ 64 := by omega
  have hidt : n'.history.idOf t = n.given.length := by
    rw [hid, hn.next, Word.wrap64_of_lt hlt, Word.wrap64_of_lt hlt]
  -- a task that was there has an older number
  have hold : ∀ x ∈ n.history.members, n'.history.idOf x < n.given.length := by
    intro x hx
    have hin := hn.mem x hx
    rw [hn.given, List.mem_reverse, List.mem_range] at hin
    rw [hsame x hx]
    exact hin
  refine ⟨?_, ?_, fun x hx => ?_, fun x hx y hy heq => ?_⟩
  · rw [hlen', List.range_succ, List.reverse_append, ← hn.given, hgiven, hidt]
    rfl
  · rw [hnext, hn.next, Word.wrap64_of_lt hlt, hlen']
  · rw [hmembers] at hx
    rw [hgiven]
    rcases List.mem_cons.mp hx with rfl | hx
    · exact List.mem_cons_self
    · rw [hsame x hx]
      exact List.mem_cons_of_mem _ (hn.mem x hx)
  · rw [hmembers] at hx hy
    rcases List.mem_cons.mp hx with hxt | hx'
    · rcases List.mem_cons.mp hy with hyt | hy'
      · rw [hxt, hyt]
      · have := hold y hy'
        rw [hxt] at heq
        omega
    · rcases List.mem_cons.mp hy with hyt | hy'
      · have := hold x hx'
        rw [hyt] at heq
        omega
      · rw [hsame x hx', hsame y hy'] at heq
        exact hn.inj x hx' y hy' heq

omit [HeapBacking σ] in
/-- Tasks that are left keep their numbers. -/
theorem Numbered.Counted.keep {n n' : Numbered σ} (hn : n.Counted)
    (hsub : n'.history.members ⊆ n.history.members)
    (hnext : n'.history.tasks.nextId = n.history.tasks.nextId)
    (hsame : ∀ x ∈ n'.history.members, n'.history.idOf x = n.history.idOf x)
    (hgiven : n'.given = n.given) : n'.Counted := by
  refine ⟨?_, ?_, fun x hx => ?_, fun x hx y hy heq => ?_⟩
  · rw [hgiven]
    exact hn.given
  · rw [hnext, hgiven]
    exact hn.next
  · rw [hsame x hx, hgiven]
    exact hn.mem x (hsub hx)
  · rw [hsame x hx, hsame y hy] at heq
    exact hn.inj x (hsub hx) y (hsub hy) heq

theorem Numbered.Counted.step {n n' : Numbered σ} (hinv : n.history.Inv) (hn : n.Counted)
    (hst : NumberedStep n n') (hlen : n'.given.length ≤ 2 ^ 64) : n'.Counted := by
  obtain ⟨hstep, hgiven⟩ := hst
  rcases hstep.ids hinv with ⟨t, hmembers, hfresh, hnext, hid, hsame⟩ | ⟨hsub, hnext, hsame⟩
  · have hnew : n'.history.members.filter (· ∉ n.history.members) = [t] := by
      rw [hmembers, List.filter_cons, if_pos (decide_eq_true hfresh),
        List.filter_eq_nil_iff.mpr fun x hx => by simpa using hx]
    rw [hnew] at hgiven
    exact hn.give hmembers hnext hid hsame hgiven hlen
  · have hnone : n'.history.members.filter (· ∉ n.history.members) = [] :=
      List.filter_eq_nil_iff.mpr fun x hx => by simpa using hsub hx
    rw [hnone] at hgiven
    exact hn.keep hsub hnext hsame hgiven

/-- The history without the numbers. -/
theorem Numbered.inv_of_reachable {n : Numbered σ}
    (hr : Reachable Numbered.Start NumberedStep n) : n.history.Inv :=
  hr.invariant (fun _ h0 => TaskHistory.inv_of_reachable (.init h0.1))
    fun _ _ hinv hst => hst.1.inv hinv

/-- Along every history of the scheduler, as long as there have not been more than `2 ^ 64`
tasks: the numbers that were given out are 0, 1, 2 and so on, one for each task that was ever
created, every task has one of them, and no two tasks have the same. -/
theorem task_ids {n : Numbered σ} (hr : Reachable Numbered.Start NumberedStep n)
    (hlen : n.given.length ≤ 2 ^ 64) :
    n.given = (List.range n.given.length).reverse ∧
      (∀ x ∈ n.history.members, n.history.idOf x ∈ n.given) ∧
      ∀ x ∈ n.history.members, ∀ y ∈ n.history.members,
        n.history.idOf x = n.history.idOf y → x = y := by
  have hcounted : n.given.length ≤ 2 ^ 64 → n.Counted := by
    induction hr with
    | init h0 => exact fun _ => .start h0
    | @step n n' hr' hst ih =>
        intro hlen'
        have hle : n.given.length ≤ n'.given.length := by
          rw [hst.2, List.length_append]
          exact Nat.le_add_left _ _
        exact (ih (Nat.le_trans hle hlen') (Nat.le_trans hle hlen')).step
          (Numbered.inv_of_reachable hr') hst hlen'
  exact ⟨(hcounted hlen).given, (hcounted hlen).mem, (hcounted hlen).inj⟩

end

/-- The boot task has the number 0, and the next one has 1. -/
theorem task_ids_pair : ∃ n : Numbered Unit, Reachable Numbered.Start NumberedStep n ∧
    n.history = ⟨pairTasks, [0x200048, 0x200010], []⟩ ∧ n.given.length = 2 ∧
    n.history.idOf 0x200048 ≠ n.history.idOf 0x200010 := by
  have hcur : bootTasks.currentTask = 0x200010 := by decide +kernel
  have hboot : TaskHistory.Start ⟨bootTasks, [0x200010], []⟩ :=
    ⟨_, _, bootTasks, .init ⟨_, _, rfl⟩, taskInit_bootTasks, by decide +kernel, by rw [hcur]⟩
  have hstart : Reachable Numbered.Start NumberedStep
      ⟨⟨bootTasks, [0x200010], []⟩, [taskId bootTasks.heap.mem 0x200010]⟩ := .init ⟨hboot, rfl⟩
  have hreach : Reachable Numbered.Start NumberedStep
      ⟨⟨pairTasks, [0x200048, 0x200010], []⟩,
        [taskId pairTasks.heap.mem 0x200048, taskId bootTasks.heap.mem 0x200010]⟩ :=
    .step hstart ⟨.create taskCreate_pairTasks (by decide), rfl⟩
  refine ⟨_, hreach, rfl, rfl, fun heq => ?_⟩
  have hsame := (task_ids hreach (by decide)).2.2 _ List.mem_cons_self _
    (List.mem_cons_of_mem _ List.mem_cons_self) heq
  exact absurd hsame (by decide)

end TunaOs
