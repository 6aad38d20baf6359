import TunaOs.Lib.Turns
import TunaOs.Task.Safety

/-!
# Round robin

Every call of `schedule` passes the processor to a task of the list, to the current one if no
other is ready.  A run is labelled with the tasks that get it.

Let `X` be the current task, and let `X` and another task `Y` stay alive.  Read from behind
the current task, the list has `Y` before `X` until `Y` has had its turn, and never again
before `X` has had its own: that number and the number of turns `Y` has had add up to 1
(`Quota`).  Tasks that are created, exit or are reaped meanwhile do not enter into it.

With no creation and no exit the live tasks behind the current one, followed by the current
one, are the next tasks in order.  Each turn moves the first of them to the end.
-/

namespace TunaOs

open Circular (IsRing)
open Run (Reachable Traced)
open Turns

attribute [local irreducible] taskAt

/-! ## Turns -/

section

variable {σ : Type} [HeapBacking σ]

/-- Steps without a creation or an exit, with the task that gets the processor. -/
inductive ScheduleTurn : TaskHistory σ → List Nat → TaskHistory σ → Prop
  | schedule {T : Tasks σ} {members stranded : List Nat} {rsp : Nat} {r : Scheduled σ} :
      schedule rsp T = some r →
      ScheduleTurn ⟨T, members, stranded⟩ [r.tasks.currentTask]
        (TaskHistory.after r members stranded)
  | write {T : Tasks σ} {members stranded : List Nat} {t x : Nat} {v : UInt8} :
      t ∈ members → (taskAt T.heap.mem t).stack ≠ 0 → (taskAt T.heap.mem t).stack ≤ x →
      x < (taskAt T.heap.mem t).stack + taskStackSize →
      ScheduleTurn ⟨T, members, stranded⟩ []
        ⟨T.withMem (T.heap.mem.set x v), members, stranded⟩

/-- The steps of a history, with the task that gets the processor. -/
inductive TaskTurn : TaskHistory σ → List Nat → TaskHistory σ → Prop
  | turn {h h' : TaskHistory σ} {ds : List Nat} : ScheduleTurn h ds h' → TaskTurn h ds h'
  | createFails {T T' : Tasks σ} {members stranded : List Nat} {trampoline entry : Nat} :
      taskCreate trampoline entry T = some (T', 0) →
      TaskTurn ⟨T, members, stranded⟩ [] ⟨T', members, stranded⟩
  | create {T T' : Tasks σ} {members stranded : List Nat} {trampoline entry t : Nat} :
      taskCreate trampoline entry T = some (T', t) → t ≠ 0 →
      TaskTurn ⟨T, members, stranded⟩ [] ⟨T', t :: members, stranded⟩
  | exit {T : Tasks σ} {members stranded : List Nat} {rsp : Nat} {r : Scheduled σ} :
      TaskHistory.AnyReady T members → taskExit rsp T = some r →
      TaskTurn ⟨T, members, stranded⟩ [r.tasks.currentTask]
        (TaskHistory.after r members stranded)
  | exitStranded {T : Tasks σ} {members stranded : List Nat} {rsp : Nat} {r : Scheduled σ} :
      ¬ TaskHistory.AnyReady T members → taskExit rsp T = some r →
      TaskTurn ⟨T, members, stranded⟩ [r.tasks.currentTask]
        (TaskHistory.after r members (T.currentTask :: stranded))

theorem ScheduleTurn.taskStep {h h' : TaskHistory σ} {ds : List Nat} (ht : ScheduleTurn h ds h') :
    TaskStep h h' := by
  cases ht with
  | schedule hs => exact .schedule hs
  | write ht hne h1 h2 => exact .write ht hne h1 h2

theorem TaskTurn.taskStep {h h' : TaskHistory σ} {ds : List Nat} (ht : TaskTurn h ds h') :
    TaskStep h h' := by
  cases ht with
  | turn ht => exact ht.taskStep
  | createFails hc => exact .createFails hc
  | create hc hne => exact .create hc hne
  | exit hready hc => exact .exit hready hc
  | exitStranded hno hc => exact .exitStranded hno hc

theorem TaskTurn.label {h h' : TaskHistory σ} {ds : List Nat} (ht : TaskTurn h ds h') :
    ds = [] ∨ ∃ d, ds = [d] := by
  cases ht with
  | turn ht =>
      cases ht with
      | schedule => exact Or.inr ⟨_, rfl⟩
      | write => exact Or.inl rfl
  | createFails => exact Or.inl rfl
  | create => exact Or.inl rfl
  | exit => exact Or.inr ⟨_, rfl⟩
  | exitStranded => exact Or.inr ⟨_, rfl⟩

/-- Every step is one of those. -/
theorem TaskStep.taskTurn {h h' : TaskHistory σ} (hst : TaskStep h h') :
    ∃ ds, TaskTurn h ds h' := by
  cases hst with
  | createFails hc => exact ⟨_, .createFails hc⟩
  | create hc hne => exact ⟨_, .create hc hne⟩
  | schedule hs => exact ⟨_, .turn (.schedule hs)⟩
  | exit hready hc => exact ⟨_, .exit hready hc⟩
  | exitStranded hno hc => exact ⟨_, .exitStranded hno hc⟩
  | write ht hne h1 h2 => exact ⟨_, .turn (.write ht hne h1 h2)⟩

end

/-- The task is in the list and has not exited. -/
def TaskHistory.Alive {σ : Type} (h : TaskHistory σ) (x : Nat) : Prop :=
  x ∈ h.members ∧ (taskAt h.tasks.heap.mem x).state ≠ taskDead

/-! ## One turn -/

section

variable {σ : Type} {T : Tasks σ} {l₁ l₂ : List Nat} {other : List (Nat × Nat)} {rsp d : Nat}
  {r : Scheduled σ}

/-- The tasks behind the current one are the others. -/
theorem mem_rest (hr : TaskRep T (l₁ ++ T.currentTask :: l₂) other) (x : Nat) :
    x ∈ l₂ ++ l₁ ↔ x ∈ l₁ ++ T.currentTask :: l₂ ∧ x ≠ T.currentTask := by
  rw [List.perm_append_comm.mem_iff, mem_middle hr.ring.nodup]

/-- What a call of `schedule` does, read from its result. -/
theorem schedule_result (hr : TaskRep T (l₁ ++ T.currentTask :: l₂) other)
    (hcur : isReady T.heap.mem T.currentTask = false) (hs : schedule rsp T = some r) :
    r.destroyed = (l₂ ++ l₁).filter (isDead T.heap.mem) ∧
      TaskRep r.tasks ((l₁ ++ T.currentTask :: l₂).filter (· ∉ r.destroyed)) other ∧
      r.tasks.currentTask = ((l₂ ++ l₁).find? (isReady T.heap.mem)).getD T.currentTask ∧
      ∀ x ∈ (l₁ ++ T.currentTask :: l₂).filter (· ∉ r.destroyed),
        (taskAt r.tasks.heap.mem x).state = stateAfter T.currentTask
          ((l₂ ++ l₁).find? (isReady T.heap.mem)) x (taskAt T.heap.mem x).state := by
  obtain ⟨T', hs', hr', -, -, hspec⟩ := schedule_spec hr hcur rsp
  obtain rfl := Option.some.inj (hs.symm.trans hs')
  exact ⟨rfl, hr', hspec⟩

/-- Only dead tasks are destroyed. -/
theorem schedule_keeps (hr : TaskRep T (l₁ ++ T.currentTask :: l₂) other)
    (hcur : isReady T.heap.mem T.currentTask = false) (hs : schedule rsp T = some r) {x : Nat}
    (hx : isDead T.heap.mem x = false) : x ∉ r.destroyed := by
  obtain ⟨hdestroyed, -⟩ := schedule_result hr hcur hs
  intro hmem
  rw [hdestroyed, List.mem_filter, hx] at hmem
  cases hmem.2

/-- A turn of the task `d`, read from behind it.  The dead tasks are gone. -/
theorem schedule_rotates (hr : TaskRep T (l₁ ++ T.currentTask :: l₂) other)
    (hcur : isReady T.heap.mem T.currentTask = false)
    (hfind : (l₂ ++ l₁).find? (isReady T.heap.mem) = some d) (hs : schedule rsp T = some r) :
    r.tasks.currentTask = d ∧ ∃ pre suf L₁ L₂, l₂ ++ l₁ = pre ++ d :: suf ∧
      (∀ x ∈ pre, isReady T.heap.mem x = false) ∧
      (l₁ ++ T.currentTask :: l₂).filter (· ∉ r.destroyed) = L₁ ++ d :: L₂ ∧
      L₂ ++ L₁ = (suf ++ T.currentTask :: pre).filter (· ∉ r.destroyed) := by
  obtain ⟨-, -, hcur', -⟩ := schedule_result hr hcur hs
  rw [hfind, Option.getD_some] at hcur'
  obtain ⟨pre, suf, L₁, L₂, hrest, hpre, horder, hrot⟩ := next_split (c := T.currentTask) hfind
  have hd : d ∉ r.destroyed :=
    schedule_keeps hr hcur hs (isReady_not_dead (List.find?_some hfind))
  refine ⟨hcur', pre, suf, L₁.filter (· ∉ r.destroyed), L₂.filter (· ∉ r.destroyed), hrest, hpre,
    ?_, ?_⟩
  · rw [horder, List.filter_append, List.filter_cons_of_pos (by simpa using hd)]
  · rw [← hrot, List.filter_append]

/-- The task `X` has its turn only when `Y` is not before it, and every turn of `Y` counts. -/
theorem schedule_ahead {X Y : Nat} (hr : TaskRep T (l₁ ++ T.currentTask :: l₂) other)
    (hcur : isReady T.heap.mem T.currentTask = false) (hs : schedule rsp T = some r)
    (hX : X ∈ l₁ ++ T.currentTask :: l₂) (hY : Y ∈ l₁ ++ T.currentTask :: l₂) (hXY : X ≠ Y)
    (hreadyX : X ≠ T.currentTask → isReady T.heap.mem X = true)
    (hreadyY : Y ≠ T.currentTask → isReady T.heap.mem Y = true) :
    ∃ L₁ L₂, (l₁ ++ T.currentTask :: l₂).filter (· ∉ r.destroyed)
        = L₁ ++ r.tasks.currentTask :: L₂ ∧
      (r.tasks.currentTask = X → ahead X Y (l₂ ++ l₁) = 0) ∧
      (r.tasks.currentTask ≠ X →
        ahead X Y (l₂ ++ l₁) = [r.tasks.currentTask].count Y + ahead X Y (L₂ ++ L₁)) := by
  obtain ⟨hdestroyed, -⟩ := schedule_result hr hcur hs
  have hkept : ∀ {Z}, (Z ≠ T.currentTask → isReady T.heap.mem Z = true) → Z ∉ r.destroyed := by
    intro Z hready hmem
    rw [hdestroyed] at hmem
    obtain ⟨hin, hdead⟩ := List.mem_filter.mp hmem
    rw [isReady_not_dead (hready ((mem_rest hr Z).mp hin).2)] at hdead
    cases hdead
  -- one of the two tasks is not the current one
  obtain ⟨d, hfind⟩ : ∃ d, (l₂ ++ l₁).find? (isReady T.heap.mem) = some d := by
    rw [← Option.isSome_iff_exists, List.find?_isSome]
    by_cases hXc : X = T.currentTask
    · have hYc : Y ≠ T.currentTask := fun h => hXY (hXc.trans h.symm)
      exact ⟨Y, (mem_rest hr Y).mpr ⟨hY, hYc⟩, hreadyY hYc⟩
    · exact ⟨X, (mem_rest hr X).mpr ⟨hX, hXc⟩, hreadyX hXc⟩
  obtain ⟨hd, pre, suf, L₁, L₂, hrest, hpre, horder, hrot⟩ := schedule_rotates hr hcur hfind hs
  have hnot : ∀ {Z}, (Z ≠ T.currentTask → isReady T.heap.mem Z = true) → Z ∉ pre := by
    intro Z hready hmem
    have hin : Z ∈ l₂ ++ l₁ := hrest ▸ List.mem_append_left _ hmem
    have := hready ((mem_rest hr Z).mp hin).2
    rw [hpre Z hmem] at this
    cases this
  have hcount : pre.count Y = 0 := List.count_eq_zero.mpr (hnot hreadyY)
  have hahead : ahead X Y (l₂ ++ l₁) = ahead X Y (d :: suf) := by
    rw [hrest, ahead_append_of_not_mem (hnot hreadyX), hcount, Nat.zero_add]
  refine ⟨L₁, L₂, hd ▸ horder, fun heq => ?_, fun hne => ?_⟩
  · rw [hahead, ← hd, heq, ahead_cons_self]
  · rw [hd] at hne ⊢
    have hturn : ahead X Y (d :: suf) = [d].count Y + ahead X Y suf :=
      ahead_append_of_not_mem (l := [d]) (by simpa using Ne.symm hne)
    rw [hahead, hturn, hrot, ahead_filter (p := fun x => decide (x ∉ r.destroyed))
      (decide_eq_true (hkept hreadyX)) (decide_eq_true (hkept hreadyY))]
    by_cases hXs : X ∈ suf
    · rw [ahead_append_of_mem hXs]
    · -- what lies behind the current task ends with `X` only if that is the current task
      have hXc : T.currentTask = X := by
        by_contra hXc
        have hin := (mem_rest hr X).mpr ⟨hX, Ne.symm hXc⟩
        rw [hrest, List.mem_append, List.mem_cons] at hin
        rcases hin with hin | hin | hin
        · exact hnot hreadyX hin
        · exact hne hin.symm
        · exact hXs hin
      rw [ahead_append_of_not_mem hXs, hXc, ahead_cons_self, ahead_of_not_mem hXs, Nat.add_zero]

/-- Nobody dies in a call of `schedule`. -/
theorem dead_stateAfter {cur x state : Nat} {next : Option Nat}
    (hnext : ∀ n, next = some n → x = n → state ≠ taskDead) :
    stateAfter cur next x state = taskDead ↔ state = taskDead := by
  cases next with
  | none => rfl
  | some n =>
      simp only [stateAfter]
      split
      case isTrue hx =>
          refine ⟨fun h => ?_, fun h => absurd h (hnext n rfl hx)⟩
          cases h
      case isFalse =>
          split
          case isTrue hrun =>
              rw [hrun.2]
              decide
          case isFalse => rfl

/-- The tasks of a list that have not exited. -/
def liveTasks (m : Mem) (l : List Nat) : List Nat := l.filter (!isDead m ·)

/-- The tasks that are left are dead exactly if they were. -/
theorem schedule_isDead (hr : TaskRep T (l₁ ++ T.currentTask :: l₂) other)
    (hcur : isReady T.heap.mem T.currentTask = false) (hs : schedule rsp T = some r) {x : Nat}
    (hx : x ∈ (l₁ ++ T.currentTask :: l₂).filter (· ∉ r.destroyed)) :
    isDead r.tasks.heap.mem x = isDead T.heap.mem x := by
  obtain ⟨-, -, -, hst⟩ := schedule_result hr hcur hs
  refine decide_eq_decide.mpr ?_
  rw [hst x hx]
  refine dead_stateAfter fun n hn hxn => ?_
  subst hxn
  have hready : isReady T.heap.mem x = true := List.find?_some hn
  exact of_decide_eq_false (isReady_not_dead hready)

theorem liveTasks_append (m : Mem) (l l' : List Nat) :
    liveTasks m (l ++ l') = liveTasks m l ++ liveTasks m l' := List.filter_append ..

theorem liveTasks_cons {m : Mem} {x : Nat} (hx : isDead m x = false) (l : List Nat) :
    liveTasks m (x :: l) = x :: liveTasks m l := List.filter_cons_of_pos (by simp [hx])

theorem liveTasks_eq_nil {m : Mem} {l : List Nat} (h : ∀ x ∈ l, isDead m x = true) :
    liveTasks m l = [] := List.filter_eq_nil_iff.mpr fun x hx => by simp [h x hx]

/-- Of the tasks that are left, the live ones are those that were live. -/
theorem schedule_liveTasks (hr : TaskRep T (l₁ ++ T.currentTask :: l₂) other)
    (hcur : isReady T.heap.mem T.currentTask = false) (hs : schedule rsp T = some r)
    {l : List Nat} (hl : ∀ x ∈ l, x ∈ l₁ ++ T.currentTask :: l₂) :
    liveTasks r.tasks.heap.mem (l.filter (· ∉ r.destroyed)) = liveTasks T.heap.mem l := by
  have hsame : liveTasks r.tasks.heap.mem (l.filter (· ∉ r.destroyed))
      = liveTasks T.heap.mem (l.filter (· ∉ r.destroyed)) :=
    List.filter_congr fun x hx => by
      obtain ⟨hx, hkept⟩ := List.mem_filter.mp hx
      rw [schedule_isDead hr hcur hs (List.mem_filter.mpr ⟨hl x hx, hkept⟩)]
  rw [hsame, liveTasks, liveTasks, List.filter_filter]
  refine List.filter_congr fun x _ => ?_
  cases hx : isDead T.heap.mem x with
  | true => rfl
  | false => simp [schedule_keeps hr hcur hs hx]

/-- If no other task is ready they are all dead, and the current task is left alone. -/
theorem schedule_alone (hr : TaskRep T (l₁ ++ T.currentTask :: l₂) other)
    (hcur : isReady T.heap.mem T.currentTask = false)
    (halive : isDead T.heap.mem T.currentTask = false) (hs : schedule rsp T = some r)
    (hall : ∀ x ∈ l₂ ++ l₁, isDead T.heap.mem x = true) :
    (l₁ ++ T.currentTask :: l₂).filter (· ∉ r.destroyed) = [T.currentTask] := by
  obtain ⟨hdestroyed, -⟩ := schedule_result hr hcur hs
  have hnone : ∀ {l : List Nat}, (∀ x ∈ l, x ∈ l₂ ++ l₁) →
      l.filter (· ∉ r.destroyed) = [] := fun hsub =>
    List.filter_eq_nil_iff.mpr fun x hx => by
      rw [decide_eq_true_iff, hdestroyed, List.filter_eq_self.mpr hall]
      exact fun h => h (hsub x hx)
  have hself : T.currentTask ∉ r.destroyed := schedule_keeps hr hcur hs halive
  rw [List.filter_append, List.filter_cons_of_pos (by simpa using hself),
    hnone fun x hx => List.mem_append_right _ hx, hnone fun x hx => List.mem_append_left _ hx,
    List.nil_append]

/-- A turn moves the first of the live tasks, read from behind the current one up to it, to
the end. -/
theorem schedule_live (hr : TaskRep T (l₁ ++ T.currentTask :: l₂) other)
    (hrun : (taskAt T.heap.mem T.currentTask).state = taskRunning)
    (hothers : ∀ x ∈ l₂ ++ l₁, isReady T.heap.mem x = true ∨ isDead T.heap.mem x = true)
    (hs : schedule rsp T = some r) :
    ∃ L₁ L₂, (l₁ ++ T.currentTask :: l₂).filter (· ∉ r.destroyed)
        = L₁ ++ r.tasks.currentTask :: L₂ ∧
      liveTasks T.heap.mem (l₂ ++ l₁) ++ [T.currentTask]
        = r.tasks.currentTask :: liveTasks r.tasks.heap.mem (L₂ ++ L₁) := by
  have hcur : isReady T.heap.mem T.currentTask = false :=
    decide_eq_false (by rw [hrun]; decide)
  have halive : isDead T.heap.mem T.currentTask = false :=
    decide_eq_false (by rw [hrun]; decide)
  have hdead : ∀ {x}, x ∈ l₂ ++ l₁ → isReady T.heap.mem x = false →
      isDead T.heap.mem x = true := fun hx hno =>
    (hothers _ hx).resolve_left (Bool.eq_false_iff.mp hno)
  cases hfind : (l₂ ++ l₁).find? (isReady T.heap.mem) with
  | none =>
      have hall : ∀ x ∈ l₂ ++ l₁, isDead T.heap.mem x = true := fun x hx =>
        hdead hx (Bool.eq_false_iff.mpr (List.find?_eq_none.mp hfind x hx))
      obtain ⟨-, -, hcur', -⟩ := schedule_result hr hcur hs
      rw [hfind, Option.getD_none] at hcur'
      refine ⟨[], [], ?_, ?_⟩
      · rw [schedule_alone hr hcur halive hs hall, hcur']
        rfl
      · rw [liveTasks_eq_nil hall, hcur']
        rfl
  | some d =>
      obtain ⟨hd, pre, suf, L₁, L₂, hrest, hpre, horder, hrot⟩ := schedule_rotates hr hcur hfind hs
      have hpre' : liveTasks T.heap.mem pre = [] :=
        liveTasks_eq_nil fun x hx => hdead (hrest ▸ List.mem_append_left _ hx) (hpre x hx)
      have hmem : ∀ x ∈ suf ++ T.currentTask :: pre, x ∈ l₁ ++ T.currentTask :: l₂ := by
        intro x hx
        rw [List.mem_append, List.mem_cons] at hx
        rcases hx with hx | rfl | hx
        · exact ((mem_rest hr x).mp (hrest ▸ List.mem_append_right _ (.tail _ hx))).1
        · exact List.mem_append_right _ List.mem_cons_self
        · exact ((mem_rest hr x).mp (hrest ▸ List.mem_append_left _ hx)).1
      refine ⟨L₁, L₂, hd ▸ horder, ?_⟩
      rw [hrot, schedule_liveTasks hr hcur hs hmem, hrest, hd, liveTasks_append, liveTasks_append,
        hpre', liveTasks_cons (isReady_not_dead (List.find?_some hfind)), liveTasks_cons halive,
        hpre']
      rfl

end

/-! ## Runs -/

section

variable {σ : Type} {X Y : Nat}

/-- Behind the current task `Y` is before `X` as often as it may have its turn yet. -/
def Quota (X Y : Nat) (ds : List Nat) (h : TaskHistory σ) : Prop :=
  ∃ l₁ l₂ other, TaskRep h.tasks (l₁ ++ h.tasks.currentTask :: l₂) other ∧
    (∀ x, x ∈ l₁ ++ h.tasks.currentTask :: l₂ ↔ x ∈ h.members) ∧
    ahead X Y (l₂ ++ l₁) + ds.count Y = 1

/-- In a history the live tasks other than the current one are ready. -/
theorem TaskHistory.Inv.ready {h : TaskHistory σ} (hinv : h.Inv) {x : Nat} (hx : h.Alive x)
    (hne : x ≠ h.tasks.currentTask) : isReady h.tasks.heap.mem x = true := by
  obtain ⟨order, other, -, hmem, hst⟩ := hinv
  exact decide_eq_true ((hst.others x ((hmem x).mpr hx.1) hne).resolve_right hx.2)

theorem TaskHistory.Inv.not_ready {h : TaskHistory σ} (hinv : h.Inv) :
    isReady h.tasks.heap.mem h.tasks.currentTask = false := by
  obtain ⟨order, other, -, -, hst⟩ := hinv
  exact decide_eq_false hst.current_ne_ready

/-- The interval starts when `X` is the current task. -/
theorem TaskHistory.Inv.quota {h : TaskHistory σ} (hinv : h.Inv) (hX : h.tasks.currentTask = X)
    (hXY : X ≠ Y) (hY : h.Alive Y) : Quota X Y [] h := by
  obtain ⟨order, other, hr, hmem, -⟩ := hinv
  obtain ⟨l₁, l₂, heq⟩ := List.append_of_mem hr.cur
  subst heq
  have hnd := List.nodup_cons.mp hr.ring.rotate.nodup
  have hmemY : Y ∈ l₂ ++ l₁ :=
    (mem_rest hr Y).mpr ⟨(hmem Y).mpr hY.1, fun h => hXY (hX.symm.trans h.symm)⟩
  refine ⟨l₁, l₂, other, hr, hmem, ?_⟩
  rw [ahead_of_not_mem (hX ▸ hnd.1), List.count_eq_one_of_mem hnd.2 hmemY, List.count_nil]

/-- The quota after a turn of a task other than `X`, and at the turn of `X`. -/
theorem Quota.scheduled {T : Tasks σ} {r : Scheduled σ} {members stranded stranded' ds : List Nat}
    {rsp : Nat} (hq : Quota X Y ds ⟨T, members, stranded⟩)
    (hcur : isReady T.heap.mem T.currentTask = false) (hs : schedule rsp T = some r)
    (hX : X ∈ members) (hY : Y ∈ members) (hXY : X ≠ Y)
    (hreadyX : X ≠ T.currentTask → isReady T.heap.mem X = true)
    (hreadyY : Y ≠ T.currentTask → isReady T.heap.mem Y = true) :
    (r.tasks.currentTask = X → ds.count Y = 1) ∧
      (r.tasks.currentTask ≠ X → Quota X Y (ds ++ [r.tasks.currentTask])
        (TaskHistory.after r members stranded')) := by
  obtain ⟨l₁, l₂, other, hr, hmem, hquota⟩ := hq
  obtain ⟨L₁, L₂, horder, hturn, hwait⟩ := schedule_ahead hr hcur hs ((hmem X).mpr hX)
    ((hmem Y).mpr hY) hXY hreadyX hreadyY
  obtain ⟨-, hr', -⟩ := schedule_result hr hcur hs
  refine ⟨fun heq => ?_, fun hne => ⟨L₁, L₂, other, ?_, fun x => ?_, ?_⟩⟩
  · have := hturn heq
    omega
  · exact horder ▸ hr'
  · change x ∈ L₁ ++ r.tasks.currentTask :: L₂ ↔ x ∈ members.filter (· ∉ r.destroyed)
    rw [← horder, List.mem_filter, List.mem_filter, hmem]
  · have := hwait hne
    rw [List.count_append]
    omega

/-- The quota after a turn that an exit makes.  The task that exits is none of the two. -/
theorem Quota.exited {T : Tasks σ} {r : Scheduled σ} {members stranded stranded' ds : List Nat}
    {rsp : Nat} (hq : Quota X Y ds ⟨T, members, stranded⟩) (hs : taskExit rsp T = some r)
    (hXY : X ≠ Y) (hX : X ∈ members) (hY : Y ∈ members)
    (hreadyX : X ≠ T.currentTask → isReady T.heap.mem X = true)
    (hreadyY : Y ≠ T.currentTask → isReady T.heap.mem Y = true)
    (hX' : (TaskHistory.after r members stranded').Alive X)
    (hY' : (TaskHistory.after r members stranded').Alive Y) :
    (r.tasks.currentTask = X → ds.count Y = 1) ∧
      (r.tasks.currentTask ≠ X → Quota X Y (ds ++ [r.tasks.currentTask])
        (TaskHistory.after r members stranded')) := by
  obtain ⟨l₁, l₂, other, hr, hmem, hquota⟩ := hq
  obtain ⟨hr₀, -, hst⟩ := hr.die
  have hcurDead := hst _ hr.cur
  rw [if_pos rfl] at hcurDead
  have hcur : isReady (setTaskState T.heap.mem T.currentTask taskDead) T.currentTask = false :=
    decide_eq_false (by rw [hcurDead]; decide)
  have hne : ∀ {Z}, Z ∈ members → (TaskHistory.after r members stranded').Alive Z →
      Z ≠ T.currentTask := by
    rintro Z hZ halive rfl
    have hkept : T.currentTask ∈ (l₁ ++ T.currentTask :: l₂).filter (· ∉ r.destroyed) :=
      List.mem_filter.mpr ⟨hr.cur, (List.mem_filter.mp halive.1).2⟩
    have hdead := schedule_isDead hr₀ hcur hs hkept
    rw [show isDead (T.withMem (setTaskState T.heap.mem T.currentTask taskDead)).heap.mem
      T.currentTask = true from decide_eq_true hcurDead] at hdead
    exact halive.2 (of_decide_eq_true hdead)
  have hready : ∀ {Z}, Z ∈ members → (Z ≠ T.currentTask → isReady T.heap.mem Z = true) →
      Z ≠ T.currentTask →
      isReady (setTaskState T.heap.mem T.currentTask taskDead) Z = true := by
    intro Z hZ hready hZc
    have := of_decide_eq_true (hready hZc)
    exact decide_eq_true (by rw [hst Z ((hmem Z).mpr hZ), if_neg hZc, this])
  have hq₀ : Quota X Y ds ⟨T.withMem (setTaskState T.heap.mem T.currentTask taskDead), members,
      stranded⟩ := ⟨l₁, l₂, other, hr₀, hmem, hquota⟩
  exact hq₀.scheduled hcur hs hX hY hXY (fun _ => hready hX hreadyX (hne hX hX'))
    fun _ => hready hY hreadyY (hne hY hY')

/-- A new task is appended, and does not come in between. -/
theorem Quota.created {T : Tasks σ} {heap : Heap σ} {nextId t : Nat} {l₁ l₂ : List Nat}
    {other : List (Nat × Nat)} {members stranded ds : List Nat}
    (hr : TaskRep { T with heap, nextId } (l₁ ++ T.currentTask :: l₂ ++ [t]) other)
    (ht : t ∉ l₁ ++ T.currentTask :: l₂) (hmem : ∀ x, x ∈ l₁ ++ T.currentTask :: l₂ ↔ x ∈ members)
    (hX : X ∈ members) (hY : Y ∈ members) (hquota : ahead X Y (l₂ ++ l₁) + ds.count Y = 1) :
    Quota X Y ds ⟨{ T with heap, nextId }, t :: members, stranded⟩ := by
  have hne : ∀ {Z}, Z ∈ members → decide (Z ≠ t) = true := fun {Z} hZ =>
    decide_eq_true fun h => ht (h ▸ (hmem Z).mpr hZ)
  have hall : ∀ {l : List Nat}, (∀ z ∈ l, z ∈ l₁ ++ T.currentTask :: l₂) →
      l.filter (fun z => decide (z ≠ t)) = l := fun hsub =>
    List.filter_eq_self.mpr fun z hz => decide_eq_true fun h => ht (h ▸ hsub z hz)
  have h₁ := hall fun z (hz : z ∈ l₁) => List.mem_append_left _ hz
  have h₂ := hall fun z (hz : z ∈ l₂) => List.mem_append_right _ (List.mem_cons_of_mem _ hz)
  have hfilter : (l₂ ++ [t] ++ l₁).filter (fun z => decide (z ≠ t)) = l₂ ++ l₁ := by
    rw [List.filter_append, List.filter_append, h₁, h₂, List.filter_singleton]
    simp
  refine ⟨l₁, l₂ ++ [t], other, ?_, fun x => ?_, ?_⟩
  · rwa [List.append_assoc, List.cons_append] at hr
  · change x ∈ l₁ ++ T.currentTask :: (l₂ ++ [t]) ↔ x ∈ t :: members
    rw [← List.cons_append, ← List.append_assoc, List.mem_append, hmem, List.mem_singleton,
      List.mem_cons, or_comm]
  · rw [← ahead_filter (p := fun z => decide (z ≠ t)) (hne hX) (hne hY), hfilter, hquota]

section

variable [HeapBacking σ]

/-- A turn in an interval of `X`. -/
theorem Quota.turn {h h' : TaskHistory σ} {ds ls : List Nat} (hq : Quota X Y ds h) (hinv : h.Inv)
    (hXY : X ≠ Y) (hX : h.Alive X) (hY : h.Alive Y) (hX' : h'.Alive X) (hY' : h'.Alive Y)
    (ht : TaskTurn h ls h') :
    (ls = [] ∧ Quota X Y ds h') ∨ ∃ d, ls = [d] ∧ (d = X → ds.count Y = 1) ∧
      (d ≠ X → Quota X Y (ds ++ [d]) h') := by
  cases ht with
  | turn ht =>
      cases ht with
      | schedule hs =>
          exact Or.inr ⟨_, rfl, hq.scheduled hinv.not_ready hs hX.1 hY.1 hXY (hinv.ready hX)
            (hinv.ready hY)⟩
      | @write T members stranded t x v ht hne hx1 hx2 =>
          obtain ⟨l₁, l₂, other, hr, hmem, hquota⟩ := hq
          have hset : ∀ y, y < (taskAt T.heap.mem t).stack ∨
              (taskAt T.heap.mem t).stack + taskStackSize ≤ y →
              T.heap.mem.set x v y = T.heap.mem y := fun y hy => Mem.set_other (by omega)
          obtain ⟨hr', -⟩ := hr.write_stack ((hmem t).mpr ht) hne hset
          exact Or.inl ⟨rfl, l₁, l₂, other, hr', hmem, hquota⟩
  | @createFails T T' members stranded trampoline entry hc =>
      obtain ⟨l₁, l₂, other, hr, hmem, hquota⟩ := hq
      rcases taskCreate_spec hr trampoline entry with ⟨heap, hc', hr', -⟩ | ⟨heap, t, hc', hne, -⟩
      · obtain ⟨rfl, -⟩ := Prod.mk.inj (Option.some.inj (hc.symm.trans hc'))
        exact Or.inl ⟨rfl, l₁, l₂, other, hr', hmem, hquota⟩
      · exact absurd (Prod.mk.inj (Option.some.inj (hc.symm.trans hc'))).2.symm hne
  | @create T T' members stranded trampoline entry t hc hne =>
      obtain ⟨l₁, l₂, other, hr, hmem, hquota⟩ := hq
      rcases taskCreate_spec hr trampoline entry with
        ⟨heap, hc', -⟩ | ⟨heap, t', hc', -, hfresh, hr', -⟩
      · exact absurd (Prod.mk.inj (Option.some.inj (hc.symm.trans hc'))).2 hne
      · obtain ⟨rfl, rfl⟩ := Prod.mk.inj (Option.some.inj (hc.symm.trans hc'))
        exact Or.inl ⟨rfl, Quota.created hr' hfresh hmem hX.1 hY.1 hquota⟩
  | exit _ hs =>
      exact Or.inr ⟨_, rfl, hq.exited hs hXY hX.1 hY.1 (hinv.ready hX) (hinv.ready hY) hX' hY'⟩
  | exitStranded _ hs =>
      exact Or.inr ⟨_, rfl, hq.exited hs hXY hX.1 hY.1 (hinv.ready hX) (hinv.ready hY) hX' hY'⟩

/-- Between two turns of `X` there is one of `Y`. -/
theorem count_interval {h h' : TaskHistory σ} {ls : List Nat}
    (hr : Reachable TaskHistory.Start TaskStep h) (hcur : h.tasks.currentTask = X) (hXY : X ≠ Y)
    (hrun : Traced TaskTurn (fun g => g.Alive X ∧ g.Alive Y) h ls h') :
    Reachable TaskHistory.Start TaskStep h' ∧ (h'.Alive X ∧ h'.Alive Y) ∧
      (X ∉ ls → Quota X Y ls h') ∧ ∀ ds, ls = ds ++ [X] → X ∉ ds → ds.count Y = 1 := by
  induction hrun with
  | refl halive =>
      refine ⟨hr, halive, fun _ => ?_, fun ds heq => ?_⟩
      · exact (TaskHistory.inv_of_reachable hr).quota hcur hXY halive.2
      · exact absurd (congrArg List.length heq) (by simp)
  | @step g g' ls l _ hturn halive ih =>
      obtain ⟨hg, hbefore, hquota, hcount⟩ := ih
      have hinv := TaskHistory.inv_of_reachable hg
      have hnext : X ∉ ls → _ := fun hnot =>
        (hquota hnot).turn hinv hXY hbefore.1 hbefore.2 halive.1 halive.2 hturn
      refine ⟨.step hg hturn.taskStep, halive, fun hnot => ?_, fun ds heq hnot => ?_⟩
      · rw [List.mem_append, not_or] at hnot
        rcases hnext hnot.1 with ⟨rfl, hq⟩ | ⟨d, rfl, -, hq⟩
        · rwa [List.append_nil]
        · exact hq fun h => hnot.2 (h ▸ List.mem_singleton_self d)
      · rcases hturn.label with rfl | ⟨d, rfl⟩
        · rw [List.append_nil] at heq
          exact hcount ds heq hnot
        · obtain ⟨rfl, hd⟩ := List.append_inj' heq rfl
          rcases hnext hnot with ⟨hnil, -⟩ | ⟨e, he, hlast, -⟩
          · cases hnil
          · exact hlast ((List.cons.inj (he.symm.trans hd)).1)

end

/-! ## Rounds -/

/-- The turns `ds` of the cycle are done, and the next tasks are the rest of it. -/
def Round (cycle ds : List Nat) (h : TaskHistory σ) : Prop :=
  ∃ l₁ l₂ other todo, TaskRep h.tasks (l₁ ++ h.tasks.currentTask :: l₂) other ∧
    (∀ x, x ∈ l₁ ++ h.tasks.currentTask :: l₂ ↔ x ∈ h.members) ∧ cycle = ds ++ todo ∧
    liveTasks h.tasks.heap.mem (l₂ ++ l₁) ++ [h.tasks.currentTask] = todo ++ ds ∧
    isDead h.tasks.heap.mem h.tasks.currentTask = false

/-- A turn of a round. -/
theorem Round.turn {h h' : TaskHistory σ} {cycle ds ls : List Nat} (hround : Round cycle ds h)
    (hinv : h.Inv) (ht : ScheduleTurn h ls h') (hlen : (ds ++ ls).length ≤ cycle.length) :
    Round cycle (ds ++ ls) h' := by
  obtain ⟨l₁, l₂, other, todo, hr, hmem, hcycle, hlive, halive⟩ := hround
  cases ht with
  | @schedule T members stranded rsp r hs =>
      have hnr := hinv.not_ready
      obtain ⟨order, -, -, hmem₀, hst⟩ := hinv
      have hrun : (taskAt T.heap.mem T.currentTask).state = taskRunning :=
        hst.current.resolve_right fun h => of_decide_eq_false halive h.1
      have hothers : ∀ x ∈ l₂ ++ l₁, isReady T.heap.mem x = true ∨ isDead T.heap.mem x = true := by
        intro x hx
        obtain ⟨hin, hne⟩ := (mem_rest hr x).mp hx
        have := hst.others x ((hmem₀ x).mpr ((hmem x).mp hin)) hne
        exact this.imp (fun h => decide_eq_true h) fun h => decide_eq_true h
      obtain ⟨L₁, L₂, horder, hnext⟩ := schedule_live hr hrun hothers hs
      obtain ⟨-, hr', -⟩ := schedule_result hr hnr hs
      rw [horder] at hr'
      have hkept : r.tasks.currentTask ∈ (l₁ ++ T.currentTask :: l₂).filter (· ∉ r.destroyed) :=
        horder ▸ List.mem_append_right _ List.mem_cons_self
      have halive' : isDead T.heap.mem r.tasks.currentTask = false := by
        have hin : r.tasks.currentTask ∈ liveTasks T.heap.mem (l₂ ++ l₁) ++ [T.currentTask] :=
          hnext ▸ List.mem_cons_self
        rcases List.mem_append.mp hin with hin | hin
        · simpa using (List.mem_filter.mp hin).2
        · rw [List.mem_singleton.mp hin]
          exact halive
      have hsplit : todo ++ ds = r.tasks.currentTask :: liveTasks r.tasks.heap.mem (L₂ ++ L₁) :=
        hlive.symm.trans hnext
      cases todo with
      | nil =>
          rw [hcycle, List.append_nil, List.length_append, List.length_singleton] at hlen
          omega
      | cons d todo' =>
          rw [List.cons_append] at hsplit
          obtain ⟨rfl, hrest⟩ := List.cons.inj hsplit
          refine ⟨L₁, L₂, other, todo', hr', fun x => ?_, ?_, ?_, ?_⟩
          · change x ∈ L₁ ++ r.tasks.currentTask :: L₂ ↔ x ∈ members.filter (· ∉ r.destroyed)
            rw [← horder, List.mem_filter, List.mem_filter, hmem]
          · rw [hcycle, List.append_assoc]
            rfl
          · change liveTasks r.tasks.heap.mem (L₂ ++ L₁) ++ [r.tasks.currentTask] = _
            rw [← hrest, List.append_assoc]
          · exact (schedule_isDead hr hnr hs hkept).trans halive'
  | @write T members stranded t x v ht hne hx1 hx2 =>
      have hset : ∀ y, y < (taskAt T.heap.mem t).stack ∨
          (taskAt T.heap.mem t).stack + taskStackSize ≤ y →
          T.heap.mem.set x v y = T.heap.mem y := fun y hy => Mem.set_other (by omega)
      obtain ⟨hr', -, hsame⟩ := hr.write_stack ((hmem t).mpr ht) hne hset
      have hdead : ∀ y ∈ l₁ ++ T.currentTask :: l₂,
          isDead (T.heap.mem.set x v) y = isDead T.heap.mem y := fun y hy => by
        rw [isDead, hsame y hy, isDead]
      rw [List.append_nil]
      refine ⟨l₁, l₂, other, todo, hr', hmem, hcycle, ?_, (hdead _ hr.cur).trans halive⟩
      rw [← hlive]
      refine congrArg (· ++ _) (List.filter_congr fun y hy => ?_)
      exact congrArg (! ·) (hdead y ((mem_rest hr y).mp hy).1)

variable [HeapBacking σ]

/-- The turns of a round, one after the other. -/
theorem round_run {h h' : TaskHistory σ} {cycle ls : List Nat}
    (hr : Reachable TaskHistory.Start TaskStep h) (h0 : Round cycle [] h)
    (hrun : Traced ScheduleTurn (fun _ => True) h ls h') (hlen : ls.length ≤ cycle.length) :
    Reachable TaskHistory.Start TaskStep h' ∧ Round cycle ls h' := by
  induction hrun with
  | refl => exact ⟨hr, h0⟩
  | @step g g' ls l _ hturn _ ih =>
      obtain ⟨hg, hround⟩ := ih (by rw [List.length_append] at hlen; omega)
      exact ⟨.step hg hturn.taskStep,
        hround.turn (TaskHistory.inv_of_reachable hg) hturn hlen⟩

/-! ## What holds in every history -/

/-- The tasks take turns. -/
structure TaskHistory.RoundRobin (h : TaskHistory σ) : Prop where
  /-- Before the current task has its next turn, every other task that stays alive with it has
  one. -/
  once : ∀ Y ds h', h.tasks.currentTask ≠ Y →
    Traced TaskTurn (fun g => g.Alive h.tasks.currentTask ∧ g.Alive Y) h
      (ds ++ [h.tasks.currentTask]) h' →
    h.tasks.currentTask ∉ ds → ds.count Y = 1
  /-- Without a creation or an exit, as many calls of `schedule` as there are live tasks give
  each of them a turn in the order of the list, and come back to the current one. -/
  cycle : h.Alive h.tasks.currentTask → ∃ l,
    IsRing (taskNext h.tasks.heap.mem) (h.tasks.currentTask :: l) ∧
    (∀ x, x ∈ h.tasks.currentTask :: l ↔ x ∈ h.members) ∧
    ∀ ds h', Traced ScheduleTurn (fun _ => True) h ds h' →
      ds.length = (liveTasks h.tasks.heap.mem (h.tasks.currentTask :: l)).length →
      ds = liveTasks h.tasks.heap.mem l ++ [h.tasks.currentTask] ∧
        h'.tasks.currentTask = h.tasks.currentTask
  /-- Every call of `schedule` returns. -/
  returns : ∀ rsp, (schedule rsp h.tasks).isSome

/-- The tasks take turns in every history of calls of `task_create`, `schedule` and
`task_exit` after `task_init`. -/
theorem round_robin {h : TaskHistory σ} (hr : Reachable TaskHistory.Start TaskStep h) :
    h.RoundRobin := by
  have hinv := TaskHistory.inv_of_reachable hr
  refine ⟨fun Y ds h' hne hrun hnot => ?_, fun halive => ?_, fun rsp => ?_⟩
  · obtain ⟨-, -, -, hcount⟩ := count_interval hr rfl hne hrun
    exact hcount ds rfl hnot
  · obtain ⟨order, other, hrep, hmem, -⟩ := hinv
    obtain ⟨l₁, l₂, heq⟩ := List.append_of_mem hrep.cur
    subst heq
    have hrest := mem_rest hrep
    have hcur : isDead h.tasks.heap.mem h.tasks.currentTask = false := decide_eq_false halive.2
    have h0 : Round (liveTasks h.tasks.heap.mem (l₂ ++ l₁) ++ [h.tasks.currentTask]) [] h :=
      ⟨l₁, l₂, other, _, hrep, hmem, rfl, (List.append_nil _).symm, hcur⟩
    refine ⟨l₂ ++ l₁, hrep.ring.rotate, fun x => ?_, fun ds h' hrun hlen => ?_⟩
    · rw [← hmem, List.mem_cons, hrest]
      by_cases hx : x = h.tasks.currentTask
      · simp [hx]
      · simp [hx]
    · rw [liveTasks, List.filter_cons_of_pos (by simp [hcur])] at hlen
      have hlen' : ds.length
          = (liveTasks h.tasks.heap.mem (l₂ ++ l₁) ++ [h.tasks.currentTask]).length := by
        rw [hlen, List.length_append, List.length_singleton]
        rfl
      obtain ⟨-, l₁', l₂', other', todo, -, -, hcycle, hlive, -⟩ :=
        round_run hr h0 hrun (Nat.le_of_eq hlen')
      obtain rfl : todo = [] := by
        have := congrArg List.length hcycle
        rw [← hlen', List.length_append] at this
        exact List.length_eq_zero_iff.mp (by omega)
      rw [List.append_nil] at hcycle
      rw [List.nil_append, ← hcycle] at hlive
      exact ⟨hcycle.symm, List.singleton_inj.mp (List.append_inj' hlive rfl).2⟩
  · obtain ⟨order, other, hrep, -, hst⟩ := hinv
    obtain ⟨r, hs, -⟩ := schedule_effect hrep hst.current_ne_ready rsp
    rw [hs]
    rfl

end

/-- The boot task and the task it has created take turns. -/
theorem round_robin_pair :
    (⟨pairTasks, [0x200048, 0x200010], []⟩ : TaskHistory Unit).RoundRobin :=
  round_robin pairTasks_reachable

end TunaOs
