import TunaOs.Task.Safety

/-!
# The interrupt flag

The interrupt flag is one bit of the processor that every task uses.  A timer
interrupt clears it and its `iretq` sets it to what it was, `task_trampoline` sets
it, and `switch_to` does not touch it.  A task that does not run is inside
`yield`, inside a timer handler, inside `task_exit`, or it has not run yet; a
`Frame` says which, with the flag that is expected when it goes on.

A switch carries the flag of the task that is left over to the task that goes
on.  `flag_owned` says that this is harmless as long as all switches are made
with the same flag, and `handler_resumed_with_flag` is a run in which they are
not: a task that returns from its entry function hands a set flag to a task
inside its timer handler.
-/

namespace TunaOs

open Run (Reachable)
open Word

/-! ## The model -/

/-- `SCHEDULE_INTERVAL`. -/
def scheduleInterval : Nat := 10

/-- The calls a task can be inside of when it is not running its own code. -/
inductive Frame
  /-- The timer handler.  `iretq` sets the flag to `saved`. -/
  | handler (saved : Bool)
  /-- `yield`, called with this flag. -/
  | yielding (flag : Bool)
  /-- `task_trampoline`, before `sti`. -/
  | trampoline
  /-- `task_exit`. -/
  | exiting
deriving DecidableEq, Repr

/-- The scheduler with the interrupt flag. -/
structure Interrupts (σ : Type) where
  /-- The state of `task.c`. -/
  tasks : Tasks σ
  /-- `tick_count`. -/
  tickCount : Nat
  /-- The interrupt flag. -/
  flag : Bool
  /-- What each task is inside of, the innermost call first. -/
  frames : Nat → List Frame

section

variable {σ : Type}

/-- What the current task is inside of. -/
def Interrupts.inside (s : Interrupts σ) : List Frame := s.frames s.tasks.currentTask

/-- The current task is inside of `l`. -/
def Interrupts.setInside (s : Interrupts σ) (l : List Frame) : Interrupts σ :=
  { s with frames := Function.update s.frames s.tasks.currentTask l }

/-- The flag set to a value. -/
def Interrupts.setFlag (s : Interrupts σ) (flag : Bool) : Interrupts σ := { s with flag := flag }

/-- The state after a call of `schedule`. -/
def Interrupts.scheduled (s : Interrupts σ) (r : Scheduled σ) : Interrupts σ :=
  { s with tasks := r.tasks }

/-- `pit_irq_handler` up to the return of `schedule`.  `rsp` is the stack pointer
`schedule` saves if it switches. -/
def pitIrqHandler (rsp : Nat) (s : Interrupts σ) : Option (Interrupts σ) :=
  let s := { s with tickCount := wrap64 (s.tickCount + 1) }
  if s.tickCount % scheduleInterval = 0 then (schedule rsp s.tasks).map s.scheduled else some s

/-- The entry through an interrupt gate: the flag is saved and cleared. -/
def Interrupts.enter (s : Interrupts σ) : Interrupts σ :=
  (s.setInside (.handler s.flag :: s.inside)).setFlag false

end

section

variable {σ : Type} [HeapBacking σ]

/-- The boot task after `task_init`, with interrupts off and no tick counted. -/
def Interrupts.Start (s : Interrupts σ) : Prop :=
  ∃ (heap : Heap σ) (live : List (Nat × Nat)) (T : Tasks σ),
    Reachable HeapHistory.Start HeapStep ⟨heap, live⟩ ∧
    taskInit ⟨heap, 0, 0, 0⟩ = some T ∧ T.currentTask ≠ 0 ∧ s = ⟨T, 0, false, fun _ => []⟩

/-- One step of the current task, or a timer interrupt. -/
inductive InterruptStep : Interrupts σ → Interrupts σ → Prop
  /-- `cli` or `sti` in the code of a task. -/
  | setFlag {s : Interrupts σ} {flag : Bool} :
      s.inside = [] → InterruptStep s (s.setFlag flag)
  /-- `task_create`. -/
  | create {s : Interrupts σ} {T : Tasks σ} {trampoline entry t : Nat} :
      s.inside = [] → taskCreate trampoline entry s.tasks = some (T, t) → t ≠ 0 →
      InterruptStep s
        { s with tasks := T, frames := Function.update s.frames t [.trampoline] }
  /-- A `task_create` that finds no memory. -/
  | createFails {s : Interrupts σ} {T : Tasks σ} {trampoline entry : Nat} :
      s.inside = [] → taskCreate trampoline entry s.tasks = some (T, 0) →
      InterruptStep s { s with tasks := T }
  /-- The timer interrupts whatever the current task is doing. -/
  | interrupt {s s' : Interrupts σ} {rsp : Nat} :
      s.flag = true → pitIrqHandler rsp s.enter = some s' → InterruptStep s s'
  /-- `iretq` at the end of the timer handler. -/
  | iretq {s : Interrupts σ} {saved : Bool} {rest : List Frame} :
      s.inside = .handler saved :: rest →
      InterruptStep s ((s.setInside rest).setFlag saved)
  /-- A call of `yield`, up to the return of `schedule`. -/
  | yield {s : Interrupts σ} {rsp : Nat} {r : Scheduled σ} :
      s.inside = [] → yield rsp s.tasks = some r →
      InterruptStep s ((s.setInside [.yielding s.flag]).scheduled r)
  /-- The return of `yield`. -/
  | yieldReturns {s : Interrupts σ} {flag : Bool} {rest : List Frame} :
      s.inside = .yielding flag :: rest → InterruptStep s (s.setInside rest)
  /-- `sti` in `task_trampoline`, which then calls the entry function. -/
  | trampoline {s : Interrupts σ} {rest : List Frame} :
      s.inside = .trampoline :: rest → InterruptStep s ((s.setInside rest).setFlag true)
  /-- A call of `task_exit`, up to the return of `schedule`. -/
  | exit {s : Interrupts σ} {rsp : Nat} {r : Scheduled σ} :
      s.inside = [] → taskExit rsp s.tasks = some r →
      InterruptStep s ((s.setInside [.exiting]).scheduled r)

/-- The flag is the current task's own: clear inside a timer handler, and what it
was at the call when `yield` is about to return. -/
def Interrupts.Owned (s : Interrupts σ) : Prop :=
  match s.inside with
  | .handler _ :: _ => s.flag = false
  | .yielding flag :: _ => s.flag = flag
  | _ => True

/-- If the step switches to another task, it does so with this flag. -/
def SwitchesWith (flag : Bool) (s s' : Interrupts σ) : Prop :=
  s'.tasks.currentTask ≠ s.tasks.currentTask → s'.flag = flag

/-! ## Runs that always switch with the same flag -/

/-- The flag is what a task expects, now and after each return. -/
def Agrees : Bool → List Frame → Prop
  | _, [] => True
  | flag, .handler saved :: rest => flag = false ∧ Agrees saved rest
  | flag, .yielding called :: rest => flag = called ∧ Agrees called rest
  | _, .trampoline :: rest => Agrees true rest
  | _, .exiting :: _ => True

/-- The current task agrees with the flag, and the others agree with the flag of
the next switch. -/
structure Interrupts.Inv (flag : Bool) (s : Interrupts σ) : Prop where
  /-- The current task. -/
  current : Agrees s.flag s.inside
  /-- The tasks that do not run. -/
  others : ∀ t, t ≠ s.tasks.currentTask → Agrees flag (s.frames t)

omit [HeapBacking σ] in
/-- A step of the current task that does not switch. -/
theorem Interrupts.Inv.stay {g : Bool} {s s' : Interrupts σ} (h : s.Inv g)
    (hcur : s'.tasks.currentTask = s.tasks.currentTask)
    (hframes : ∀ t, t ≠ s.tasks.currentTask → s'.frames t = s.frames t)
    (hagrees : Agrees s'.flag (s'.frames s.tasks.currentTask)) : s'.Inv g := by
  refine ⟨?_, fun t ht => ?_⟩
  · rw [Interrupts.inside, hcur]
    exact hagrees
  · rw [hcur] at ht
    rw [hframes t ht]
    exact h.others t ht

omit [HeapBacking σ] in
/-- A call of `schedule`, whether it switches or not. -/
theorem Interrupts.Inv.scheduled {g : Bool} {s : Interrupts σ} {r : Scheduled σ} (h : s.Inv g)
    (hsw : SwitchesWith g s (s.scheduled r)) : (s.scheduled r).Inv g := by
  by_cases hcur : r.tasks.currentTask = s.tasks.currentTask
  · exact h.stay hcur (fun _ _ => rfl) h.current
  · have hflag : s.flag = g := hsw hcur
    refine ⟨?_, fun t ht => ?_⟩
    · change Agrees s.flag (s.frames r.tasks.currentTask)
      rw [hflag]
      exact h.others _ hcur
    · change Agrees g (s.frames t)
      by_cases hts : t = s.tasks.currentTask
      · rw [hts, ← hflag]
        exact h.current
      · exact h.others t hts

omit [HeapBacking σ] in
/-- A call or a return of the current task. -/
theorem Interrupts.Inv.setInside {g : Bool} {s : Interrupts σ} {l : List Frame} (h : s.Inv g)
    (flag : Bool) (hagrees : Agrees flag l) : ((s.setInside l).setFlag flag).Inv g := by
  refine h.stay rfl (fun t ht => Function.update_of_ne ht ..) ?_
  change Agrees flag (Function.update s.frames s.tasks.currentTask l s.tasks.currentTask)
  rw [Function.update_self]
  exact hagrees

/-- `task_create` leaves the current task alone. -/
theorem taskCreate_currentTask {T T' : Tasks σ} {trampoline entry t : Nat}
    (hc : taskCreate trampoline entry T = some (T', t)) : T'.currentTask = T.currentTask := by
  simp only [taskCreate] at hc
  split at hc
  · cases hc
  split at hc
  · cases hc
    rfl
  split at hc
  · cases hc
  split at hc
  · split at hc
    · cases hc
    · cases hc
      rfl
  split at hc
  · split at hc
    · cases hc
    · cases hc
      rfl
  · cases hc
    rfl

theorem InterruptStep.inv {g : Bool} {s s' : Interrupts σ} (h : s.Inv g)
    (hst : InterruptStep s s') (hsw : SwitchesWith g s s') : s'.Inv g := by
  have hcur := h.current
  cases hst with
  | setFlag hin =>
      refine h.stay rfl (fun _ _ => rfl) ?_
      change Agrees _ s.inside
      rw [hin]
      trivial
  | @create T _ _ t hin hc _ =>
      have hsame := taskCreate_currentTask hc
      -- a new task agrees with every flag
      have hnew : ∀ flag u, Agrees flag (s.frames u) →
          Agrees flag (Function.update s.frames t [.trampoline] u) := by
        intro flag u hu
        by_cases hut : u = t
        · rw [hut, Function.update_self]
          trivial
        · rw [Function.update_of_ne hut]
          exact hu
      refine ⟨?_, fun u hu => hnew g u (h.others u (hsame ▸ hu))⟩
      change Agrees s.flag (Function.update s.frames t [.trampoline] T.currentTask)
      rw [hsame]
      exact hnew s.flag _ hcur
  | createFails hin hc => exact h.stay (taskCreate_currentTask hc) (fun _ _ => rfl) hcur
  | @interrupt _ rsp hflag hk =>
      have henter : s.enter.Inv g := h.setInside false ⟨rfl, hcur⟩
      simp only [pitIrqHandler] at hk
      split at hk
      · obtain ⟨r, -, rfl⟩ := Option.map_eq_some_iff.mp hk
        exact Interrupts.Inv.scheduled ⟨henter.current, henter.others⟩ hsw
      · cases hk
        exact ⟨henter.current, henter.others⟩
  | iretq hin =>
      rw [hin] at hcur
      exact h.setInside _ hcur.2
  | yield hin hc =>
      have hcall : (s.setInside [.yielding s.flag]).Inv g := h.setInside s.flag ⟨rfl, trivial⟩
      exact hcall.scheduled hsw
  | yieldReturns hin =>
      rw [hin] at hcur
      obtain ⟨hflag, hrest⟩ := hcur
      exact h.setInside s.flag (hflag ▸ hrest)
  | trampoline hin =>
      rw [hin] at hcur
      exact h.setInside true hcur
  | exit hin hc =>
      have hcall : (s.setInside [.exiting]).Inv g := h.setInside s.flag trivial
      exact hcall.scheduled hsw

/-- One step of a run whose switches are all made with this flag. -/
def UniformStep (g : Bool) (s s' : Interrupts σ) : Prop :=
  InterruptStep s s' ∧ SwitchesWith g s s'

/-- In every run whose switches are all made with the same flag, the flag is
always the current task's own. -/
theorem flag_owned {g : Bool} {s : Interrupts σ}
    (hr : Reachable Interrupts.Start (UniformStep g) s) : s.Owned := by
  have hinv : s.Inv g := by
    refine hr.invariant ?_ fun _ _ hinv hst => hst.1.inv hinv hst.2
    rintro s ⟨_, _, T, -, -, -, rfl⟩
    exact ⟨trivial, fun _ _ => trivial⟩
  have hcur := hinv.current
  unfold Interrupts.Owned
  split
  · rename_i heq
    rw [heq] at hcur
    exact hcur.1
  · rename_i heq
    rw [heq] at hcur
    exact hcur.1
  · trivial

end

/-! ## A run on a fresh heap -/

/-- The boot task has turned interrupts on, has created a task and has been
interrupted `n` times. -/
def pairInterrupts (n : Nat) : Interrupts Unit where
  tasks := pairTasks
  tickCount := n
  flag := true
  frames := Function.update (fun _ => []) 0x200048 [.trampoline]

theorem inside_pairInterrupts (n : Nat) : (pairInterrupts n).inside = [] := by
  have hcur : pairTasks.currentTask = 0x200010 := by decide +kernel
  change Function.update (fun _ => []) 0x200048 [Frame.trampoline] pairTasks.currentTask = []
  rw [hcur]
  rfl

/-- Inside the handler of the next interrupt, before the tenth. -/
def tickInterrupts (n : Nat) : Interrupts Unit :=
  { (pairInterrupts n).enter with tickCount := n + 1 }

theorem tickInterrupts_step (n : Nat) (hn : n + 1 < 10) :
    UniformStep false (pairInterrupts n) (tickInterrupts n) := by
  have hhandler : pitIrqHandler 0 (pairInterrupts n).enter = some (tickInterrupts n) := by
    have hwrap : wrap64 ((pairInterrupts n).enter.tickCount + 1) = n + 1 :=
      wrap64_of_lt (show n + 1 < 2 ^ 64 by omega)
    simp only [pitIrqHandler, hwrap]
    rw [if_neg (by
      rw [scheduleInterval, Nat.mod_eq_of_lt hn]
      exact Nat.succ_ne_zero n)]
    rfl
  exact ⟨.interrupt rfl hhandler, fun h => absurd rfl h⟩

theorem inside_tickInterrupts (n : Nat) : (tickInterrupts n).inside = [.handler true] := by
  change Function.update (pairInterrupts n).frames pairTasks.currentTask
    (.handler true :: (pairInterrupts n).inside) pairTasks.currentTask = _
  rw [Function.update_self, inside_pairInterrupts]

theorem pairInterrupts_reachable : ∀ n, n < 10 →
    Reachable Interrupts.Start (UniformStep false) (pairInterrupts n)
  | 0, _ => by
      have hboot : (⟨bootTasks, 0, false, fun _ => []⟩ : Interrupts Unit).Start :=
        ⟨_, _, bootTasks, .init ⟨_, _, rfl⟩, taskInit_bootTasks, by decide +kernel, rfl⟩
      have hsti : UniformStep false (⟨bootTasks, 0, false, fun _ => []⟩ : Interrupts Unit)
          ⟨bootTasks, 0, true, fun _ => []⟩ := ⟨.setFlag rfl, fun h => absurd rfl h⟩
      refine .step (.step (.init hboot) hsti) ?_
      refine ⟨.create rfl taskCreate_pairTasks (by decide), fun h => absurd ?_ h⟩
      exact taskCreate_currentTask taskCreate_pairTasks
  | n + 1, hn => by
      have hreach := pairInterrupts_reachable n (Nat.lt_of_succ_lt hn)
      have hback : (((tickInterrupts n).setInside []).setFlag true) = pairInterrupts (n + 1) := by
        have hframes : Function.update (Function.update (pairInterrupts n).frames
            pairTasks.currentTask (.handler true :: (pairInterrupts n).inside))
            pairTasks.currentTask [] = (pairInterrupts n).frames := by
          rw [Function.update_idem, Function.update_eq_self_iff]
          exact (inside_pairInterrupts n).symm
        change Interrupts.mk _ _ _ _ = Interrupts.mk _ _ _ _
        congr 1
      rw [← hback]
      exact .step (.step hreach (tickInterrupts_step n hn))
        ⟨.iretq (inside_tickInterrupts n), fun h => absurd rfl h⟩

/-! ## A handler resumed with the flag clear, and one with the flag set -/

/-- The tenth interrupt switches to the second task. -/
def switchedInterrupts : Interrupts Unit :=
  (pitIrqHandler 0x111000 (pairInterrupts 9).enter).get (by decide +kernel)

/-- The second task runs, with the flag that `task_trampoline` has set. -/
def enteredInterrupts : Interrupts Unit := (switchedInterrupts.setInside []).setFlag true

/-- What `schedule` does when the second task calls `yield`. -/
def yieldScheduled : Scheduled Unit :=
  (yield 0x203000 enteredInterrupts.tasks).get (by decide +kernel)

theorem switchedInterrupts_step : UniformStep false (pairInterrupts 9) switchedInterrupts :=
  ⟨.interrupt rfl (by rw [switchedInterrupts, Option.some_get]), fun _ => by decide +kernel⟩

theorem enteredInterrupts_step : UniformStep false switchedInterrupts enteredInterrupts :=
  ⟨.trampoline (by decide +kernel), fun h => absurd rfl h⟩

/-- The second task clears the flag and calls `yield`.  The boot task goes on inside its timer
handler, with the flag clear. -/
theorem flag_owned_switched :
    ∃ s : Interrupts Unit, Reachable Interrupts.Start (UniformStep false) s ∧
      s.tasks.currentTask = 0x200010 ∧ s.inside = [.handler true] ∧ s.Owned := by
  have hentered := ((pairInterrupts_reachable 9 (by decide)).step switchedInterrupts_step).step
    enteredInterrupts_step
  have hin : enteredInterrupts.inside = [] := by decide +kernel
  have hcli : UniformStep false enteredInterrupts (enteredInterrupts.setFlag false) :=
    ⟨.setFlag hin, fun h => absurd rfl h⟩
  have hyield : UniformStep false (enteredInterrupts.setFlag false)
      (((enteredInterrupts.setFlag false).setInside [.yielding false]).scheduled yieldScheduled) :=
    ⟨.yield hin (by rw [yieldScheduled, Option.some_get]; rfl), fun _ => rfl⟩
  have hrun := (hentered.step hcli).step hyield
  exact ⟨_, hrun, by decide +kernel, by decide +kernel, flag_owned hrun⟩

/-- What `schedule` does when the second task exits. -/
def exitScheduled : Scheduled Unit :=
  (taskExit 0x203000 enteredInterrupts.tasks).get (by decide +kernel)

/-- A task that returns from its entry function calls `task_exit` with the flag
set.  The task it switches to is inside its timer handler and finds the flag
set there. -/
theorem handler_resumed_with_flag :
    ∃ s : Interrupts Unit, Reachable Interrupts.Start InterruptStep s ∧
      s.inside = [.handler true] ∧ s.flag = true ∧ ¬ s.Owned := by
  have h9 := (pairInterrupts_reachable 9 (by decide)).mono (fun _ h => h)
    (fun _ _ (h : UniformStep false _ _) => h.1)
  have hexit : InterruptStep enteredInterrupts
      ((enteredInterrupts.setInside [.exiting]).scheduled exitScheduled) :=
    .exit (by decide +kernel) (by rw [exitScheduled, Option.some_get])
  have hin : ((enteredInterrupts.setInside [.exiting]).scheduled exitScheduled).inside
      = [.handler true] := by decide +kernel
  refine ⟨_, .step (.step (.step h9 switchedInterrupts_step.1) enteredInterrupts_step.1) hexit,
    hin, rfl, fun hown => ?_⟩
  rw [Interrupts.Owned, hin] at hown
  cases hown

end TunaOs
