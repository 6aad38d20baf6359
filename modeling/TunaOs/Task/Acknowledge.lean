import TunaOs.Lib.Pic
import TunaOs.Task.Interrupts

/-!
# Acknowledging interrupts

The model of `pic_eoi`, of the interrupt branch of `isr_dispatch` and of
`pit_irq_handler`, over the scheduler.  Each 8259 is its set of lines in service.
A delivery is recorded with what happens on its behalf: for each EOI command
whether the interrupt was still in service when it was sent.  A task can be
inside several handlers, since it may go on with the interrupt flag set after
`schedule` has switched back to it inside one.

The timer handler sends an EOI of its own before it calls `schedule`, and
`isr_dispatch` sends another one when the handler returns.  `acknowledged_once_iff`
states that those are the only deliveries that are not acknowledged exactly once,
and `tenth_tick_acknowledged_twice` is such a delivery.
-/

namespace TunaOs

open Run (Reachable)
open Pic (endHighest)
open Word

/-! ## The interrupt controllers -/

/-- The lines in service at the two controllers. -/
structure Pics where
  /-- The master. -/
  master : Finset (Fin 8)
  /-- The slave. -/
  slave : Finset (Fin 8)
deriving DecidableEq

/-- No interrupt is in service. -/
def Pics.idle : Pics := ⟨∅, ∅⟩

/-- The line of the master for an IRQ.  The slave is connected to line 2. -/
def masterLine (irq : Fin 16) : Fin 8 := if irq.val < 8 then Fin.ofNat 8 irq.val else 2

/-- The line of the slave for an IRQ, if it is one of the slave's. -/
def slaveLines (irq : Fin 16) : Finset (Fin 8) :=
  if irq.val < 8 then ∅ else {Fin.ofNat 8 (irq.val - 8)}

/-- The processor accepts an IRQ. -/
def Pics.accept (p : Pics) (irq : Fin 16) : Pics :=
  ⟨insert (masterLine irq) p.master, slaveLines irq ∪ p.slave⟩

/-- The IRQ is in service. -/
def Pics.inService (p : Pics) (irq : Fin 16) : Bool :=
  decide (masterLine irq ∈ p.master ∧ slaveLines irq ⊆ p.slave)

/-- `pic_eoi` sends a non-specific EOI. -/
def picEoi (irq : Fin 16) (p : Pics) : Pics :=
  ⟨endHighest p.master, if 8 ≤ irq.val then endHighest p.slave else p.slave⟩

theorem inService_accept : ∀ irq, (Pics.idle.accept irq).inService irq = true := by decide

theorem inService_idle : ∀ irq, Pics.idle.inService irq = false := by decide

/-- The EOI for the only interrupt in service. -/
theorem picEoi_accept : ∀ irq, picEoi irq (Pics.idle.accept irq) = .idle := by decide +kernel

theorem picEoi_idle : ∀ irq, picEoi irq .idle = .idle := by decide

/-! ## The model -/

/-- How far the dispatch of an interrupt has come. -/
inductive Stage
  /-- `isr_dispatch` has been entered. -/
  | entered
  /-- The handler has returned, or it is inside `schedule`. -/
  | handled
  /-- `isr_dispatch` has called `pic_eoi`. -/
  | acknowledged
deriving DecidableEq, Repr

/-- A delivered interrupt. -/
structure Delivery where
  /-- The IRQ. -/
  irq : Fin 16
  /-- The interrupt flag that `iretq` restores. -/
  saved : Bool
  /-- How far it has come. -/
  stage : Stage
  /-- `tick_count` as the timer handler has counted it. -/
  tick : Nat
  /-- For each EOI command sent for it, whether it was in service. -/
  acks : List Bool
deriving DecidableEq

/-- A timer tick whose handler calls `schedule`. -/
def Delivery.Schedules (d : Delivery) : Prop :=
  d.irq = 0 ∧ d.stage ≠ .entered ∧ d.tick % scheduleInterval = 0

instance (d : Delivery) : Decidable d.Schedules := inferInstanceAs (Decidable (_ ∧ _ ∧ _))

/-- An EOI command is sent for the delivery. -/
def Delivery.ack (d : Delivery) (p : Pics) : Delivery :=
  { d with acks := d.acks ++ [p.inService d.irq] }

/-- The scheduler with the interrupt controllers. -/
structure IrqState (σ : Type) where
  /-- The state of `task.c`. -/
  tasks : Tasks σ
  /-- `tick_count`. -/
  tickCount : Nat
  /-- The interrupt flag. -/
  flag : Bool
  /-- The controllers. -/
  pics : Pics
  /-- The deliveries that each task is inside of, the innermost first. -/
  pending : Nat → List Delivery
  /-- The deliveries that have returned. -/
  returned : List Delivery

section

variable {σ : Type} (s : IrqState σ)

/-- The deliveries that the current task is inside of. -/
def IrqState.inside : List Delivery := s.pending s.tasks.currentTask

/-- The current task is inside of `l`. -/
def IrqState.setInside (l : List Delivery) : IrqState σ :=
  { s with pending := Function.update s.pending s.tasks.currentTask l }

/-- The state after a call of `schedule`. -/
def IrqState.scheduled (r : Scheduled σ) : IrqState σ := { s with tasks := r.tasks }

/-- An IRQ is accepted, through an interrupt gate. -/
def IrqState.deliver (irq : Fin 16) : IrqState σ :=
  { s.setInside (⟨irq, s.flag, .entered, 0, []⟩ :: s.inside) with
    flag := false, pics := s.pics.accept irq }

/-- `pic_eoi (d.irq)` for the innermost delivery `d`. -/
def IrqState.sendEoi (d : Delivery) (rest : List Delivery) : IrqState σ :=
  { s.setInside (d.ack s.pics :: rest) with pics := picEoi d.irq s.pics }

/-- `pit_irq_handler`, up to the return of `schedule`. -/
def IrqState.pitIrqHandler (rsp : Nat) (d : Delivery) (rest : List Delivery) :
    Option (IrqState σ) :=
  let tick := wrap64 (s.tickCount + 1)
  let s := { s with tickCount := tick }
  let d := { d with stage := .handled, tick }
  if tick % scheduleInterval = 0 then
    (schedule rsp s.tasks).map (s.sendEoi d rest).scheduled
  else some (s.setInside (d :: rest))

/-- The call of the handler in `isr_dispatch`.  The timer's is the only one that
is registered; for other IRQs a message is printed. -/
def IrqState.callHandler (rsp : Nat) (d : Delivery) (rest : List Delivery) : Option (IrqState σ) :=
  if d.irq = 0 then s.pitIrqHandler rsp d rest
  else some (s.setInside ({ d with stage := .handled } :: rest))

/-- `iretq`. -/
def IrqState.iretq (d : Delivery) (rest : List Delivery) : IrqState σ :=
  { s.setInside rest with flag := d.saved, returned := d :: s.returned }

end

section

variable {σ : Type} [HeapBacking σ]

/-- The boot task after `task_init` and `pic_init`, with interrupts off. -/
def IrqState.Start (s : IrqState σ) : Prop :=
  ∃ (heap : Heap σ) (live : List (Nat × Nat)) (T : Tasks σ),
    Reachable HeapHistory.Start HeapStep ⟨heap, live⟩ ∧
    taskInit ⟨heap, 0, 0, 0⟩ = some T ∧ T.currentTask ≠ 0 ∧
    s = ⟨T, 0, false, .idle, fun _ => [], []⟩

/-- One step of the current task, or an interrupt. -/
inductive IrqStep : IrqState σ → IrqState σ → Prop
  /-- `cli` or `sti` in the code of a task, or `sti` in `task_trampoline`. -/
  | setFlag {s : IrqState σ} {flag : Bool} : s.inside = [] → IrqStep s { s with flag := flag }
  /-- `task_create`. -/
  | create {s : IrqState σ} {T : Tasks σ} {trampoline entry t : Nat} :
      s.inside = [] → taskCreate trampoline entry s.tasks = some (T, t) → t ≠ 0 →
      IrqStep s { s with tasks := T, pending := Function.update s.pending t [] }
  /-- A `task_create` that finds no memory. -/
  | createFails {s : IrqState σ} {T : Tasks σ} {trampoline entry : Nat} :
      s.inside = [] → taskCreate trampoline entry s.tasks = some (T, 0) →
      IrqStep s { s with tasks := T }
  /-- `yield`. -/
  | yield {s : IrqState σ} {rsp : Nat} {r : Scheduled σ} :
      s.inside = [] → yield rsp s.tasks = some r → IrqStep s (s.scheduled r)
  /-- `task_exit`. -/
  | exit {s : IrqState σ} {rsp : Nat} {r : Scheduled σ} :
      s.inside = [] → taskExit rsp s.tasks = some r → IrqStep s (s.scheduled r)
  /-- An interrupt, in a task's own code or nested in a handler. -/
  | deliver {s : IrqState σ} {irq : Fin 16} : s.flag = true → IrqStep s (s.deliver irq)
  /-- The handler, up to the return of `schedule` if it calls it. -/
  | handle {s s' : IrqState σ} {rsp : Nat} {d : Delivery} {rest : List Delivery} :
      s.inside = d :: rest → d.stage = .entered → s.callHandler rsp d rest = some s' →
      IrqStep s s'
  /-- `pic_eoi (irq)` in `isr_dispatch`. -/
  | acknowledge {s : IrqState σ} {d : Delivery} {rest : List Delivery} :
      s.inside = d :: rest → d.stage = .handled →
      IrqStep s (s.sendEoi { d with stage := .acknowledged } rest)
  /-- The return from the interrupt. -/
  | iretq {s : IrqState σ} {d : Delivery} {rest : List Delivery} :
      s.inside = d :: rest → d.stage = .acknowledged → IrqStep s (s.iretq d rest)

/-! ## The controllers left out

Without the controllers a delivery of the timer is what it is in `Interrupts`. -/

section

omit [HeapBacking σ]

variable {s : IrqState σ}

/-- The state without the controllers.  A task is inside the handlers of its deliveries. -/
def IrqState.interrupts (s : IrqState σ) : Interrupts σ :=
  ⟨s.tasks, s.tickCount, s.flag, fun t => (s.pending t).map fun d => .handler d.saved⟩

theorem IrqState.interrupts_setInside (l : List Delivery) :
    (s.setInside l).interrupts = s.interrupts.setInside (l.map fun d => .handler d.saved) := by
  change Interrupts.mk _ _ _ _ = Interrupts.mk _ _ _ _
  congr 1
  funext t
  exact Function.apply_update (fun _ l => l.map fun d : Delivery => Frame.handler d.saved)
    s.pending s.tasks.currentTask l t

theorem IrqState.interrupts_deliver (irq : Fin 16) :
    (s.deliver irq).interrupts = s.interrupts.enter :=
  congrArg (Interrupts.setFlag · false)
    (s.interrupts_setInside (⟨irq, s.flag, .entered, 0, []⟩ :: _))

/-- The two models of `pit_irq_handler`. -/
theorem IrqState.interrupts_pitIrqHandler (rsp : Nat) {d : Delivery} {rest : List Delivery}
    (hin : s.inside = d :: rest) :
    (s.pitIrqHandler rsp d rest).map IrqState.interrupts
      = TunaOs.pitIrqHandler rsp s.interrupts := by
  have hframes : ∀ d' : Delivery, d'.saved = d.saved →
      (s.setInside (d' :: rest)).interrupts.frames = s.interrupts.frames := by
    intro d' hd'
    have hinside : s.interrupts.inside = (d' :: rest).map fun d => .handler d.saved := by
      change s.inside.map _ = _
      rw [hin, List.map_cons, List.map_cons, hd']
    rw [interrupts_setInside, ← hinside]
    exact Function.update_eq_self ..
  generalize htick : wrap64 (s.tickCount + 1) = tick
  have hleft : s.pitIrqHandler rsp d rest = if tick % scheduleInterval = 0
      then (schedule rsp s.tasks).map (({ s with tickCount := tick } : IrqState σ).sendEoi
        { d with stage := .handled, tick } rest).scheduled
      else some (({ s with tickCount := tick } : IrqState σ).setInside
        ({ d with stage := .handled, tick } :: rest)) := by
    rw [← htick]
    rfl
  have hright : TunaOs.pitIrqHandler rsp s.interrupts = if tick % scheduleInterval = 0
      then (schedule rsp s.tasks).map
        ({ s.interrupts with tickCount := tick } : Interrupts σ).scheduled
      else some { s.interrupts with tickCount := tick } := by
    rw [← htick]
    rfl
  rw [hleft, hright]
  split
  · cases schedule rsp s.tasks with
    | none => rfl
    | some r =>
        change some (Interrupts.mk _ _ _ _) = some (Interrupts.mk _ _ _ _)
        congr 2
        exact hframes _ rfl
  · change some (Interrupts.mk _ _ _ _) = some (Interrupts.mk _ _ _ _)
    congr 2
    exact hframes _ rfl

end

/-- A delivery of the timer, up to the return of `schedule` if its handler calls it. -/
theorem IrqState.interrupt_step {s s' : IrqState σ} {rsp : Nat} {d : Delivery}
    {rest : List Delivery} (hflag : s.flag = true) (hin : (s.deliver 0).inside = d :: rest)
    (hc : (s.deliver 0).callHandler rsp d rest = some s') (hirq : d.irq = 0) :
    InterruptStep s.interrupts s'.interrupts := by
  rw [IrqState.callHandler, if_pos hirq] at hc
  have hhandler : TunaOs.pitIrqHandler rsp s.interrupts.enter = some s'.interrupts := by
    rw [← interrupts_deliver 0, ← interrupts_pitIrqHandler rsp hin, hc]
    rfl
  exact .interrupt hflag hhandler

/-! ## The invariant -/

/-- The EOI commands of a delivery whose dispatch is complete. -/
def Delivery.Complete (d : Delivery) : Prop :=
  d.stage = .acknowledged ∧ d.acks = if d.Schedules then [true, false] else [true]

/-- A delivery that is no longer in service: complete, or a timer tick that is
acknowledged early and is inside `schedule`. -/
def Delivery.Past (d : Delivery) : Prop :=
  (d.stage = .handled ∧ d.Schedules ∧ d.acks = [true]) ∨ d.Complete

/-- A delivery in service. -/
def Delivery.Fresh (d : Delivery) : Prop :=
  d.stage ≠ .acknowledged ∧ ¬ d.Schedules ∧ d.acks = []

/-- What holds along every run: nothing is in service, or only the innermost
delivery of the current task, with interrupts off. -/
structure IrqState.Inv (s : IrqState σ) : Prop where
  /-- The deliveries that have returned. -/
  complete : ∀ d ∈ s.returned, d.Complete
  /-- The tasks that do not run. -/
  others : ∀ t, t ≠ s.tasks.currentTask → ∀ d ∈ s.pending t, d.Past
  /-- The current task. -/
  current : (s.pics = .idle ∧ ∀ d ∈ s.inside, d.Past) ∨
    ∃ d rest, s.inside = d :: rest ∧ d.Fresh ∧ s.flag = false ∧ s.pics = Pics.idle.accept d.irq ∧
      ∀ e ∈ rest, e.Past

omit [HeapBacking σ]

variable {s s' : IrqState σ}

/-- Nothing is in service, in any task. -/
def IrqState.Quiet (s : IrqState σ) : Prop := s.pics = .idle ∧ ∀ t, ∀ d ∈ s.pending t, d.Past

theorem IrqState.Quiet.inv (h : s.Quiet) (hcomplete : ∀ d ∈ s.returned, d.Complete) : s.Inv :=
  ⟨hcomplete, fun t _ => h.2 t, Or.inl ⟨h.1, h.2 _⟩⟩

/-- In the code of a task, nothing is in service. -/
theorem IrqState.Inv.quiet_of_nil (h : s.Inv) (hin : s.inside = []) : s.Quiet := by
  rcases h.current with ⟨hidle, hpast⟩ | ⟨d, rest, hin', -⟩
  · refine ⟨hidle, fun t => ?_⟩
    by_cases ht : t = s.tasks.currentTask
    · rw [ht]
      exact hpast
    · exact h.others t ht
  · rw [hin] at hin'
    cases hin'

/-- The deliveries behind the innermost one are no longer in service. -/
theorem IrqState.Inv.rest (h : s.Inv) {d : Delivery} {rest : List Delivery}
    (hin : s.inside = d :: rest) : ∀ e ∈ rest, e.Past := by
  rcases h.current with ⟨-, hpast⟩ | ⟨d', rest', hin', -, -, -, hpast⟩
  · exact fun e he => hpast e (by rw [hin]; exact List.mem_cons_of_mem _ he)
  · rw [hin] at hin'
    cases hin'
    exact hpast

/-- The current task is inside of deliveries that are no longer in service. -/
theorem IrqState.Inv.update (h : s.Inv) {l : List Delivery} (hl : ∀ e ∈ l, e.Past) (t : Nat) :
    ∀ e ∈ Function.update s.pending s.tasks.currentTask l t, e.Past := by
  by_cases ht : t = s.tasks.currentTask
  · rw [ht, Function.update_self]
    exact hl
  · rw [Function.update_of_ne ht]
    exact h.others t ht

/-- The innermost delivery, before the EOI of `isr_dispatch`. -/
theorem IrqState.Inv.innermost (h : s.Inv) {d : Delivery} {rest : List Delivery}
    (hin : s.inside = d :: rest) (hstage : d.stage ≠ .acknowledged) :
    (s.pics = .idle ∧ d.stage = .handled ∧ d.Schedules ∧ d.acks = [true]) ∨
      (d.Fresh ∧ s.flag = false ∧ s.pics = Pics.idle.accept d.irq) := by
  rcases h.current with ⟨hidle, hpast⟩ | ⟨d', rest', hin', hfresh, hflag, hpics, -⟩
  · rcases hpast d (by rw [hin]; exact List.mem_cons_self) with hd | hd
    · exact Or.inl ⟨hidle, hd⟩
    · exact absurd hd.1 hstage
  · rw [hin] at hin'
    cases hin'
    exact Or.inr ⟨hfresh, hflag, hpics⟩

/-- The innermost delivery, after the EOI of `isr_dispatch`. -/
theorem IrqState.Inv.last (h : s.Inv) {d : Delivery} {rest : List Delivery}
    (hin : s.inside = d :: rest) (hstage : d.stage = .acknowledged) :
    s.pics = .idle ∧ d.Complete := by
  rcases h.current with ⟨hidle, hpast⟩ | ⟨d', rest', hin', hfresh, -⟩
  · rcases hpast d (by rw [hin]; exact List.mem_cons_self) with ⟨hhandled, -⟩ | hd
    · rw [hstage] at hhandled
      cases hhandled
    · exact ⟨hidle, hd⟩
  · rw [hin] at hin'
    cases hin'
    exact absurd hstage hfresh.1

/-- The state in which the innermost delivery is in service. -/
theorem IrqState.Inv.fresh (h : s.Inv) {d : Delivery} {rest : List Delivery} {tick : Nat}
    (hd : d.Fresh) (hflag : s.flag = false) (hpics : s.pics = Pics.idle.accept d.irq)
    (hrest : ∀ e ∈ rest, e.Past) :
    ({ s.setInside (d :: rest) with tickCount := tick } : IrqState σ).Inv := by
  refine ⟨h.complete, fun t (ht : t ≠ s.tasks.currentTask) => ?_,
    Or.inr ⟨d, rest, Function.update_self .., hd, hflag, hpics, hrest⟩⟩
  change ∀ e ∈ Function.update s.pending s.tasks.currentTask (d :: rest) t, e.Past
  rw [Function.update_of_ne ht]
  exact h.others t ht

/-- The timer handler, entered with its interrupt in service. -/
theorem IrqState.Inv.pitIrqHandler (h : s.Inv) {rsp : Nat} {d : Delivery} {rest : List Delivery}
    (hin : s.inside = d :: rest) (hstage : d.stage = .entered) (hirq : d.irq = 0)
    (hc : s.pitIrqHandler rsp d rest = some s') : s'.Inv := by
  rcases h.innermost hin (by rw [hstage]; decide) with
    ⟨-, hhandled, -⟩ | ⟨⟨-, -, hacks⟩, hflag, hpics⟩
  · rw [hstage] at hhandled
    cases hhandled
  simp only [IrqState.pitIrqHandler] at hc
  split at hc
  case isTrue htick =>
    -- the early EOI takes the interrupt out of service
    obtain ⟨r, -, rfl⟩ := Option.map_eq_some_iff.mp hc
    refine IrqState.Quiet.inv ⟨?_, h.update fun e he => ?_⟩ h.complete
    · change picEoi d.irq s.pics = .idle
      rw [hpics, picEoi_accept]
    · rcases List.mem_cons.mp he with rfl | he
      · refine Or.inl ⟨rfl, ⟨hirq, nofun, htick⟩, ?_⟩
        change d.acks ++ [s.pics.inService d.irq] = [true]
        rw [hacks, hpics, inService_accept]
        rfl
      · exact h.rest hin e he
  case isFalse htick =>
    cases hc
    exact h.fresh (d := { d with stage := .handled, tick := wrap64 (s.tickCount + 1) })
      ⟨nofun, fun hs => htick hs.2.2, hacks⟩ hflag hpics (h.rest hin)

/-- The EOI of `isr_dispatch`. -/
theorem IrqState.Inv.acknowledge (h : s.Inv) {d : Delivery} {rest : List Delivery}
    (hin : s.inside = d :: rest) (hstage : d.stage = .handled) :
    (s.sendEoi { d with stage := .acknowledged } rest).Inv := by
  have hsched :
      (Delivery.ack { d with stage := .acknowledged } s.pics).Schedules ↔ d.Schedules := by
    simp [Delivery.Schedules, Delivery.ack, hstage]
  have hboth : picEoi d.irq s.pics = .idle ∧
      (Delivery.ack { d with stage := .acknowledged } s.pics).Complete := by
    rcases h.innermost hin (by rw [hstage]; decide) with
      ⟨hidle, -, hs, hacks⟩ | ⟨⟨-, hs, hacks⟩, -, hpics⟩
    · -- the interrupt has been acknowledged before
      refine ⟨by rw [hidle, picEoi_idle], rfl, ?_⟩
      rw [if_pos (hsched.mpr hs)]
      change d.acks ++ [s.pics.inService d.irq] = [true, false]
      rw [hacks, hidle, inService_idle]
      rfl
    · refine ⟨by rw [hpics, picEoi_accept], rfl, ?_⟩
      rw [if_neg fun hc => hs (hsched.mp hc)]
      change d.acks ++ [s.pics.inService d.irq] = [true]
      rw [hacks, hpics, inService_accept]
      rfl
  refine IrqState.Quiet.inv ⟨hboth.1, h.update fun e he => ?_⟩ h.complete
  rcases List.mem_cons.mp he with rfl | he
  · exact Or.inr hboth.2
  · exact h.rest hin e he

theorem IrqStep.inv [HeapBacking σ] (h : s.Inv) (hst : IrqStep s s') : s'.Inv := by
  cases hst with
  | setFlag hin => exact IrqState.Quiet.inv (h.quiet_of_nil hin) h.complete
  | @create T _ _ t hin hc _ =>
      obtain ⟨hidle, hpast⟩ := h.quiet_of_nil hin
      refine IrqState.Quiet.inv ⟨hidle, fun u => ?_⟩ h.complete
      change ∀ d ∈ Function.update s.pending t [] u, d.Past
      by_cases hu : u = t
      · rw [hu, Function.update_self]
        exact fun d hd => absurd hd List.not_mem_nil
      · rw [Function.update_of_ne hu]
        exact hpast u
  | createFails hin hc => exact IrqState.Quiet.inv (h.quiet_of_nil hin) h.complete
  | yield hin hc => exact IrqState.Quiet.inv (h.quiet_of_nil hin) h.complete
  | exit hin hc => exact IrqState.Quiet.inv (h.quiet_of_nil hin) h.complete
  | @deliver irq hflag =>
      rcases h.current with ⟨hidle, hpast⟩ | ⟨_, _, _, _, hoff, _⟩
      · refine ⟨h.complete, fun t (ht : t ≠ s.tasks.currentTask) => ?_,
          Or.inr ⟨⟨irq, s.flag, .entered, 0, []⟩, s.inside, Function.update_self ..,
            ⟨nofun, fun hs => hs.2.1 rfl, rfl⟩, rfl, ?_, hpast⟩⟩
        · change ∀ e ∈ Function.update s.pending s.tasks.currentTask _ t, e.Past
          rw [Function.update_of_ne ht]
          exact h.others t ht
        · change s.pics.accept irq = _
          rw [hidle]
      · rw [hflag] at hoff
        cases hoff
  | @handle _ rsp d rest hin hstage hc =>
      rw [IrqState.callHandler] at hc
      split at hc
      case isTrue hirq => exact h.pitIrqHandler hin hstage hirq hc
      case isFalse hirq =>
        cases hc
        rcases h.innermost hin (by rw [hstage]; decide) with
          ⟨-, hhandled, -⟩ | ⟨⟨-, -, hacks⟩, hflag, hpics⟩
        · rw [hstage] at hhandled
          cases hhandled
        · exact h.fresh (d := { d with stage := .handled })
            ⟨nofun, fun hs => hirq hs.1, hacks⟩ hflag hpics (h.rest hin)
  | acknowledge hin hstage => exact h.acknowledge hin hstage
  | @iretq d rest hin hstage =>
      obtain ⟨hidle, hd⟩ := h.last hin hstage
      refine IrqState.Quiet.inv ⟨hidle, h.update (h.rest hin)⟩ fun e he => ?_
      rcases List.mem_cons.mp he with rfl | he
      · exact hd
      · exact h.complete e he

theorem IrqState.inv_of_reachable [HeapBacking σ]
    (hr : Reachable IrqState.Start IrqStep s) : s.Inv := by
  refine hr.invariant ?_ fun _ _ hinv hst => hst.inv hinv
  rintro s ⟨heap, live, T, -, -, -, rfl⟩
  exact IrqState.Quiet.inv ⟨rfl, fun _ d hd => absurd hd List.not_mem_nil⟩
    fun d hd => absurd hd List.not_mem_nil

/-! ## What holds in every run -/

/-- One EOI command has been sent for the delivery, while it was in service. -/
def Delivery.AcknowledgedOnce (d : Delivery) : Prop := d.acks = [true]

/-- No EOI command has been sent for the delivery when it was not in service. -/
def Delivery.InTime (d : Delivery) : Prop := false ∉ d.acks

theorem Delivery.Complete.once_iff {d : Delivery} (h : d.Complete) :
    d.AcknowledgedOnce ↔ ¬ d.Schedules := by
  rw [Delivery.AcknowledgedOnce, h.2]
  by_cases hs : d.Schedules
  · simp [hs]
  · simp [hs]

theorem Delivery.Complete.inTime_iff {d : Delivery} (h : d.Complete) :
    d.InTime ↔ ¬ d.Schedules := by
  rw [Delivery.InTime, h.2]
  by_cases hs : d.Schedules
  · simp [hs]
  · simp [hs]

/-- A delivery in service is in time so far. -/
theorem Delivery.Fresh.inTime_iff {d : Delivery} (h : d.Fresh) :
    d.InTime ↔ ¬ (d.stage = .acknowledged ∧ d.Schedules) := by
  refine iff_of_true ?_ fun hs => h.2.1 hs.2
  rw [Delivery.InTime, h.2.2]
  exact List.not_mem_nil

theorem Delivery.Past.inTime_iff {d : Delivery} (h : d.Past) :
    d.InTime ↔ ¬ (d.stage = .acknowledged ∧ d.Schedules) := by
  rcases h with ⟨hstage, -, hacks⟩ | hd
  · refine iff_of_true ?_ fun hs => ?_
    · rw [Delivery.InTime, hacks]
      decide
    · rw [hstage] at hs
      cases hs.1
  · rw [hd.inTime_iff, and_iff_right hd.1]

/-- In every run, a delivery that has returned was acknowledged exactly once, and
in time, exactly if it was not a timer tick that calls `schedule`.  A delivery that
has not returned has an EOI out of time exactly if it is such a tick and is about to
return. -/
theorem acknowledged_once_iff [HeapBacking σ] (hr : Reachable IrqState.Start IrqStep s) :
    (∀ d ∈ s.returned, d.AcknowledgedOnce ↔ ¬ d.Schedules) ∧
      ∀ t, ∀ d ∈ s.pending t, d.InTime ↔ ¬ (d.stage = .acknowledged ∧ d.Schedules) := by
  have hinv := IrqState.inv_of_reachable hr
  refine ⟨fun d hd => (hinv.complete d hd).once_iff, fun t d hd => ?_⟩
  by_cases ht : t = s.tasks.currentTask
  · rw [ht] at hd
    rcases hinv.current with ⟨-, hpast⟩ | ⟨e, rest, hin, hfresh, -, -, hpast⟩
    · exact (hpast d hd).inTime_iff
    · have hd' : d ∈ s.inside := hd
      rw [hin] at hd'
      rcases List.mem_cons.mp hd' with rfl | hd'
      · exact hfresh.inTime_iff
      · exact (hpast d hd').inTime_iff
  · exact (hinv.others t ht d hd).inTime_iff

/-! ## Timer ticks of the boot task -/

section

variable [HeapBacking σ]

/-- The way out of the dispatch of an interrupt. -/
theorem IrqState.dispatch_returns (hr : Reachable IrqState.Start IrqStep s) {d : Delivery}
    {rest : List Delivery} (hin : s.inside = d :: rest) (hstage : d.stage = .handled) :
    ∃ s', Reachable IrqState.Start IrqStep s' ∧ s'.tasks = s.tasks ∧
      s'.tickCount = s.tickCount ∧ s'.flag = d.saved ∧ s'.inside = rest ∧
      ∃ e ∈ s'.returned, e.irq = d.irq ∧ e.tick = d.tick ∧ e.stage = .acknowledged := by
  have hr₁ := Reachable.step hr (.acknowledge hin hstage)
  have hr₂ := Reachable.step hr₁ (.iretq (Function.update_self ..) rfl)
  exact ⟨_, hr₂, rfl, rfl, rfl, Function.update_self .., _, List.mem_cons_self, rfl, rfl, rfl⟩

/-- A timer tick in the code of a task.  If it is time to call `schedule`, it does not
switch. -/
theorem IrqState.tick (hr : Reachable IrqState.Start IrqStep s) (hflag : s.flag = true)
    (hin : s.inside = [])
    (hsched : wrap64 (s.tickCount + 1) % scheduleInterval = 0 →
      ∃ r, schedule 0 s.tasks = some r ∧ r.tasks.currentTask = s.tasks.currentTask) :
    ∃ s', Reachable IrqState.Start IrqStep s' ∧
      (wrap64 (s.tickCount + 1) % scheduleInterval ≠ 0 → s'.tasks = s.tasks) ∧
      s'.tickCount = wrap64 (s.tickCount + 1) ∧ s'.flag = true ∧ s'.inside = [] ∧
      ∃ e ∈ s'.returned, e.irq = 0 ∧ e.tick = wrap64 (s.tickCount + 1) ∧
        e.stage = .acknowledged := by
  have hr₁ : Reachable IrqState.Start IrqStep (s.deliver 0) := .step hr (.deliver hflag)
  have hin₁ : (s.deliver 0).inside = [⟨0, true, .entered, 0, []⟩] := by
    refine (Function.update_self ..).trans ?_
    rw [hin, hflag]
  obtain ⟨s₂, d, hr₂, htasks, htick, hin₂, hstage, hsaved, hirq, hdtick⟩ : ∃ s₂ d,
      Reachable IrqState.Start IrqStep s₂ ∧
      (wrap64 (s.tickCount + 1) % scheduleInterval ≠ 0 → s₂.tasks = s.tasks) ∧
      s₂.tickCount = wrap64 (s.tickCount + 1) ∧ s₂.inside = [d] ∧ d.stage = .handled ∧
      d.saved = true ∧ d.irq = 0 ∧ d.tick = wrap64 (s.tickCount + 1) := by
    by_cases h0 : wrap64 (s.tickCount + 1) % scheduleInterval = 0
    · obtain ⟨r, hs, hsame⟩ := hsched h0
      have hcall : (s.deliver 0).callHandler 0 ⟨0, true, .entered, 0, []⟩ [] = some
          ((({ s.deliver 0 with tickCount := wrap64 (s.tickCount + 1) } : IrqState σ).sendEoi
            ⟨0, true, .handled, wrap64 (s.tickCount + 1), []⟩ []).scheduled r) := by
        rw [IrqState.callHandler, if_pos rfl, IrqState.pitIrqHandler]
        refine (if_pos h0).trans ?_
        change (schedule 0 s.tasks).map _ = _
        rw [hs]
        rfl
      refine ⟨_, Delivery.ack ⟨0, true, .handled, wrap64 (s.tickCount + 1), []⟩ (s.deliver 0).pics,
        .step hr₁ (.handle hin₁ rfl hcall), fun hne => absurd h0 hne, rfl, ?_, rfl, rfl, rfl, rfl⟩
      change Function.update _ s.tasks.currentTask _ r.tasks.currentTask = _
      rw [hsame]
      exact Function.update_self ..
    · have hcall : (s.deliver 0).callHandler 0 ⟨0, true, .entered, 0, []⟩ [] = some
          (({ s.deliver 0 with tickCount := wrap64 (s.tickCount + 1) } : IrqState σ).setInside
            [⟨0, true, .handled, wrap64 (s.tickCount + 1), []⟩]) := by
        rw [IrqState.callHandler, if_pos rfl, IrqState.pitIrqHandler]
        exact if_neg h0
      exact ⟨_, _, .step hr₁ (.handle hin₁ rfl hcall), fun _ => rfl, rfl, Function.update_self ..,
        rfl, rfl, rfl, rfl⟩
  obtain ⟨s', hr', htasks', htick', hflag', hin', e, he, heirq, hetick, hestage⟩ :=
    IrqState.dispatch_returns hr₂ hin₂ hstage
  exact ⟨s', hr', fun hne => htasks'.trans (htasks hne), htick'.trans htick,
    hflag'.trans hsaved, hin', e, he, heirq.trans hirq, hetick.trans hdtick, hestage⟩

end

end

/-- The boot task alone, with interrupts on, after `n` ticks. -/
theorem exists_bootTicks (n : Nat) (hn : n < 10) :
    ∃ s : IrqState Unit, Reachable IrqState.Start IrqStep s ∧ s.tasks = bootTasks ∧
      s.tickCount = n ∧ s.flag = true ∧ s.inside = [] := by
  induction n with
  | zero =>
      have hstart : IrqState.Start
          (⟨bootTasks, 0, false, .idle, fun _ => [], []⟩ : IrqState Unit) :=
        ⟨_, _, bootTasks, .init ⟨_, _, rfl⟩, taskInit_bootTasks, by decide +kernel, rfl⟩
      have hr : Reachable IrqState.Start IrqStep
          (⟨bootTasks, 0, true, .idle, fun _ => [], []⟩ : IrqState Unit) :=
        .step (.init hstart) (.setFlag rfl)
      exact ⟨_, hr, rfl, rfl, rfl, rfl⟩
  | succ n ih =>
      obtain ⟨s, hr, htasks, htick, hflag, hin⟩ := ih (Nat.lt_of_succ_lt hn)
      have hwrap : wrap64 (s.tickCount + 1) = n + 1 := by
        rw [htick]
        exact wrap64_of_lt (by omega)
      have hne : wrap64 (s.tickCount + 1) % scheduleInterval ≠ 0 := by
        rw [hwrap, scheduleInterval, Nat.mod_eq_of_lt hn]
        exact Nat.succ_ne_zero n
      obtain ⟨s', hr', htasks', htick', hflag', hin', -⟩ :=
        IrqState.tick hr hflag hin fun h0 => absurd h0 hne
      exact ⟨s', hr', (htasks' hne).trans htasks, htick'.trans hwrap, hflag', hin'⟩

/-- The first tick is acknowledged once. -/
theorem acknowledged_once_first_tick :
    ∃ s : IrqState Unit, Reachable IrqState.Start IrqStep s ∧
      ∃ d ∈ s.returned, d.irq = 0 ∧ d.tick = 1 ∧ d.AcknowledgedOnce := by
  obtain ⟨s, hr, htasks, htick, hflag, hin⟩ := exists_bootTicks 0 (by decide)
  have hwrap : wrap64 (s.tickCount + 1) = 1 := by
    rw [htick]
    rfl
  obtain ⟨s', hr', -, -, -, -, d, hd, hirq, hdtick, -⟩ := IrqState.tick hr hflag hin fun h0 => by
    rw [hwrap] at h0
    exact absurd h0 (by decide)
  rw [hwrap] at hdtick
  refine ⟨s', hr', d, hd, hirq, hdtick, ((acknowledged_once_iff hr').1 d hd).mpr fun hs => ?_⟩
  have := hs.2.2
  rw [hdtick] at this
  exact absurd this (by decide)

/-- Two EOI commands are sent for the tenth tick, the second when it is no longer
in service. -/
theorem tenth_tick_acknowledged_twice :
    ∃ s : IrqState Unit, Reachable IrqState.Start IrqStep s ∧
      ∃ d ∈ s.returned, d.irq = 0 ∧ d.tick = 10 ∧ d.acks = [true, false] := by
  obtain ⟨s, hr, htasks, htick, hflag, hin⟩ := exists_bootTicks 9 (by decide)
  have hwrap : wrap64 (s.tickCount + 1) = 10 := by
    rw [htick]
    rfl
  -- there is no other task, so `schedule` comes back at once
  have hsched : ∃ r, schedule 0 s.tasks = some r ∧
      r.tasks.currentTask = s.tasks.currentTask := by
    have hcur : (schedule 0 bootTasks).map (fun r => r.tasks.currentTask)
        = some bootTasks.currentTask := by decide +kernel
    rw [htasks]
    exact Option.map_eq_some_iff.mp hcur
  obtain ⟨s', hr', -, -, -, -, d, hd, hirq, hdtick, hstage⟩ :=
    IrqState.tick hr hflag hin fun _ => hsched
  rw [hwrap] at hdtick
  refine ⟨s', hr', d, hd, hirq, hdtick, ?_⟩
  have hs : d.Schedules := ⟨hirq, by rw [hstage]; decide, by rw [hdtick]; decide⟩
  rw [((IrqState.inv_of_reachable hr').complete d hd).2, if_pos hs]

end TunaOs
