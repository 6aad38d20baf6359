import TunaOs.Kernel.RoundTrip

/-!
# Programs that start programs

A program started by `SYS_EXEC` may make that call itself.  A `Session` keeps what the
kernel would need in order to return from all of them: the frames of the calls that
have not returned, with the images of their callers.  The kernel has one saved frame, one flag
and one image to load again.  So the exit of a program is right when that
program has started no other one and its caller is the shell (`exit_right_iff`), and a
program that has started another halts the kernel when it exits.
-/

namespace TunaOs

open FrameSource (avail)

/-! ## Sessions -/

/-- The kernel, the program that runs, and those that wait for it. -/
structure Session where
  kernel : Kernel Pmm
  program : Image
  /-- The frames of the calls that have not returned and the images of their callers, the
  last call first. -/
  callers : List (InterruptFrame × Image)
  /-- The program has started no other one. -/
  leaf : Bool

/-- The shell has been registered and started. -/
structure Session.Starts (env : BootEnv) (shell : Image) (s : Session) : Prop where
  setup : ∃ k iret M, env.Reaches SetupStep k ∧ k.services.shellElf = some shell
    ∧ usermodeExecElf shell k.mach = (some iret, M) ∧ s.kernel = k.withMach M
  fault : s.kernel.mach.fault = false
  program : s.program = shell
  callers : s.callers = []
  leaf : s.leaf = true

/-- The steps of user programs.  The kernel is not entered again after an exception. -/
inductive SessionStep : Session → Session → Prop
  | user {s : Session} {m : Mem} (hm : UserWrites s.kernel.mach m) :
      SessionStep s { s with kernel := s.kernel.withMach (s.kernel.mach.withMem m) }
  /-- A call that returns to the program, among them the calls of `SYS_EXEC` that fail. -/
  | call {s : Session} {frame g : InterruptFrame} {input : UInt8} {k : Kernel Pmm}
      (hrax : frame.rax ≠ sysExit) (h : s.kernel.syscall frame input = (k, .ret g)) :
      SessionStep s { s with kernel := k }
  | exec {s : Session} {frame g : InterruptFrame} {input : UInt8} {k : Kernel Pmm} {child : Image}
      (h : s.kernel.syscall frame input = (k, .start g child)) :
      SessionStep s ⟨k, child, (frame, s.program) :: s.callers, true⟩
  | exit {s : Session} {frame g : InterruptFrame} {input : UInt8} {k : Kernel Pmm}
      {caller : InterruptFrame × Image} {rest : List (InterruptFrame × Image)}
      (hcallers : s.callers = caller :: rest) (hrax : frame.rax = sysExit)
      (h : s.kernel.syscall frame input = (k, .ret g)) :
      SessionStep s ⟨k, caller.2, rest, false⟩

/-- The sessions that can come about. -/
def Session.Reached (env : BootEnv) (shell : Image) : Session → Prop :=
  Run.Reachable (Session.Starts env shell) SessionStep

/-- The pages of an image have the rights and the bytes that it asks for. -/
def Image.InPlace (img : Image) (M : Mach Pmm) : Prop :=
  ∀ a ph page, img.cover (pageOf a) = some (ph, page) →
    ∃ f, M.translate a = some ⟨f, ph.pageFlags.testBit 1, true⟩
      ∧ M.mem (f + a % 4096) = ph.pageByte img page (a % 4096)

/-- What the exit of the running program should do. -/
structure Session.ExitRight (s : Session) (k : Kernel Pmm) (o : Outcome) : Prop where
  /-- It returns from the call that started the program, with the caller in place. -/
  returns : ∀ frame img rest, s.callers = (frame, img) :: rest →
    o = .ret (frame.withRax 0) ∧ img.InPlace k.mach
  halts : o = .halt → s.callers = []

/-! ## One step -/

section

variable {env : BootEnv} {shell : Image} {s t : Session}

/-- A step of a session is a step of the kernel. -/
theorem SessionStep.kernel (h : SessionStep s t) : ∃ op, KernelStep s.kernel op t.kernel := by
  cases h with
  | user hm => exact ⟨_, .user hm⟩
  | call _ h => exact ⟨_, .of_syscall h⟩
  | exec h => exact ⟨_, .of_syscall h⟩
  | exit _ _ h => exact ⟨_, .of_syscall h⟩

theorem Session.Reached.reaches (h : Session.Reached env shell s) :
    env.Reaches anyStep s.kernel := by
  refine Run.Reachable.invariant (P := fun s => env.Reaches anyStep s.kernel) ?_ ?_ h
  · rintro s hs
    obtain ⟨k, iret, M, hk, -, hrun, hkernel⟩ := hs.setup
    have hstep : KernelStep k (.usermode shell) s.kernel := by
      have hu : KernelStep k (.usermode shell) (k.withMach (usermodeExecElf shell k.mach).2) :=
        .usermode
      rwa [hrun, ← hkernel] at hu
    exact hk.any.next hstep trivial
  · rintro s t hs hst
    obtain ⟨op, hop⟩ := hst.kernel
    exact hs.next hop trivial

/-- A call that returns and is no exit leaves the services alone. -/
theorem Kernel.syscall_ret {k k' : Kernel Pmm} {frame g : InterruptFrame} {input : UInt8}
    (hrax : frame.rax ≠ sysExit) (h : k.syscall frame input = (k', .ret g)) :
    k'.services = k.services := by
  simp only [Kernel.syscall] at h
  generalize hr : syscallDispatch k.services frame input k.mach = r at h
  obtain ⟨⟨S', o⟩, M'⟩ := r
  obtain ⟨rfl, rfl⟩ := Prod.mk.inj h
  rw [Kernel.services_withServices]
  cases syscallDispatch_run hr (by rintro ⟨⟩) with
  | exec _ hrun => cases hrun <;> rfl
  | exit hexit => exact absurd hexit hrax
  | handler => rfl

/-- A program that was started is one that starts. -/
theorem starts_of_usermodeExecElf {img : Image} {M M' : Mach Pmm} {iret : IretFrame}
    (h : usermodeExecElf img M = (some iret, M')) : img.Starts := by
  by_contra hstarts
  have hzero : (elfLoad img M).1 = 0 :=
    Classical.not_not.mp fun h0 => hstarts ((elfLoad_fst_ne_zero M).mp h0)
  simp only [usermodeExecElf, Act.bind_apply, hzero, if_true, Act.pure_apply] at h
  cases (Prod.mk.inj h).1

/-- If frames do not run out it is started. -/
theorem usermodeExecElf_started {img : Image} {M : Mach Pmm} (h : img.Starts)
    (hoom : (usermodeExecElf img M).2.oom = false) :
    ∃ iret, usermodeExecElf img M = (some iret, (usermodeExecElf img M).2) := by
  rw [usermodeExecElf_snd h] at hoom ⊢
  have hstack := mapStack_fst _ _ hoom
  simp only [usermodeExecElf, Act.bind_apply, if_neg ((elfLoad_fst_ne_zero M).mpr h), hstack]
  exact ⟨_, rfl⟩

/-- Before the first program no child runs. -/
theorem childRunning_setup {k : Kernel Pmm} (h : env.Reaches SetupStep k) :
    k.services.childRunning = false := by
  refine h.invariant (I := fun k => k.services.childRunning = false) rfl ?_
  intro k op k' hk hs hC
  cases hs with
  | kmalloc => exact hk
  | kfree => exact hk
  | heapMem => exact hk
  | addFile => exact hk
  | setShellElf => exact hk
  | usermode => exact hk
  | user => exact False.elim hC
  | syscall => exact False.elim hC

/-! ## What the kernel knows of a session -/

/-- The flag is set between an exec and the next exit, and then the saved frame is that of the
exec. -/
structure Session.Inv (shell : Image) (s : Session) : Prop where
  starts : shell.Starts
  fault : s.kernel.mach.fault = false
  shellElf : s.kernel.services.shellElf = some shell
  childRunning : s.kernel.services.childRunning = (s.leaf && !s.callers.isEmpty)
  savedFrame : ∀ frame img rest, s.leaf = true → s.callers = (frame, img) :: rest →
    s.kernel.services.savedFrame = frame

theorem Session.Starts.inv (h : Session.Starts env shell s) : s.Inv shell := by
  obtain ⟨k, iret, M, hk, helf, hrun, hkernel⟩ := h.setup
  refine ⟨starts_of_usermodeExecElf hrun, h.fault, ?_, ?_, fun frame img rest _ hc => ?_⟩
  · rw [hkernel, Kernel.services_withMach, helf]
  · rw [hkernel, Kernel.services_withMach, childRunning_setup hk, h.callers]
    exact (Bool.and_false _).symm
  · rw [h.callers] at hc
    cases hc

/-- A call that returns raises no exception. -/
theorem fault_of_syscall {k k' : Kernel Pmm} {frame : InterruptFrame} {input : UInt8} {o : Outcome}
    (h : k.syscall frame input = (k', o)) (ho : o ≠ .fault) : k'.mach.fault = false := by
  have hfault : (k.syscall frame input).2 ≠ .fault → _ := Kernel.syscall_fault
  rw [h] at hfault
  exact hfault ho

theorem SessionStep.inv (h : SessionStep s t) (hs : s.Inv shell) : t.Inv shell := by
  cases h with
  | user hm => exact ⟨hs.starts, hs.fault, hs.shellElf, hs.childRunning, hs.savedFrame⟩
  | call hrax h =>
      have hservices := Kernel.syscall_ret hrax h
      refine ⟨hs.starts, fault_of_syscall h nofun, ?_, ?_, ?_⟩
      · exact (congrArg Services.shellElf hservices).trans hs.shellElf
      · exact (congrArg Services.childRunning hservices).trans hs.childRunning
      · intro frame img rest hleaf hc
        exact (congrArg Services.savedFrame hservices).trans (hs.savedFrame frame img rest hleaf hc)
  | exec h =>
      obtain ⟨-, -, hservices, -⟩ := Kernel.syscall_started h
      refine ⟨hs.starts, fault_of_syscall h nofun, ?_, ?_, ?_⟩
      · exact (congrArg Services.shellElf hservices).trans hs.shellElf
      · exact congrArg Services.childRunning hservices
      · rintro frame img rest - hc
        obtain ⟨hc, -⟩ := List.cons.inj hc
        obtain ⟨rfl, -⟩ := Prod.mk.inj hc
        exact congrArg Services.savedFrame hservices
  | @exit frame g input k caller rest hcallers hrax h =>
      -- the flag is set, or the kernel had halted
      cases hchild : s.kernel.services.childRunning with
      | false =>
          rw [Kernel.syscall_halt hrax hchild hs.fault] at h
          exact nomatch (Prod.mk.inj h).2
      | true =>
          have hservices := congrArg (fun r => r.1.services) (Kernel.syscall_exit hrax hchild input)
          rw [h, Kernel.services_withServices] at hservices
          refine ⟨hs.starts, fault_of_syscall h nofun, ?_, ?_, nofun⟩
          · exact (congrArg Services.shellElf hservices).trans hs.shellElf
          · exact congrArg Services.childRunning hservices

theorem Session.Reached.inv (h : Session.Reached env shell s) : s.Inv shell :=
  Run.Reachable.invariant (P := Session.Inv shell) (fun _ hs => hs.inv)
    (fun _ _ hs hst => hst.inv hs) h

/-! ## The exit of a program -/

/-- After its caller has been loaded again on the bus `phys`. -/
theorem Session.Inv.exit {k : Kernel Pmm} {frame : InterruptFrame} {input : UInt8} {o : Outcome}
    (hinv : s.Inv shell) (hreach : env.Reaches anyStep s.kernel) (hbus : env.bus = .phys)
    (hchild : s.kernel.services.childRunning = true) (hrax : frame.rax = sysExit)
    (hexit : s.kernel.syscall frame input = (k, o)) (hoom : k.mach.oom = false) :
    o = .ret (s.kernel.services.savedFrame.withRax 0) ∧ shell.InPlace k.mach := by
  have hstep := KernelStep.of_syscall hexit
  have hrooted : Rooted (avail env.start.frames) s.kernel.mach := by
    rcases hreach.rooted_or_bare hbus with hr | hb
    · exact hr
    · have := hstep.oom hoom
      rw [hb.oom] at this
      cases this
  obtain ⟨ho, -, hloaded⟩ := hrooted.exit hinv.fault hinv.shellElf hchild hrax hexit
    hinv.starts.1 hoom
  exact ⟨ho, fun a ph page hcover => hloaded.page (rooted_kept.step hrooted hstep) hcover⟩

/-- The session on another bus. -/
def Session.onBus (s : Session) (b : Bus) : Session := { s with kernel := s.kernel.onBus b }

theorem Session.Inv.onBus (h : s.Inv shell) (b : Bus) : (s.onBus b).Inv shell :=
  ⟨h.starts, h.fault, h.shellElf, h.childRunning, h.savedFrame⟩

/-- If frames do not run out and no access strays, a program that was started from the shell
exits as it should just in case it has started no other program. -/
theorem exit_right_iff {k : Kernel Pmm} {frame : InterruptFrame} {input : UInt8} {o : Outcome}
    (h : Session.Reached env shell s) (hrax : frame.rax = sysExit)
    (hexit : s.kernel.syscall frame input = (k, o))
    (hshell : ∀ f img rest, s.callers = (f, img) :: rest → img = shell)
    (hoom : k.mach.oom = false) (hexact : env.bus = .phys ∨ k.mach.stray = false) :
    s.ExitRight k o ↔ (s.callers = [] ∨ s.leaf = true) := by
  have hinv := h.inv
  cases hchild : s.kernel.services.childRunning with
  | false =>
      -- the kernel halts
      have hcall := hexit
      rw [Kernel.syscall_halt hrax hchild hinv.fault] at hcall
      obtain ⟨-, rfl⟩ := Prod.mk.inj hcall
      rw [hinv.childRunning] at hchild
      constructor
      · exact fun hright => Or.inl (hright.halts rfl)
      · intro hcond
        have hnil : s.callers = [] := by
          rcases hcond with hnil | hleaf
          · exact hnil
          · rw [hleaf] at hchild
            simpa using hchild
        refine ⟨fun f img rest hc => ?_, fun _ => hnil⟩
        rw [hnil] at hc
        cases hc
  | true =>
      have hleaf : s.leaf = true := by
        rw [hinv.childRunning] at hchild
        exact (Bool.and_eq_true_iff.mp hchild).1
      have hreturns : o = .ret (s.kernel.services.savedFrame.withRax 0) ∧ shell.InPlace k.mach := by
        rcases hexact with hbus | hstray
        · exact hinv.exit h.reaches hbus hchild hrax hexit hoom
        · obtain ⟨hstray', hcall⟩ := Kernel.syscall_exact .phys hexit hstray
          have hreach := h.reaches.onBus (fun _ _ _ _ _ => trivial) .phys hstray'
          have hphys := (hinv.onBus .phys).exit hreach rfl hchild hrax hcall hoom
          exact hphys
      refine ⟨fun _ => Or.inr hleaf, fun _ => ⟨fun f img rest hc => ?_, fun ho => ?_⟩⟩
      · rw [← hinv.savedFrame f img rest hleaf hc, hshell f img rest hc]
        exact hreturns
      · rw [hreturns.1] at ho
        cases ho

/-! ## On the other bus -/

theorem SessionStep.onBus (h : SessionStep s t) (b : Bus) (hstray : t.kernel.mach.stray = false) :
    s.kernel.mach.stray = false ∧ SessionStep (s.onBus b) (t.onBus b) := by
  cases h with
  | user hm => exact ⟨hstray, .user hm⟩
  | call hrax h =>
      obtain ⟨hcalm, hcall⟩ := Kernel.syscall_exact b h hstray
      exact ⟨hcalm, .call hrax hcall⟩
  | exec h =>
      obtain ⟨hcalm, hcall⟩ := Kernel.syscall_exact b h hstray
      exact ⟨hcalm, .exec hcall⟩
  | exit hcallers hrax h =>
      obtain ⟨hcalm, hcall⟩ := Kernel.syscall_exact b h hstray
      exact ⟨hcalm, .exit hcallers hrax hcall⟩

theorem busFree_setupStep : BusFree SetupStep := by
  intro k k' op b h
  cases op <;> exact h

theorem Session.Starts.onBus (h : Session.Starts env shell s) (b : Bus)
    (hstray : s.kernel.mach.stray = false) : Session.Starts (env.onBus b) shell (s.onBus b) := by
  obtain ⟨k, iret, M, hk, helf, hrun, hkernel⟩ := h.setup
  have hM : M.stray = false := by
    rw [hkernel, Kernel.mach_withMach] at hstray
    exact hstray
  have hrobust := Robust.usermodeExecElf (σ := Pmm) shell
  have hcalm := hrobust.sticky k.mach (by rw [hrun]; exact hM)
  have hagree := hrobust.agree k.mach b (by rw [hrun]; exact hM)
  rw [hrun] at hagree
  refine ⟨⟨k.onBus b, iret, M.withBus b, hk.onBus busFree_setupStep b hcalm, helf, hagree, ?_⟩,
    h.fault, h.program, h.callers, h.leaf⟩
  show s.kernel.onBus b = _
  rw [hkernel]
  rfl

/-- A session without stray accesses is one on every bus. -/
theorem Session.Reached.onBus (h : Session.Reached env shell s) (b : Bus)
    (hstray : s.kernel.mach.stray = false) : Session.Reached (env.onBus b) shell (s.onBus b) := by
  refine Run.Reachable.invariant (P := fun s => s.kernel.mach.stray = false →
    Session.Reached (env.onBus b) shell (s.onBus b)) ?_ ?_ h hstray
  · exact fun s hs hstray => .init (hs.onBus b hstray)
  · intro s t ih hst hstray
    obtain ⟨hcalm, hstep⟩ := hst.onBus b hstray
    exact .step (ih hcalm) hstep

end

/-! ## The sample program starts itself, and again -/

/-- The program exits and is loaded again. -/
theorem LowRun.exit {n j j' : Nat} {vs : List Nat} {k : Kernel Pmm} {img : Image}
    (h : LowRun n j vs k) (hn : n ≤ 0xE0) (hj : j' ≤ n) (himg : img.Small)
    (helf : k.services.shellElf = some img) (hchild : k.services.childRunning = true)
    (hcost : j + runCost vs 1 0x400000 = j') :
    ∃ k', k.syscall ring3Exit 0 = (k', .ret (k.services.savedFrame.withRax 0))
      ∧ LowRun n j' (0x400000 :: vs) k'
      ∧ k'.services = { k.services with childRunning := false } := by
  have hcall := Kernel.syscall_exit (show ring3Exit.rax = sysExit from rfl) hchild 0
  rw [reloadShell_some helf] at hcall
  obtain ⟨hlow, -⟩ := (h.load hn hj himg (Kernel.mach_withMach k (elfLoad img k.mach).2) rfl hcost)
  have hfault : (elfLoad img k.mach).2.fault = false := hlow.fault
  rw [hfault] at hcall
  exact ⟨_, hcall, hlow.withServices _, rfl⟩

/-- The shell is started. -/
theorem Image.NamesItself.session {n : Nat} {img : Image} (himg : img.NamesItself) (h26 : 26 ≤ n)
    (hn : n ≤ 0xE0) :
    ∃ k, Session.Reached (splitBoot n .phys) img ⟨k, img, [], true⟩ ∧ LowRun n 26 sampleTables k
      ∧ Loaded img k.mach ∧ k.services.files = [⟨[0x7f], img⟩]
      ∧ k.services.shellElf = some img := by
  obtain ⟨k₀, k, hrun, helf, hk, hlow, hloaded, hfiles⟩ := himg.start h26 hn
  have hmach : k.mach = (usermodeExecElf img k₀.mach).2 := by rw [hk, Kernel.mach_withMach]
  obtain ⟨iret, hstarted⟩ := usermodeExecElf_started himg.small.starts (M := k₀.mach)
    (by rw [← hmach]; exact hlow.counted.oom)
  rw [← hmach] at hstarted
  refine ⟨k, .init ⟨⟨k₀, iret, k.mach, hrun, helf, hstarted, ?_⟩, hlow.fault, rfl, rfl, rfl⟩, hlow,
    hloaded, hfiles, ?_⟩
  · rw [hmach, hk]
  · rw [hk, Kernel.services_withMach, helf]

/-- It starts itself, and that program starts itself again and exits. -/
theorem Image.NamesItself.nested {n : Nat} {img : Image} (himg : img.NamesItself) (h33 : 33 ≤ n)
    (hn : n ≤ 0xE0) :
    ∃ k₁ k₂ k₃, Session.Reached (splitBoot n .phys) img ⟨k₁, img, [(ring3Exec, img)], true⟩
      ∧ k₁.syscall ring3Exit 0 = (k₂, .ret (ring3Exec.withRax 0))
      ∧ k₂.mach.oom = false ∧ k₂.mach.stray = false
      ∧ Session.Reached (splitBoot n .phys) img ⟨k₃, img, [(ring3Exec, img)], false⟩
      ∧ k₃.mach.oom = false ∧ k₃.mach.stray = false := by
  obtain ⟨k, hreach, hlow, hloaded, hfiles, helf⟩ := himg.session (by omega) hn
  obtain ⟨k₁, hexec, hlow₁, hloaded₁, hservices₁⟩ := hlow.exec hn (by omega : 29 ≤ n) himg hloaded
    hfiles (by decide) rfl
  have hreach₁ := hreach.step (.exec hexec)
  have helf₁ : k₁.services.shellElf = some img := by rw [hservices₁]; exact helf
  have hchild₁ : k₁.services.childRunning = true := by rw [hservices₁]
  have hsaved₁ : k₁.services.savedFrame = ring3Exec := by rw [hservices₁]
  have hfiles₁ : k₁.services.files = [⟨[0x7f], img⟩] := by rw [hservices₁]; exact hfiles
  obtain ⟨k₁', hexit₁, hlow₁', -⟩ := hlow₁.exit hn (by omega : 30 ≤ n) himg.small helf₁ hchild₁
    (by decide)
  rw [hsaved₁] at hexit₁
  -- once more
  obtain ⟨k₂, hexec₂, hlow₂, -, hservices₂⟩ := hlow₁.exec hn (by omega : 32 ≤ n) himg hloaded₁
    hfiles₁ (by decide) rfl
  have hreach₂ := hreach₁.step (.exec hexec₂)
  have helf₂ : k₂.services.shellElf = some img := by rw [hservices₂]; exact helf₁
  have hchild₂ : k₂.services.childRunning = true := by rw [hservices₂]
  obtain ⟨k₃, hexit₂, hlow₃, -⟩ := hlow₂.exit hn h33 himg.small helf₂ hchild₂ (by decide)
  have hreach₃ := hreach₂.step (.exit rfl rfl hexit₂)
  exact ⟨k₁, k₁', k₃, hreach₁, hexit₁, hlow₁'.counted.oom, hlow₁'.windowed.calm, hreach₃,
    hlow₃.counted.oom, hlow₃.windowed.calm⟩

/-- The inner program exits as it should. -/
theorem exit_right_sample :
    ∃ (s : Session) (k : Kernel Pmm) (o : Outcome),
      Session.Reached (splitBoot 64 .mmu) onePageImage s ∧ s.callers = [(ring3Exec, onePageImage)]
      ∧ s.kernel.syscall ring3Exit 0 = (k, o) ∧ s.ExitRight k o := by
  obtain ⟨k₁, k₂, -, hreach, hexit, hoom, hcalm, -⟩ :=
    namesItself_onePageImage.nested (n := 64) (by decide) (by decide)
  obtain ⟨hcalm₁, hexit'⟩ := Kernel.syscall_exact .mmu hexit hcalm
  have hreach' := hreach.onBus .mmu hcalm₁
  refine ⟨_, _, _, hreach', rfl, hexit', ?_⟩
  refine (exit_right_iff hreach' rfl hexit' ?_ hoom (Or.inr hcalm)).mpr (Or.inr rfl)
  intro f img rest hc
  obtain ⟨hc, -⟩ := List.cons.inj hc
  exact (Prod.mk.inj hc).2.symm

/-- The outer one, which has started a program, halts the kernel when it exits, although it was
itself started by a call. -/
theorem nested_exit_halts :
    ∃ (s : Session) (k : Kernel Pmm) (o : Outcome),
      Session.Reached (splitBoot 64 .mmu) onePageImage s ∧ s.callers = [(ring3Exec, onePageImage)]
      ∧ s.kernel.syscall ring3Exit 0 = (k, o) ∧ k.mach.oom = false ∧ k.mach.stray = false
      ∧ o = .halt ∧ ¬ s.ExitRight k o := by
  obtain ⟨-, -, k, -, -, -, -, hreach, hoom, hcalm⟩ :=
    namesItself_onePageImage.nested (n := 64) (by decide) (by decide)
  have hreach' := hreach.onBus .mmu hcalm
  have hinv := hreach'.inv
  have hcall := Kernel.syscall_halt (show ring3Exit.rax = sysExit from rfl) hinv.childRunning
    hinv.fault 0
  exact ⟨_, _, _, hreach', rfl, hcall, hoom, hcalm, rfl, fun hright => nomatch hright.halts rfl⟩

end TunaOs
