import TunaOs.Kernel.Apart
import TunaOs.Kernel.Counts
import TunaOs.Kernel.Privilege

/-!
# From `SYS_EXEC` to `SYS_EXIT`

The shell starts a child, the child runs, and when it exits the kernel loads the shell
again and returns to the frame it saved.  `RoundTrip` is such a piece of a run, and
`Restored` what the shell may expect of it.  It is so as long as the kernel's accesses
do not stray (`exec_round_trip`).  With too few low frames the reload gets a frame that is not
mapped, and the kernel dies in `handle_exit`.
-/

namespace TunaOs

open Word

open FrameSource (avail)

section

variable {σ : Type} [FrameSource σ] {A : Nat → Prop} {k k' : Kernel σ} {frame : InterruptFrame}
  {input : UInt8}

/-! ## Single calls -/

theorem KernelStep.of_syscall {o : Outcome} (h : k.syscall frame input = (k', o)) :
    KernelStep k (.syscall frame input) k' := by
  have hs : KernelStep k (.syscall frame input) (k.syscall frame input).1 := .syscall
  rwa [h] at hs

/-- A call without a stray access is the same on the other bus, and there was none before it. -/
theorem Kernel.syscall_exact {o : Outcome} (b : Bus) (h : k.syscall frame input = (k', o))
    (hstray : k'.mach.stray = false) :
    k.mach.stray = false ∧ (k.onBus b).syscall frame input = (k'.onBus b, o) := by
  refine ⟨((KernelStep.of_syscall h).onBus (b := b) hstray).1, ?_⟩
  rw [Kernel.syscall_onBus b (by rw [h]; exact hstray), h]

/-- A call that starts a program. -/
theorem Kernel.syscall_started {g : InterruptFrame} {child : Image}
    (h : k.syscall frame input = (k', .start g child)) :
    frame.rax = sysExec ∧ child.Starts
      ∧ k'.services = { k.services with savedFrame := frame, childRunning := true }
      ∧ k'.mach = (mapStack stackPages childStackVaddr
          (elfLoad child (k.mach.readName frame)).2).2 := by
  simp only [Kernel.syscall] at h
  generalize hr : syscallDispatch k.services frame input k.mach = r at h
  obtain ⟨⟨S', o⟩, M'⟩ := r
  obtain ⟨rfl, rfl⟩ := Prod.mk.inj h
  cases syscallDispatch_run hr (by rintro ⟨⟩) with
  | exec hrax hrun =>
      cases hrun with
      | started hf hstarts hstack => exact ⟨hrax, hstarts, rfl, rfl⟩

/-- A call that ends without an exception. -/
theorem Kernel.syscall_fault (h : (k.syscall frame input).2 ≠ .fault) :
    (k.syscall frame input).1.mach.fault = false := by
  simp only [Kernel.syscall, syscallDispatch_eq, Kernel.mach_withServices,
    Kernel.mach_withMach] at h ⊢
  cases hf : (dispatchCall k.services frame input k.mach).2.fault with
  | false => rfl
  | true =>
      rw [hf] at h
      exact absurd rfl h

/-- A call of another handler changes nothing but the exception flag. -/
theorem Kernel.syscall_handler (hexec : frame.rax ≠ sysExec) (hexit : frame.rax ≠ sysExit) :
    (k.syscall frame input).1.services = k.services
      ∧ ∃ b, (k.syscall frame input).1.mach = k.mach.withFault b := by
  have hrun := dispatchCall_run k.services frame input k.mach
  simp only [Kernel.syscall, syscallDispatch_eq, Kernel.mach_withServices, Kernel.mach_withMach,
    Kernel.services_withServices]
  generalize dispatchCall k.services frame input k.mach = r at hrun ⊢
  obtain ⟨⟨S', o⟩, M'⟩ := r
  have hservices : S' = k.services ∧ ∃ b, M' = k.mach.withFault b := by
    cases hrun with
    | exec hrax => exact absurd hrax hexec
    | halt hrax => exact absurd hrax hexit
    | exit hrax => exact absurd hrax hexit
    | handler b => exact ⟨rfl, b, rfl⟩
  refine ⟨?_, hservices.2⟩
  simp only
  split <;> exact hservices.1

/-- The pages that starting a child leaves alone. -/
theorem Rooted.started {child : Image} {M : Mach σ} (h : Rooted A M) (frame : InterruptFrame)
    {a : Nat} (hchild : ¬ child.Covers (pageOf a))
    (hstack : ¬ StackPage childStackVaddr (pageOf a)) :
    (mapStack stackPages childStackVaddr (elfLoad child (M.readName frame)).2).2.leaf a
      = M.leaf a := by
  obtain ⟨b, hb⟩ := M.readName_eq frame
  have hread : VmInv (M.readName frame) := hb ▸ h.isolated.inv.withFault b
  obtain ⟨hi, hg, -⟩ := Maps.elfLoad child _ hread
  obtain ⟨-, hg', -⟩ := Maps.mapStack childStackVaddr _ hi
  rw [hg'.leaf a hstack, hg.leaf a hchild, hb]
  rfl

/-- The exit of a child loads the shell and returns to the frame of the exec. -/
theorem Rooted.exit {shell : Image} {o : Outcome} (h : Rooted A k.mach)
    (hfault : k.mach.fault = false) (helf : k.services.shellElf = some shell)
    (hchild : k.services.childRunning = true) (hrax : frame.rax = sysExit)
    (hexit : k.syscall frame input = (k', o)) (hshell : shell.accepted = true)
    (hoom : k'.mach.oom = false) :
    o = .ret (k.services.savedFrame.withRax 0) ∧ k'.mach = (elfLoad shell k.mach).2
      ∧ Loaded shell k'.mach := by
  have hcall := Kernel.syscall_exit hrax hchild input
  rw [reloadShell_some helf, hexit] at hcall
  obtain ⟨rfl, ho⟩ := Prod.mk.inj hcall
  have hend : (elfLoad shell k.mach).2.fault = false :=
    (primitive_faultless.elfLoad shell k.mach ⟨h.isolated.inv.bus, hfault⟩).2
  obtain ⟨-, -, -, hloaded⟩ := elfLoad_spec shell h.isolated.inv rfl
  refine ⟨?_, rfl, hloaded hoom hshell⟩
  rw [ho, hend]
  rfl

/-- Running out of frames is not forgotten. -/
theorem oom_kept : KeptByParts (σ := σ) fun M => M.oom = true where
  elfLoad img := primitive_oom.elfLoad img
  mapStack n vaddr := primitive_oom.mapStack n vaddr
  loadUser _ _ h := h
  kheapMapPages n virt := primitive_oom.kheapMapPages n virt
  user _ _ h _ := h

theorem KernelStep.oom {op : KernelOp} (hs : KernelStep k op k') (h : k'.mach.oom = false) :
    k.mach.oom = false := by
  cases hk : k.mach.oom with
  | false => rfl
  | true =>
      rw [oom_kept.step hk hs] at h
      cases h

end

theorem Kernel.Leads.oom {k k' : Kernel Pmm} {C : StepCond} (hrun : k.Leads C k')
    (h : k'.mach.oom = false) : k.mach.oom = false :=
  hrun.invariant (I := fun s => s.mach.oom = false → k.mach.oom = false) id
    (fun _ _ _ ih hs _ h => ih (hs.oom h)) h

/-! ## The child -/

/-- What a child does before it exits: it writes to its pages, and it makes calls other than
`SYS_EXEC`. -/
def ChildStep : StepCond
  | _, .user _, _ => True
  | _, .syscall frame _, _ => frame.rax ≠ sysExec ∧ frame.rax ≠ sysExit
  | _, _, _ => False

theorem busFree_childStep : BusFree ChildStep := by
  intro k k' op b h
  cases op <;> exact h

/-- The child changes neither the services nor the tables. -/
theorem ChildStep.keeps {A : Nat → Prop} {s t : Kernel Pmm} {op : KernelOp} (hC : ChildStep s op t)
    (hs : KernelStep s op t) (h : Rooted A s.mach) :
    t.services = s.services ∧ ∀ a, t.mach.leaf a = s.mach.leaf a := by
  cases hs with
  | user hm => exact ⟨rfl, (h.isolated.userWrites hm).2⟩
  | syscall =>
      obtain ⟨hservices, b, hmach⟩ := Kernel.syscall_handler (k := s) hC.1 hC.2
      refine ⟨hservices, fun a => ?_⟩
      rw [hmach]
      rfl
  | kmalloc => exact False.elim hC
  | kfree => exact False.elim hC
  | heapMem => exact False.elim hC
  | addFile => exact False.elim hC
  | setShellElf => exact False.elim hC
  | usermode => exact False.elim hC

theorem Kernel.Leads.child {A : Nat → Prop} {k k' : Kernel Pmm} (hrun : k.Leads ChildStep k')
    (h : Rooted A k.mach) :
    Rooted A k'.mach ∧ k'.services = k.services ∧ ∀ a, k'.mach.leaf a = k.mach.leaf a := by
  refine hrun.invariant (I := fun s => Rooted A s.mach ∧ s.services = k.services
    ∧ ∀ a, s.mach.leaf a = k.mach.leaf a) ⟨h, rfl, fun _ => rfl⟩ ?_
  rintro s op t ⟨hrooted, hservices, hleaf⟩ hs hC
  obtain ⟨hservices', hleaf'⟩ := hC.keeps hs hrooted
  exact ⟨rooted_kept.step hrooted hs, hservices'.trans hservices,
    fun a => (hleaf' a).trans (hleaf a)⟩

/-! ## The round trip -/

/-- The shell is loaded (`ks`), at some time (`k`) it starts a child (`k₁`), the child runs
(`k₂`), and its exit ends with `o` (`k₃`). -/
structure RoundTrip (env : BootEnv) (shell child : Image) (frame : InterruptFrame)
    (ks k k₁ k₂ k₃ : Kernel Pmm) (o : Outcome) : Prop where
  loaded : ∃ k₀, env.Reaches anyStep k₀ ∧ KernelStep k₀ (.usermode shell) ks
  shellRuns : ks.Leads anyStep k
  shellElf : k.services.shellElf = some shell
  exec : ∃ input g, k.syscall frame input = (k₁, .start g child)
  childRuns : k₁.Leads ChildStep k₂
  /-- No call of the child ends in an exception. -/
  alive : k₂.mach.fault = false
  exit : ∃ g input, g.rax = sysExit ∧ k₂.syscall g input = (k₃, o)

/-- What the shell may expect. -/
structure Restored (shell child : Image) (frame : InterruptFrame) (ks k k₃ : Kernel Pmm)
    (o : Outcome) : Prop where
  /-- The call returns 0, to the frame of the exec. -/
  frame : o = .ret (frame.withRax 0)
  /-- The pages of the shell are as they were loaded first. -/
  pages : ∀ a, shell.Covers (pageOf a) → ∃ t t', ks.mach.translate a = some t
    ∧ k₃.mach.translate a = some t' ∧ t'.user = t.user ∧ t'.write = t.write
    ∧ k₃.mach.mem (t'.frame + a % 4096) = ks.mach.mem (t.frame + a % 4096)
  /-- All pages but those of the shell, the child and its stack are mapped as they were. -/
  others : ∀ a, ¬ shell.Covers (pageOf a) → ¬ child.Covers (pageOf a) →
    ¬ StackPage childStackVaddr (pageOf a) → k₃.mach.translate a = k.mach.translate a

/-- On the bus `phys`. -/
theorem RoundTrip.restored {env : BootEnv} {shell child : Image} {frame : InterruptFrame}
    {ks k k₁ k₂ k₃ : Kernel Pmm} {o : Outcome} (h : RoundTrip env shell child frame ks k k₁ k₂ k₃ o)
    (hbus : env.bus = .phys) (hstarts : shell.Starts) (hshell : shell.InWindow)
    (hoom : k₃.mach.oom = false) : Restored shell child frame ks k k₃ o := by
  obtain ⟨⟨k₀, hk₀, hload⟩, hruns, helf, ⟨input, g, hexec⟩, hchild, halive, g', input', hrax,
    hexit⟩ := h
  -- frames have not run out at any time
  have hstep := KernelStep.of_syscall hexec
  have hstep' := KernelStep.of_syscall hexit
  have hooms : ks.mach.oom = false := hruns.oom (hstep.oom (hchild.oom (hstep'.oom hoom)))
  have hrooted₀ : Rooted (avail env.start.frames) k₀.mach := by
    rcases hk₀.rooted_or_bare hbus with hr | hb
    · exact hr
    · have := hload.oom hooms
      rw [hb.oom] at this
      cases this
  -- the machine at each of the states
  have hrooteds := rooted_kept.step hrooted₀ hload
  have hrooted : Rooted (avail env.start.frames) k.mach :=
    hruns.invariant (I := fun s => Rooted (avail env.start.frames) s.mach) hrooteds
      fun _ _ _ hs hst _ => rooted_kept.step hs hst
  have hrooted₁ := rooted_kept.step hrooted hstep
  obtain ⟨hrooted₂, hservices, hleaf⟩ := hchild.child hrooted₁
  have hrooted₃ := rooted_kept.step hrooted₂ hstep'
  obtain ⟨-, -, hservices₁, hmach₁⟩ := Kernel.syscall_started hexec
  rw [hservices₁] at hservices
  -- the exit
  have hrunning : k₂.services.childRunning = true := by rw [hservices]
  have helf₂ : k₂.services.shellElf = some shell := by rw [hservices]; exact helf
  have hsaved : k₂.services.savedFrame = frame := by rw [hservices]
  obtain ⟨ho, hmach₃, hloaded₃⟩ :=
    hrooted₂.exit halive helf₂ hrunning hrax hexit hstarts.1 hoom
  obtain ⟨-, hg, -⟩ := Maps.elfLoad shell k₂.mach hrooted₂.isolated.inv
  rw [← hmach₃] at hg
  have hloadeds : Loaded shell ks.mach := by
    cases hload with
    | usermode =>
        refine usermodeExecElf_loaded hstarts hrooted₀.isolated.inv (fun n hn hst => ?_) hooms
        obtain ⟨j, hj, hp⟩ := hst
        have hwin := hshell.covers hn
        simp only [stackPages, userStackVaddr, pageOf] at hj hp
        omega
  refine ⟨?_, fun a ha => ?_, fun a hns hnc hnst => ?_⟩
  · rw [ho, hsaved]
  · obtain ⟨⟨ph, page⟩, hcover⟩ := Option.isSome_iff_exists.mp ha
    obtain ⟨f, htrans, hbyte⟩ := hloadeds.page hrooteds hcover
    obtain ⟨f', htrans', hbyte'⟩ := hloaded₃.page hrooted₃ hcover
    exact ⟨_, _, htrans, htrans', rfl, rfl, hbyte'.trans hbyte.symm⟩
  · rw [hrooted₃.translate, hrooted.translate, hg.leaf a hns, hleaf a, hmach₁,
      hrooted.started frame hnc hnst]

/-- A round trip without stray accesses is one on every bus. -/
theorem RoundTrip.onBus {env : BootEnv} {shell child : Image} {frame : InterruptFrame}
    {ks k k₁ k₂ k₃ : Kernel Pmm} {o : Outcome} (h : RoundTrip env shell child frame ks k k₁ k₂ k₃ o)
    (b : Bus) (hstray : k₃.mach.stray = false) :
    RoundTrip (env.onBus b) shell child frame (ks.onBus b) (k.onBus b) (k₁.onBus b) (k₂.onBus b)
      (k₃.onBus b) o := by
  have hany : BusFree anyStep := fun _ _ _ _ _ => trivial
  obtain ⟨⟨k₀, hk₀, hload⟩, hruns, helf, ⟨input, g, hexec⟩, hchild, halive, g', input', hrax,
    hexit⟩ := h
  obtain ⟨hstray₂, hexit'⟩ := Kernel.syscall_exact b hexit hstray
  obtain ⟨hstray₁, hchild'⟩ := hchild.onBus busFree_childStep b hstray₂
  obtain ⟨hstrayk, hexec'⟩ := Kernel.syscall_exact b hexec hstray₁
  obtain ⟨hstrays, hruns'⟩ := hruns.onBus hany b hstrayk
  obtain ⟨hstray₀, hload'⟩ := hload.onBus (b := b) hstrays
  exact ⟨⟨_, hk₀.onBus hany b hstray₀, hload'⟩, hruns', helf, ⟨input, g, hexec'⟩, hchild', halive,
    g', input', hrax, hexit'⟩

/-- When the child exits, the shell goes on where it was, with its own pages as they were loaded
and all other pages as it left them, if frames do not run out and no access has strayed.  None
has if all frames drawn are low ones. -/
theorem exec_round_trip {env : BootEnv} {shell child : Image} {frame : InterruptFrame}
    {ks k k₁ k₂ k₃ : Kernel Pmm} {o : Outcome} (h : RoundTrip env shell child frame ks k k₁ k₂ k₃ o)
    (hstarts : shell.Starts) (hshell : shell.InWindow)
    (hoom : k₃.mach.oom = false)
    (hexact : env.bus = .phys ∨ k₃.mach.stray = false ∨ env.ReachesLow k₃) :
    Restored shell child frame ks k k₃ o := by
  rcases hexact with hbus | hcalm
  · exact h.restored hbus hstarts hshell hoom
  · have hstray : k₃.mach.stray = false := hcalm.elim id BootEnv.ReachesLow.calm
    obtain ⟨hframe, hpages, hothers⟩ := (h.onBus .phys hstray).restored rfl hstarts hshell hoom
    exact ⟨hframe, hpages, hothers⟩

/-! ## The sample program runs itself -/

/-- What `kernel_main` does before it starts the first program: there are no system calls. -/
def SetupStep : StepCond
  | _, .user _, _ => False
  | _, .syscall _ _, _ => False
  | _, _, _ => True

theorem BootEnv.Reaches.any {env : BootEnv} {C : StepCond} {k : Kernel Pmm} (h : env.Reaches C k) :
    env.Reaches anyStep k :=
  Run.Reachable.mono (fun _ => id) (fun _ _ ⟨op, hs, _⟩ => ⟨op, hs, trivial⟩) h

/-- The child stack is above the sample program. -/
theorem childStack_bounds {m : Nat} (h : StackPage childStackVaddr m) : 0x401 ≤ m ∧ m < 0x1000 := by
  obtain ⟨j, hj, hp⟩ := h
  simp only [stackPages, childStackVaddr, pageOf] at hj hp
  omega

/-- And so is the stack of the shell. -/
theorem userStack_bounds {m : Nat} (h : StackPage userStackVaddr m) : 0x401 ≤ m ∧ m < 0x1000 := by
  obtain ⟨j, hj, hp⟩ := h
  simp only [stackPages, userStackVaddr, pageOf] at hj hp
  omega

/-- A small program whose first byte in memory is the name `0x7f`. -/
structure Image.NamesItself (img : Image) : Prop where
  small : img.Small
  header : ∀ {A : Nat → Prop} {M : Mach Pmm}, Loaded img M → Rooted A M →
    M.userByte 0x400000 = some 0x7f

theorem namesItself_onePageImage : onePageImage.NamesItself :=
  ⟨small_onePageImage, fun hload hM => (hload.header hM).2⟩

/-- It starts the file of that name. -/
theorem LowRun.exec {n j j' : Nat} {vs vs' : List Nat} {k : Kernel Pmm} {img : Image}
    (h : LowRun n j vs k) (hn : n ≤ 0xE0) (hj : j' ≤ n) (himg : img.NamesItself)
    (hload : Loaded img k.mach) (hfiles : k.services.files = [⟨[0x7f], img⟩])
    (hcost : j + runCost vs 1 0x400000 + runCost (0x400000 :: vs) stackPages childStackVaddr
      = j')
    (hvs : runDone (0x400000 :: vs) stackPages childStackVaddr = vs') :
    ∃ k₁, k.syscall ring3Exec 0 = (k₁, .start (ring3Exec.enterChild img.entry) img)
      ∧ LowRun n j' vs' k₁ ∧ Loaded img k₁.mach
      ∧ k₁.services = { k.services with savedFrame := ring3Exec, childRunning := true } := by
  have hbyte := himg.header hload h.windowed.rooted
  obtain ⟨hname, hread⟩ := readName_byte (show ring3Exec.rsi = 1 from rfl) hbyte
  have htarget : k.services.target ring3Exec k.mach = some ⟨[0x7f], img⟩ := by
    rw [Services.target, if_neg (by decide), hname, hfiles]
    rfl
  -- the kernel after the call
  obtain ⟨k₁, hk₁⟩ : ∃ k₁, k₁ = (k.withMach (mapStack stackPages childStackVaddr
      (elfLoad img k.mach).2).2).withServices
        { k.services with savedFrame := ring3Exec, childRunning := true } := ⟨_, rfl⟩
  have hmach : k₁.mach = (mapStack stackPages childStackVaddr (elfLoad img k.mach).2).2 := by
    rw [hk₁, Kernel.mach_withServices, Kernel.mach_withMach]
  have hend : k₁.heap.heapEnd = k.heap.heapEnd := by
    rw [hk₁]
    exact Kernel.heapEnd_withMach ..
  obtain ⟨hlow, hloaded⟩ := h.start hn hj himg.small hmach hend (fun _ => childStack_bounds)
    hcost hvs
  have hoom := hlow.counted.oom
  have hfault := hlow.fault
  rw [hmach] at hoom hfault
  have hexec := handleExec_started htarget himg.small.starts
    (by rw [hread]; exact mapStack_fst _ _ hoom)
  rw [hread] at hexec
  refine ⟨k₁, ?_, hlow, hloaded, by rw [hk₁, Kernel.services_withServices]⟩
  rw [hk₁]
  exact Kernel.syscall_exec rfl hexec hfault 0

/-- The tables after the program has been started. -/
def sampleTables : List Nat := [0x801000, 0x800000, 0x400000, 0, 0x200000]

/-- The program is the only file, and it is started as the shell. -/
theorem Image.NamesItself.start {n : Nat} {img : Image} (himg : img.NamesItself) (h26 : 26 ≤ n)
    (hn : n ≤ 0xE0) :
    ∃ k₀ ks, (splitBoot n .phys).Reaches SetupStep k₀ ∧ k₀.services.shellElf = some img
      ∧ ks = k₀.withMach (usermodeExecElf img k₀.mach).2
      ∧ LowRun n 26 sampleTables ks ∧ Loaded img ks.mach
      ∧ ks.services.files = [⟨[0x7f], img⟩] := by
  have hboot := lowRun_boot (by omega : 21 ≤ n) hn
  have hrun := BootEnv.Reaches.boot (splitBoot n .phys) SetupStep
  have hnone : (splitBoot n .phys).boot.services.files = [] := rfl
  generalize (splitBoot n .phys).boot = b at hboot hrun hnone
  -- the file
  have hrun₁ := hrun.next (.addFile : KernelStep b (.addFile ⟨[0x7f], img⟩) _) trivial
  have hlow₁ := hboot.withServices { b.services with files := ⟨[0x7f], img⟩ :: b.services.files }
  have hfiles₁ : (b.withServices { b.services with
      files := ⟨[0x7f], img⟩ :: b.services.files }).services.files = [⟨[0x7f], img⟩] := by
    rw [Kernel.services_withServices, hnone]
  generalize b.withServices { b.services with files := ⟨[0x7f], img⟩ :: b.services.files } = b₁
    at hrun₁ hlow₁ hfiles₁
  -- the shell's image
  have hrun₂ := hrun₁.next (.setShellElf : KernelStep b₁ (.setShellElf img) _) trivial
  have hlow₂ := hlow₁.withServices { b₁.services with shellElf := some img }
  have hfiles₂ : (b₁.withServices { b₁.services with shellElf := some img }).services.files
      = [⟨[0x7f], img⟩] := hfiles₁
  have helf₂ : (b₁.withServices { b₁.services with shellElf := some img }).services.shellElf
      = some img := rfl
  generalize b₁.withServices { b₁.services with shellElf := some img } = b₂
    at hrun₂ hlow₂ hfiles₂ helf₂
  -- the shell is started
  have hmach : (b₂.withMach (usermodeExecElf img b₂.mach).2).mach
      = (mapStack stackPages userStackVaddr (elfLoad img b₂.mach).2).2 := by
    rw [Kernel.mach_withMach, usermodeExecElf_snd himg.small.starts]
  obtain ⟨hlow, hloaded⟩ := hlow₂.start hn h26 himg.small hmach
    (Kernel.heapEnd_withMach ..) (fun _ => userStack_bounds) (by decide) (rfl : _ = sampleTables)
  exact ⟨b₂, _, hrun₂, helf₂, rfl, hlow, hloaded, hfiles₂⟩

/-- The program is the shell, and it starts itself as a child.  That takes 29 frames. -/
theorem Image.NamesItself.exec {n : Nat} {img : Image} (himg : img.NamesItself) (h29 : 29 ≤ n)
    (hn : n ≤ 0xE0) :
    ∃ k₀ ks k₁ g, (splitBoot n .phys).Reaches anyStep k₀
      ∧ KernelStep k₀ (.usermode img) ks ∧ ks.services.shellElf = some img
      ∧ ks.syscall ring3Exec 0 = (k₁, .start g img)
      ∧ LowRun n 29 (runDone (0x400000 :: sampleTables) stackPages childStackVaddr) k₁
      ∧ k₁.services.shellElf = some img ∧ k₁.services.childRunning = true := by
  obtain ⟨k₀, ks, hrun, helf, rfl, hlows, hloaded, hfiles⟩ := himg.start (by omega) hn
  have helfs : (k₀.withMach (usermodeExecElf img k₀.mach).2).services.shellElf = some img := helf
  have hload : KernelStep k₀ (.usermode img) (k₀.withMach (usermodeExecElf img k₀.mach).2) :=
    .usermode
  generalize k₀.withMach (usermodeExecElf img k₀.mach).2 = ks at hload hlows hloaded hfiles helfs
  obtain ⟨k₁, hexec, hlow, -, hservices⟩ := hlows.exec hn h29 himg hloaded hfiles (by decide) rfl
  refine ⟨k₀, ks, k₁, _, hrun.any, hload, helfs, hexec, hlow, ?_, ?_⟩
  · rw [hservices]
    exact helfs
  · rw [hservices]

/-- The program starts itself and exits at once, on either bus. -/
theorem Image.NamesItself.roundTrip {n : Nat} {img : Image} (himg : img.NamesItself) (h29 : 29 ≤ n)
    (hn : n ≤ 0xE0) (bus : Bus) :
    ∃ (ks k₁ k₃ : Kernel Pmm) (o : Outcome),
      RoundTrip (splitBoot n bus) img img ring3Exec (ks.onBus bus) (ks.onBus bus)
        (k₁.onBus bus) (k₁.onBus bus) k₃ o
      ∧ LowRun n 29 (runDone (0x400000 :: sampleTables) stackPages childStackVaddr) k₁
      ∧ k₃.mach = (elfLoad img (k₁.mach.withBus bus)).2
      ∧ o = if k₃.mach.fault then .fault else .ret (k₁.services.savedFrame.withRax 0) := by
  obtain ⟨k₀, ks, k₁, g, hk₀, hload, helf, hexec, hlow, helf₁, hchild⟩ := himg.exec h29 hn
  obtain ⟨hcalms, hexec'⟩ := Kernel.syscall_exact bus hexec hlow.windowed.calm
  obtain ⟨hcalm₀, hload'⟩ := hload.onBus (b := bus) hcalms
  have hk₀' := hk₀.onBus (fun _ _ _ _ _ => trivial) bus hcalm₀
  have hexit := Kernel.syscall_exit (k := k₁.onBus bus) (show ring3Exit.rax = sysExit from rfl)
    hchild 0
  rw [reloadShell_some (show (k₁.onBus bus).services.shellElf = some img from helf₁)] at hexit
  refine ⟨ks, k₁, _, _, ⟨⟨_, hk₀', hload'⟩, .refl .., helf, ⟨0, g, hexec'⟩, .refl .., hlow.fault,
    ring3Exit, 0, rfl, hexit⟩, hlow, rfl, rfl⟩

/-- With 29 low frames all of them are taken when the child exits, and the reload of the
shell gets the frame at 16 MiB, which is not mapped. -/
theorem Image.NamesItself.reload_crashes {n : Nat} {img : Image} (himg : img.NamesItself)
    (hn : n = 29) :
    ∃ ks k k₁ k₂ k₃ o, RoundTrip (splitBoot n .mmu) img img ring3Exec ks k k₁ k₂ k₃ o
      ∧ k₃.mach.oom = false ∧ o = .fault := by
  obtain ⟨ks, k₁, k₃, o, htrip, hlow, hmach, ho⟩ :=
    himg.roundTrip (by omega : 29 ≤ n) (by omega) .mmu
  rw [← hn] at hlow
  have hedge := hlow.atEdge (by omega)
  refine ⟨_, _, _, _, k₃, o, htrip, ?_, ?_⟩
  · have hpages : ∀ i, i < img.phnum → (img.phdr i).type = ptLoad →
        (img.phdr i).pageCount ≤ 1 := fun i hi _ => by
      rw [himg.small.phnum] at hi
      obtain rfl := Nat.lt_one_iff.mp hi
      exact Nat.le_of_eq himg.small.count
    have hcost : img.phnum * (4 * 1) ≤ 0x100 := by
      rw [himg.small.phnum]
      decide
    rw [hmach]
    exact ((Draws.elfLoad img hpages).supply _ 0 (hedge.plenty.mono (by omega))).2.trans hedge.oom
  · have hcrash := elfLoad_unmapped hedge.bus hedge.next_ne_zero hedge.next_unmapped
      himg.small.starts.1 himg.small.seg (by rw [himg.small.count]; exact Nat.one_pos)
    rw [ho, hmach, hcrash.2]
    rfl

/-- With one more low frame the reload is in order. -/
theorem Image.NamesItself.reload_calm {n : Nat} {img : Image} (himg : img.NamesItself)
    (h30 : 30 ≤ n) (hn : n ≤ 0xE0) :
    ∃ ks k k₁ k₂ k₃ o, RoundTrip (splitBoot n .mmu) img img ring3Exec ks k k₁ k₂ k₃ o
      ∧ k₃.mach.oom = false ∧ k₃.mach.stray = false := by
  obtain ⟨ks, k₁, k₃, o, htrip, hlow, hmach, -⟩ := himg.roundTrip (by omega) hn .mmu
  obtain ⟨hreload, -⟩ := hlow.load hn h30 himg.small
    (Kernel.mach_withMach k₁ (elfLoad img k₁.mach).2) rfl (by decide)
  have hcalm : (elfLoad img k₁.mach).2.stray = false := hreload.windowed.calm
  rw [(primitive_robust.elfLoad img).agree k₁.mach .mmu hcalm] at hmach
  exact ⟨_, _, _, _, k₃, o, htrip, hmach ▸ hreload.counted.oom, hmach ▸ hcalm⟩

/-- The program starts itself, exits, and goes on. -/
theorem exec_round_trip_sample :
    ∃ ks k k₁ k₂ k₃ o, RoundTrip (splitBoot 30 .mmu) onePageImage onePageImage ring3Exec
        ks k k₁ k₂ k₃ o
      ∧ Restored onePageImage onePageImage ring3Exec ks k k₃ o := by
  obtain ⟨ks, k, k₁, k₂, k₃, o, htrip, hoom, hcalm⟩ :=
    namesItself_onePageImage.reload_calm (n := 30) (by decide) (by decide)
  exact ⟨ks, k, k₁, k₂, k₃, o, htrip,
    exec_round_trip htrip starts_onePageImage inWindow_onePageImage hoom (Or.inr (Or.inl hcalm))⟩

/-- The kernel dies in `handle_exit`, although frames have not run out. -/
theorem shell_not_restored :
    ∃ ks k k₁ k₂ k₃ o, RoundTrip (splitBoot 29 .mmu) onePageImage onePageImage ring3Exec
        ks k k₁ k₂ k₃ o
      ∧ onePageImage.Starts ∧ onePageImage.InWindow ∧ k₃.mach.oom = false
      ∧ ¬ Restored onePageImage onePageImage ring3Exec ks k k₃ o := by
  obtain ⟨ks, k, k₁, k₂, k₃, o, htrip, hoom, rfl⟩ := namesItself_onePageImage.reload_crashes rfl
  exact ⟨ks, k, k₁, k₂, k₃, _, htrip, starts_onePageImage, inWindow_onePageImage, hoom,
    fun hrestored => nomatch hrestored.frame⟩

end TunaOs
