import TunaOs.Kernel.Isolation

/-!
# Runs of the kernel

Two facts that the results about runs share.  A run that ends without a stray
access is a run on the bus `phys` as well (`BootEnv.Reaches.onBus`), so what is
proved for that bus holds on the hardware up to the first stray access.  And in
every state of a run frames have owners (`Rooted`), or there is neither a root nor
a frame (`Bare`).  In the first case a walk reads off the leaf entry, in the second the
tables of the boot code stay active.
-/

namespace TunaOs

open FrameSource (avail)

section

variable {σ : Type} [FrameSource σ] {A P : Nat → Prop} {M M' : Mach σ}

/-! ## Runs without stray accesses -/

omit [FrameSource σ] in
@[simp] theorem Kernel.mach_onBus (k : Kernel σ) (b : Bus) :
    (k.onBus b).mach = k.mach.withBus b := rfl

omit [FrameSource σ] in
@[simp] theorem Kernel.services_onBus (k : Kernel σ) (b : Bus) :
    (k.onBus b).services = k.services := rfl

/-- A system call without a stray access is the same on the other bus. -/
theorem Kernel.syscall_onBus {k : Kernel σ} {frame : InterruptFrame} {input : UInt8} (b : Bus)
    (h : (k.syscall frame input).1.mach.stray = false) :
    (k.onBus b).syscall frame input
      = ((k.syscall frame input).1.onBus b, (k.syscall frame input).2) := by
  simp only [Kernel.syscall, Kernel.mach_withServices, Kernel.mach_withMach] at h ⊢
  have hrun := (Robust.syscallDispatch k.services frame input).agree k.mach b h
  simp only [Kernel.mach_onBus, Kernel.services_onBus, hrun]
  rfl

/-- A step that ends without a stray access starts without one, and it is a step
on the other bus. -/
theorem KernelStep.onBus {b : Bus} {k k' : Kernel σ} {op : KernelOp} (hs : KernelStep k op k')
    (h : k'.mach.stray = false) :
    k.mach.stray = false ∧ KernelStep (k.onBus b) op (k'.onBus b) := by
  cases hs with
  | @kmalloc size p h' hm =>
      have hsticky : k.mach.stray = false := kmalloc_env
        (Q := fun M _ => M.stray = false → k.mach.stray = false)
        (fun M e _ hM hend => hM ((primitive_robust.kheapMapPages _ _).sticky M hend)) hm id h
      obtain ⟨N, hm', htwin⟩ := kmalloc_withEnv (R := fun M N => Twin b N M) (N := k.mach.withBus b)
        (fun M N e size h => (primitive_robust.kheapMapPages _ _).twin h) (fun _ => rfl) hm
      have hN : N = h'.env.withBus b := htwin h
      subst hN
      exact ⟨hsticky, .kmalloc hm'⟩
  | @kfree p h' hf =>
      have henv : h'.env = k.mach := (kfree_env hf).1
      have hf' : TunaOs.kfree (k.heap.withEnv (k.mach.withBus b)) p
          = some (h'.withEnv (h'.env.withBus b)) := by
        rw [henv]
        exact kfree_withEnv hf
      refine ⟨?_, .kfree hf'⟩
      rw [← henv]
      exact h
  | heapMem => exact ⟨h, .heapMem⟩
  | addFile => exact ⟨h, .addFile⟩
  | setShellElf => exact ⟨h, .setShellElf⟩
  | @usermode img =>
      rw [Kernel.mach_withMach] at h
      have hrun := (Robust.usermodeExecElf img).agree k.mach b h
      have hstep : KernelStep (k.onBus b) (.usermode img) _ := .usermode
      rw [Kernel.mach_onBus, hrun] at hstep
      exact ⟨(Robust.usermodeExecElf img).sticky k.mach h, hstep⟩
  | user hm => exact ⟨h, .user hm⟩
  | @syscall frame input =>
      have hstep : KernelStep (k.onBus b) (.syscall frame input) _ := .syscall
      rw [Kernel.syscall_onBus b h] at hstep
      exact ⟨(Robust.syscallDispatch k.services frame input).sticky k.mach h, hstep⟩

/-- The boot on another bus. -/
def BootEnv.onBus (env : BootEnv) (b : Bus) : BootEnv := { env with bus := b }

theorem BootEnv.vmmInit_onBus {env : BootEnv} (b : Bus) (h : env.boot.mach.stray = false) :
    (vmmInit (env.onBus b).start).2 = (vmmInit env.start).2.withBus b := by
  rw [env.boot_mach] at h
  have hcalm := (primitive_robust.kheapMapPages (σ := Pmm) 16 kheapStart).sticky _ h
  have hstart : (env.onBus b).start = env.start.withBus b := rfl
  rw [hstart, primitive_robust.vmmInit.agree env.start b hcalm]

theorem BootEnv.boot_onBus {env : BootEnv} (b : Bus) (h : env.boot.mach.stray = false) :
    (env.onBus b).boot = env.boot.onBus b := by
  have hmach : (env.onBus b).boot.mach = env.boot.mach.withBus b := by
    have hvmm := BootEnv.vmmInit_onBus b h
    rw [env.boot_mach] at h ⊢
    have hheap := (primitive_robust.kheapMapPages (σ := Pmm) 16 kheapStart).agree _ b h
    rw [BootEnv.boot_mach, hvmm, hheap]
  have hboot : (env.onBus b).boot = env.boot.withMach (env.onBus b).boot.mach := rfl
  rw [hboot, hmach]
  rfl

/-- A condition on steps that does not look at the bus. -/
def BusFree (C : StepCond) : Prop :=
  ∀ (k k' : Kernel Pmm) (op : KernelOp) (b : Bus), C k op k' → C (k.onBus b) op (k'.onBus b)

/-- A run without stray accesses is a run on every bus. -/
theorem BootEnv.Reaches.onBus {env : BootEnv} {C : StepCond} (hC : BusFree C) (b : Bus)
    {k : Kernel Pmm} (hk : env.Reaches C k) (h : k.mach.stray = false) :
    (env.onBus b).Reaches C (k.onBus b) := by
  refine hk.invariant (I := fun k => k.mach.stray = false → (env.onBus b).Reaches C (k.onBus b))
    (fun h => ?_) (fun k op k' ih hs hc h => ?_) h
  · exact .init (BootEnv.boot_onBus b h).symm
  · obtain ⟨hstray, hs'⟩ := hs.onBus (b := b) h
    exact (ih hstray).next hs' (hC k k' op b hc)

/-- A run without stray accesses starts without them. -/
theorem BootEnv.Reaches.boot_calm {env : BootEnv} {C : StepCond} {k : Kernel Pmm}
    (hk : env.Reaches C k) (h : k.mach.stray = false) : env.boot.mach.stray = false :=
  hk.invariant (I := fun k => k.mach.stray = false → env.boot.mach.stray = false) id
    (fun _ _ _ ih hs _ h => ih (hs.onBus (b := .phys) h).1) h

/-- A run from `k`. -/
def Kernel.Leads (k : Kernel Pmm) (C : StepCond) : Kernel Pmm → Prop :=
  Run.Reachable (fun s => s = k) fun s t => ∃ op, KernelStep s op t ∧ C s op t

theorem Kernel.Leads.refl (k : Kernel Pmm) (C : StepCond) : k.Leads C k := .init rfl

theorem Kernel.Leads.next {k s t : Kernel Pmm} {C : StepCond} {op : KernelOp} (h : k.Leads C s)
    (hs : KernelStep s op t) (hC : C s op t) : k.Leads C t := .step h ⟨op, hs, hC⟩

/-- The rule of runs from a state. -/
theorem Kernel.Leads.invariant {k : Kernel Pmm} {C : StepCond} {I : Kernel Pmm → Prop} (h0 : I k)
    (hstep : ∀ s op t, I s → KernelStep s op t → C s op t → I t) {k' : Kernel Pmm}
    (h : k.Leads C k') : I k' := by
  refine Run.Reachable.invariant (fun s hs => hs ▸ h0) ?_ h
  rintro s t hs ⟨op, hst, hC⟩
  exact hstep s op t hs hst hC

/-- A run without stray accesses is a run on every bus. -/
theorem Kernel.Leads.onBus {k : Kernel Pmm} {C : StepCond} (hC : BusFree C) (b : Bus)
    {k' : Kernel Pmm} (h : k.Leads C k') (hstray : k'.mach.stray = false) :
    k.mach.stray = false ∧ (k.onBus b).Leads C (k'.onBus b) := by
  refine h.invariant (I := fun k' => k'.mach.stray = false →
    k.mach.stray = false ∧ (k.onBus b).Leads C (k'.onBus b)) (fun h => ⟨h, .refl _ C⟩)
    (fun s op t ih hs hc ht => ?_) hstray
  obtain ⟨hs0, hs'⟩ := hs.onBus (b := b) ht
  exact ⟨(ih hs0).1, (ih hs0).2.next hs' (hC s t op b hc)⟩

/-! ## Owned frames -/

/-- Frames have owners, and the kernel's tables are active. -/
structure Rooted (A : Nat → Prop) (M : Mach σ) : Prop where
  isolated : Isolated A M
  cr3 : M.cr3 = some M.pml4

/-- There is no root and no frame, and the tables of the boot code are active. -/
structure Bare (M : Mach σ) : Prop where
  starved : Starved M
  cr3 : M.cr3 = none
  oom : M.oom = true

/-- A walk of the active tables reads off the leaf entry. -/
theorem Rooted.translate (h : Rooted A M) (a : Nat) : M.translate a = decode (M.leaf a) := by
  rw [Mach.translate, h.cr3]
  exact h.isolated.inv.walk_eq a

/-- Operations on the tables keep them active. -/
theorem Rooted.grow (h : Rooted A M) (hiso : Isolated A M') (hg : Grows P M M') : Rooted A M' :=
  ⟨hiso, by rw [hg.cr3, hg.pml4, h.cr3]⟩

theorem Bare.translate (h : Bare M) (a : Nat) :
    M.translate a = if a < 2 ^ 30 then some ⟨a &&& pageMask, true, false⟩ else none := by
  rw [Mach.translate, h.cr3]

theorem rooted_kept : KeptByParts (σ := σ) (Rooted A) where
  elfLoad img M h := by
    obtain ⟨-, hg, -⟩ := Maps.elfLoad img M h.isolated.inv
    exact h.grow (h.isolated.elfLoad img) hg
  mapStack n vaddr M h := by
    obtain ⟨-, hg, -⟩ := mapStack_spec n vaddr h.isolated.inv rfl
    exact h.grow (h.isolated.mapStack n vaddr) hg
  loadUser a M h := by
    obtain ⟨-, hg, -⟩ := Maps.loadUser (P := fun _ => False) a M h.isolated.inv
    exact h.grow (Isolated.loadUser a M h.isolated) hg
  kheapMapPages n virt M h := by
    obtain ⟨-, hg, -, -⟩ := kheapMapPages_spec n virt h.isolated.inv rfl
    exact h.grow (h.isolated.kheapMapPages n virt) hg
  user M m h hm := ⟨(h.isolated.userWrites hm).1, h.cr3⟩

theorem Bare.allocFrame (h : Bare M) : Bare (allocFrame M).2 :=
  ⟨h.starved.allocFrame.2, h.cr3, allocFrame_oom h.starved.allocFrame.1⟩

theorem bare_kept : KeptByParts (σ := σ) Bare :=
  Dry.kept ⟨fun _ h => h.starved.none, fun _ h => h.allocFrame⟩
    (fun _ _ h => ⟨⟨h.starved.pml4, h.starved.none⟩, h.cr3, h.oom⟩)
    fun _ _ h => ⟨⟨h.starved.pml4, h.starved.none⟩, h.cr3, h.oom⟩

/-- Boot ends in one of the two. -/
theorem BootEnv.boot_rooted {env : BootEnv} (hbus : env.bus = .phys)
    (h0 : (allocTable env.start).1 ≠ 0) : Rooted (avail env.start.frames) env.boot.mach := by
  rcases env.boot_owned hbus with hiso | hst
  · exact ⟨hiso, (env.boot_pml4 hbus h0).2⟩
  · exact absurd ((env.boot_pml4 hbus h0).1.symm.trans hst.pml4) h0

theorem BootEnv.vmmInit_bare {env : BootEnv} (h0 : (allocTable env.start).1 = 0) :
    Bare (vmmInit env.start).2 := by
  refine ⟨env.vmmInit_starved h0, ?_, ?_⟩
  · rw [vmmInit_zero h0]
    exact (access_cr3 none).allocTable env.start rfl
  · rw [vmmInit_zero h0, newPml4_oom]
    rw [allocTable_fst] at h0
    rw [allocTable_zero h0]
    exact allocFrame_oom h0

theorem BootEnv.boot_bare {env : BootEnv} (h0 : (allocTable env.start).1 = 0) :
    Bare env.boot.mach := by
  rw [env.boot_mach]
  exact bare_kept.kheapMapPages _ _ _ (BootEnv.vmmInit_bare h0)

/-- `vmm_init` maps the pages of the first 4 MiB to themselves. -/
theorem BootEnv.vmmInit_identity {env : BootEnv} (hbus : env.bus = .phys)
    (hoom : env.boot.mach.oom = false) {i : Nat} (hi : i < identityPages) :
    (vmmInit env.start).2.leaf (i * 4096) = i * 4096 ||| kernelFlags := by
  obtain ⟨N, hN, hinv, -, -, hident⟩ := vmmInit_spec hbus (env.root_ne_zero hoom) rfl
  have hcr3 : VmInv (loadCr3 N.pml4 N).2 := ⟨hinv.bus, hinv.tables, hinv.fresh⟩
  have hmap := env.boot_mach.symm
  rw [hN] at hmap ⊢
  obtain ⟨-, hg, -, -⟩ := kheapMapPages_spec 16 kheapStart hcr3 hmap
  exact hident (hg.oom hoom) i hi

/-- After boot the tables are frames that were free before it, the pages of the first 4 MiB
outside the heap are mapped to themselves if frames have not run out, and no
page above is mapped. -/
theorem BootEnv.boot_tables {env : BootEnv} (hbus : env.bus = .phys)
    (h0 : (allocTable env.start).1 ≠ 0) :
    (∀ t, env.boot.mach.IsTable t → avail env.start.frames t) ∧
      (∀ a, identityPages ≤ pageOf a → env.boot.mach.leaf a = 0) ∧
      (env.boot.mach.oom = false → ∀ i, i < identityPages → i < 0x200 ∨ 0x210 ≤ i →
        env.boot.mach.leaf (i * 4096) = i * 4096 ||| kernelFlags) := by
  obtain ⟨N, hN, hinv, hg, -, hident⟩ := vmmInit_spec hbus h0 rfl
  obtain ⟨-, honly, hroot, hav, hzero, -⟩ := newPml4_spec hbus h0 rfl
  have hcr3 : VmInv (loadCr3 N.pml4 N).2 := ⟨hinv.bus, hinv.tables, hinv.fresh⟩
  have hleaf : ∀ a, (loadCr3 N.pml4 N).2.leaf a = N.leaf a := fun _ => rfl
  have hmap := env.boot_mach.symm
  rw [hN] at hmap
  obtain ⟨-, hg', -, -⟩ := kheapMapPages_spec 16 kheapStart hcr3 hmap
  generalize env.boot.mach = M' at hg'
  refine ⟨fun t ht => ?_, fun a ha => ?_, fun hoom i hi hheap => ?_⟩
  · rcases hg'.new t ht with hold | hfree
    · rcases hg.new t hold with hold | hfree
      · rw [honly t hold]
        exact hroot
      · exact hav t hfree
    · exact hav t (hg.avail t hfree)
  · rw [hg'.leaf a, hleaf, hg.leaf a (Nat.not_lt.mpr ha), hzero]
    rintro ⟨j, hj, hp⟩
    simp only [identityPages, kheapStart, pageOf] at ha hp
    omega
  · rw [hg'.leaf, hleaf, hident (hg'.oom hoom) i hi]
    rintro ⟨j, hj, hp⟩
    simp only [identityPages, kheapStart, pageOf] at hi hp
    omega

/-- Boot writes only to frames that are free. -/
theorem BootEnv.boot_mem {env : BootEnv} (hbus : env.bus = .phys)
    (h0 : (allocTable env.start).1 ≠ 0) {x : Nat} (hx : ¬ avail env.start.frames (frameOf x)) :
    env.boot.mach.mem x = env.mem x := by
  obtain ⟨N, hN, hinv, hg, -, -⟩ := vmmInit_spec hbus h0 rfl
  obtain ⟨-, honly, hroot, hav, -⟩ := newPml4_spec hbus h0 rfl
  have hcr3 : VmInv (loadCr3 N.pml4 N).2 := ⟨hinv.bus, hinv.tables, hinv.fresh⟩
  have hmap := env.boot_mach.symm
  rw [hN] at hmap
  obtain ⟨-, hg', -, -⟩ := kheapMapPages_spec 16 kheapStart hcr3 hmap
  have hne : frameOf x ≠ (newPml4 env.start).pml4 := fun heq => hx (heq ▸ hroot)
  have hold : ¬ (newPml4 env.start).IsTable (frameOf x) := fun ht => hne (honly _ ht)
  have hfree : ¬ avail (newPml4 env.start).frames (frameOf x) := fun hf => hx (hav _ hf)
  have htable : ¬ N.IsTable (frameOf x) := fun ht => (hg.new _ ht).elim hold hfree
  calc env.boot.mach.mem x
    _ = N.mem x := hg'.mem x htable fun hf => hfree (hg.avail _ hf)
    _ = (newPml4 env.start).mem x := hg.mem x hold hfree
    _ = env.mem x := newPml4_mem hbus h0 hne

/-- In every state of a run frames have owners, or there are none. -/
theorem BootEnv.Reaches.rooted_or_bare {env : BootEnv} (hbus : env.bus = .phys) {C : StepCond}
    {k : Kernel Pmm} (hk : env.Reaches C k) :
    Rooted (avail env.start.frames) k.mach ∨ Bare k.mach := by
  refine hk.invariant (I := fun k => Rooted (avail env.start.frames) k.mach ∨ Bare k.mach) ?_ ?_
  · by_cases h0 : (allocTable env.start).1 = 0
    · exact Or.inr (BootEnv.boot_bare h0)
    · exact Or.inl (BootEnv.boot_rooted hbus h0)
  · rintro k op k' (h | h) hs -
    · exact Or.inl (rooted_kept.step h hs)
    · exact Or.inr (bare_kept.step h hs)

/-! ## What a step leaves alone -/

/-- The sizes of allocations do not wrap. -/
def KernelOp.Sized : KernelOp → Prop
  | .kmalloc size => size < 2 ^ 63
  | _ => True

/-- A step changes the leaf entries of its pages only, and the heap does not
shrink. -/
theorem KernelStep.frame {k k' : Kernel σ} {op : KernelOp} (hs : KernelStep k op k')
    (hiso : Isolated A k.mach) (hlim : HeapLimits k.heap.heapEnd) (hsize : op.Sized) :
    HeapLimits k'.heap.heapEnd ∧ k.heap.heapEnd ≤ k'.heap.heapEnd ∧
      ∀ a, ¬ op.Pages k k' (pageOf a) → k'.mach.leaf a = k.mach.leaf a := by
  cases hs with
  | kmalloc hm =>
      obtain ⟨-, hlim', hle, hg⟩ := kmalloc_grows hiso.inv hlim hsize hm
      exact ⟨hlim', hle, hg.leaf⟩
  | @kfree p h' hf =>
      obtain ⟨henv, hend⟩ := kfree_env hf
      rw [hend, Kernel.mach, henv]
      exact ⟨hlim, Nat.le_refl _, fun _ _ => rfl⟩
  | heapMem => exact ⟨hlim, Nat.le_refl _, fun _ _ => rfl⟩
  | addFile => exact ⟨hlim, Nat.le_refl _, fun _ _ => rfl⟩
  | setShellElf => exact ⟨hlim, Nat.le_refl _, fun _ _ => rfl⟩
  | usermode =>
      obtain ⟨-, hg, -⟩ := Maps.usermodeExecElf _ k.mach hiso.inv
      exact ⟨hlim, Nat.le_refl _, hg.leaf⟩
  | user hm => exact ⟨hlim, Nat.le_refl _, fun a _ => (hiso.userWrites hm).2 a⟩
  | @syscall frame input =>
      obtain ⟨-, hg, -⟩ := syscallDispatch_maps k.services frame input hiso.inv
      exact ⟨hlim, Nat.le_refl _, hg.leaf⟩

end

end TunaOs
