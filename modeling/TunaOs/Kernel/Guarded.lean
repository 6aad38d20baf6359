import TunaOs.Gdt.Tables
import TunaOs.Idt.Dispatch
import TunaOs.Kernel.Windows

/-!
# The kernel's own memory

The processor finds its tables in the kernel image, and it enters the kernel on a stack in the
16 KiB behind the image.  Both are memory like any other: `elf_load` maps the pages of a program
over them if the program asks for it, and `pmm_init` frees the frames of the stack if the memory
map has them.  `BootEnv.Reserved` and `Image.ClearOf` exclude the two.

Under them the image and the stack stay mapped to themselves, out of the reach of user mode, with
the bytes they had before `vmm_init` (`Guards`).  `Kernel.tables` are the tables as the processor
sees them, through the page tables of the kernel, and `Guards.installed` states that they stay
the ones of `kernel_main`.
-/

namespace TunaOs

open FrameSource (avail)
open Segment (Tables)

/-! ## Where it is -/

/-- The kernel image and the entry stack behind it. -/
def KernelMem (img : KernelImage) (a : Nat) : Prop := img.start ≤ a ∧ a < kernelStackTop img

theorem kernelStackTop_eq (img : KernelImage) :
    kernelStackTop img = (img.stop + 0x4000) / 16 * 16 := by
  have hstop := img.stop_le
  exact (congrArg (· &&& Word.highMask 4) (Word.wrap64_of_lt (by omega))).trans
    (Word.and_highMask (by decide) (by omega))

/-- No frame of the entry stack is free after `pmm_init`. -/
def BootEnv.Reserved (env : BootEnv) : Prop :=
  ∀ f, MeetsEntryStack env.image (f * pmmPageSize) → ¬ Usable env.image env.regions f

/-- Then no frame of the kernel's memory is. -/
theorem BootEnv.Reserved.not_avail {env : BootEnv} (h : env.Reserved) {a : Nat}
    (ha : KernelMem env.image a) : ¬ avail env.start.frames (frameOf a) := by
  intro hf
  obtain ⟨n, hn, husable⟩ := env.usable_of_avail hf
  have hpage : n = a / 4096 := by
    simp only [frameOf] at hn
    omega
  subst hpage
  obtain ⟨hstart, htop⟩ := ha
  by_cases hstop : a < env.image.stop
  · exact not_usable_image hstart hstop husable
  · refine h (a / 4096) ?_ husable
    have heq := kernelStackTop_eq env.image
    simp only [MeetsEntryStack, kernelTss, tssInit, pmmPageSize]
    omega

/-- The tables of the processor are in the image. -/
structure Statics.Inside (S : Statics) (img : KernelImage) : Prop where
  gdt : img.start ≤ S.gdt ∧ S.gdt + 56 ≤ img.stop
  tss : img.start ≤ S.tss.toNat ∧ S.tss.toNat + 104 ≤ img.stop
  idt : img.start ≤ S.idt ∧ S.idt + 4096 ≤ img.stop

/-- A byte of one of these tables. -/
def Statics.TableByte (S : Statics) (a : Nat) : Prop :=
  (S.gdt ≤ a ∧ a < S.gdt + 56) ∨ (S.tss.toNat ≤ a ∧ a < S.tss.toNat + 104) ∨
    (S.idt ≤ a ∧ a < S.idt + 4096)

theorem Statics.Inside.kernelMem {S : Statics} {img : KernelImage} (h : S.Inside img) {a : Nat}
    (ha : S.TableByte a) : KernelMem img a := by
  have heq := kernelStackTop_eq img
  obtain ⟨hgdt, htss, hidt⟩ := h
  rcases ha with ha | ha | ha
  · exact ⟨by omega, by omega⟩
  · exact ⟨by omega, by omega⟩
  · exact ⟨by omega, by omega⟩

/-- The entry stack is the kernel's memory. -/
theorem Statics.Inside.entryStack {S : Statics} {img : KernelImage} (h : S.Inside img) {a : Nat}
    (h1 : kernelStackTop img - 0x4000 ≤ a) (h2 : a < kernelStackTop img) : KernelMem img a := by
  have heq := kernelStackTop_eq img
  have hidt := h.idt
  exact ⟨by omega, h2⟩

/-! ## What is kept -/

section

variable {σ : Type} [FrameSource σ] {A P : Nat → Prop} {img : KernelImage} {m : Mem}
  {M M' : Mach σ}

/-- The kernel's memory is mapped to itself and holds what it held in `m`.  Tables were free
frames. -/
structure Guards (A : Nat → Prop) (img : KernelImage) (m : Mem) (M : Mach σ) : Prop where
  rooted : Rooted A M
  tables : ∀ t, M.IsTable t → A t
  leaf : ∀ a, KernelMem img a → M.leaf a = frameOf a ||| kernelFlags
  mem : ∀ a, KernelMem img a → M.mem a = m a

/-- Only the kernel has access to its memory. -/
theorem Guards.translate (h : Guards A img m M) {a : Nat} (ha : KernelMem img a)
    (hlow : a < 2 ^ 64) : M.translate a = some ⟨frameOf a, true, false⟩ := by
  have hmod : frameOf a % 4096 = 0 := by
    simp only [frameOf]
    omega
  have hlt : frameOf a < 2 ^ 64 := by
    simp only [frameOf]
    omega
  have hbit : (frameOf a).testBit 2 = false := by
    rw [← and_pageMask_of_aligned hmod hlt]
    exact testBit_and_pageMask (by decide) _
  rw [h.rooted.translate, h.leaf a ha, decode, if_pos (testBit_or_right (by decide)),
    or_flags_and_pageMask (by decide), and_pageMask_of_aligned hmod hlt,
    testBit_or_right (by decide), Nat.testBit_or, hbit]
  rfl

section

variable (hA : ∀ a, KernelMem img a → ¬ A (frameOf a))

include hA

/-- Pages elsewhere are mapped. -/
theorem Guards.grow (h : Guards A img m M) (hroot : Rooted A M') (hg : Grows P M M')
    (hP : ∀ a, KernelMem img a → ¬ P (pageOf a)) : Guards A img m M' where
  rooted := hroot
  tables t ht := (hg.new t ht).elim (h.tables t) (h.rooted.isolated.origin t)
  leaf a ha := (hg.leaf a (hP a ha)).trans (h.leaf a ha)
  mem a ha := by
    have htable : ¬ M.IsTable (frameOf a) := fun ht => hA a ha (h.tables _ ht)
    have hfree : ¬ avail M.frames (frameOf a) := fun hf => hA a ha (h.rooted.isolated.origin _ hf)
    rw [hg.mem a htable hfree, h.mem a ha]

/-- A user page has no frame of the kernel's memory. -/
theorem Guards.userFrame (h : Guards A img m M) {a : Nat} {t : Translation}
    (ht : M.translate a = some t) (hu : t.user = true) : ¬ KernelMem img (t.frame + a % 4096) := by
  intro hk
  rw [h.rooted.translate] at ht
  obtain rfl := eq_of_decode ht
  obtain ⟨hfree, -⟩ := h.rooted.isolated.user a hu
  have hframe := hA _ hk
  rw [show (M.leaf a &&& pageMask) + a % 4096 = M.leafFrame a + a % 4096 from rfl,
    M.frameOf_leafFrame a] at hframe
  exact hframe hfree

/-- A program runs. -/
theorem Guards.userWrites {m' : Mem} (h : Guards A img m M) (hm : UserWrites M m') :
    Guards A img m (M.withMem m') := by
  have hiso := h.rooted.isolated
  obtain ⟨-, hleaf, htab⟩ := hiso.inv.withMem fun x hx => hiso.userWrites_table hm hx
  refine ⟨rooted_kept.user M m' h.rooted hm, fun t ht => h.tables t (htab t ht),
    fun a ha => (hleaf a).trans (h.leaf a ha), fun a ha => ?_⟩
  rw [Mach.withMem_mem, ← h.mem a ha]
  by_contra hne
  obtain ⟨b, t, ht, hu, -, rfl⟩ := hm a hne
  exact h.userFrame hA ht hu ha

end

/-! ## The tables of the processor -/

/-- Memory as the kernel's addresses show it. -/
def Mach.space (M : Mach σ) : Mem := fun a =>
  match M.translate a with
  | none => 0
  | some t => M.mem (t.frame + a % 4096)

/-- The table registers, and the tables as they are mapped. -/
def Kernel.tables (k : Kernel σ) (T : Tables) : Tables := { T with mem := k.mach.space }

theorem Guards.space (h : Guards A img m M) {a : Nat} (ha : KernelMem img a) (hlow : a < 2 ^ 64) :
    M.space a = m a := by
  have hsame : frameOf a + a % 4096 = a := by
    simp only [frameOf]
    omega
  rw [Mach.space, h.translate ha hlow]
  dsimp only
  rw [hsame, h.mem a ha]

end

/-- Tables with the same bytes. -/
theorem Installed.withMem {S : Statics} {tss : Tss} {T : Tables} (h : Installed S tss T) {m : Mem}
    (hm : ∀ a, S.TableByte a → m a = T.mem a) : Installed S tss { T with mem := m } where
  gdtr := h.gdtr
  idtr := h.idtr
  tr := h.tr
  word i hi := by
    refine Eq.trans (Mem.load_congr fun x h1 h2 => hm x (Or.inl ?_)) (h.word i hi)
    rw [h.gdtr] at h1 h2
    simp only at h1 h2
    omega
  gate n hn := by
    have hload : ∀ j, j + 8 ≤ 16 → m.load (T.idtr.base + 16 * n + j) 8
        = T.mem.load (T.idtr.base + 16 * n + j) 8 := fun j hj =>
      Mem.load_congr fun x h1 h2 => hm x (Or.inr (Or.inr (by
        rw [h.idtr] at h1 h2
        simp only at h1 h2
        omega)))
    rw [← h.gate n hn, Tables.gate, Tables.gate]
    exact congrArg₂ Segment.decodeGate (hload 0 (by decide)) (hload 8 (by decide))
  rsp0 := (Mem.load_congr fun x h1 h2 => hm x (Or.inr (Or.inl (by omega)))).trans h.rsp0
  iopb := (Mem.load_congr fun x h1 h2 => hm x (Or.inr (Or.inl (by omega)))).trans h.iopb

/-- The processor works with the tables that `kernel_main` has set up. -/
theorem Guards.installed {σ : Type} [FrameSource σ] {A : Nat → Prop} {img : KernelImage}
    {S : Statics} {tss : Tss} {T : Tables} {k : Kernel σ} (h : Guards A img T.mem k.mach)
    (hinst : Installed S tss T) (hinside : S.Inside img) : Installed S tss (k.tables T) := by
  refine hinst.withMem fun a ha => h.space (hinside.kernelMem ha) ?_
  have hstop := img.stop_le
  have heq := kernelStackTop_eq img
  have hlt := (hinside.kernelMem ha).2
  omega

/-! ## Programs -/

section

variable {σ : Type} [FrameSource σ]

/-- No page of the image is one of the kernel's. -/
def Image.ClearOf (img : Image) (k : Kernel σ) : Prop := ∀ n, img.Covers n → ¬ k.Protected n

/-- The images that system calls can load: the files and the shell. -/
def Services.Has (S : Services) (img : Image) : Prop :=
  (∃ f ∈ S.files, f.image = img) ∨ S.shellElf = some img

omit [FrameSource σ] in
theorem Services.Loads.has {S : Services} {frame : InterruptFrame} {M : Mach σ} {img : Image}
    (h : S.Loads frame M img) : S.Has img := by
  rcases h with ⟨-, f, hf, rfl⟩ | ⟨-, -, himg⟩
  · refine Or.inl ⟨f, ?_, rfl⟩
    rw [Services.target] at hf
    split at hf
    case isTrue => cases hf
    case isFalse => exact List.mem_of_find?_eq_some hf
  · exact Or.inr himg

/-- The heap ends where it did, and there are the same files. -/
structure Kernel.SameStore (k k' : Kernel σ) : Prop where
  heapEnd : k'.heap.heapEnd = k.heap.heapEnd
  files : k'.services.files = k.services.files
  shellElf : k'.services.shellElf = k.services.shellElf

/-- A system call changes neither. -/
theorem Kernel.syscall_sameStore (k : Kernel σ) (frame : InterruptFrame) (input : UInt8) :
    k.SameStore (k.syscall frame input).1 := by
  have hservices : (k.syscall frame input).1.services
      = (dispatchCall k.services frame input k.mach).1.1 := by
    simp only [Kernel.syscall, Kernel.services_withServices, syscallDispatch_eq]
    split
    · rfl
    · rfl
  have hrun := dispatchCall_run k.services frame input k.mach
  generalize dispatchCall k.services frame input k.mach = r at hservices hrun
  obtain ⟨⟨S, o⟩, M⟩ := r
  have hsame : S.files = k.services.files ∧ S.shellElf = k.services.shellElf := by
    cases hrun with
    | exec _ hrun => cases hrun <;> exact ⟨rfl, rfl⟩
    | halt => exact ⟨rfl, rfl⟩
    | exit => exact ⟨rfl, rfl⟩
    | handler => exact ⟨rfl, rfl⟩
  exact ⟨rfl, by rw [hservices]; exact hsame.1, by rw [hservices]; exact hsame.2⟩

/-- The kernel keeps its memory to itself: the image and the entry stack are as they were, no page
of the kernel is a user page, the heap ends below the stacks of programs, and no image that can
be loaded has a page of the kernel. -/
structure Kernel.Guarded (A : Nat → Prop) (img : KernelImage) (m : Mem) (k : Kernel σ) : Prop where
  guards : Guards A img m k.mach
  apart : Confined (fun n => ¬ k.Protected n) k.mach
  window : k.heap.heapEnd ≤ userStackVaddr
  clear : ∀ img, k.services.Has img → img.ClearOf k

section

variable {A P : Nat → Prop} {img : KernelImage} {m : Mem} {k k' : Kernel σ}

omit [FrameSource σ] in
theorem Kernel.SameStore.protected_iff (h : k.SameStore k') {n : Nat} :
    k'.Protected n ↔ k.Protected n := by
  rw [Kernel.Protected, Kernel.HeapPage, h.heapEnd, Kernel.Protected, Kernel.HeapPage]

omit [FrameSource σ] in
theorem Kernel.SameStore.has_iff (h : k.SameStore k') {img : Image} :
    k'.services.Has img ↔ k.services.Has img := by
  rw [Services.Has, h.files, h.shellElf, Services.Has]

omit [FrameSource σ] in
/-- The stacks of programs are no pages of the kernel. -/
theorem StackPage.not_protected {vaddr n : Nat} (h : StackPage vaddr n)
    (hlow : userStackVaddr ≤ vaddr) (hhigh : vaddr ≤ childStackVaddr)
    (hend : k.heap.heapEnd ≤ userStackVaddr) : ¬ k.Protected n := by
  obtain ⟨j, hj, rfl⟩ := h
  simp only [stackPages, userStackVaddr, childStackVaddr] at hj hlow hhigh hend
  rintro (hid | ⟨a, -, ha, hpage⟩)
  · simp only [pageOf, identityPages] at hid
    omega
  · simp only [pageOf] at hpage
    omega

omit [FrameSource σ] in
/-- With the kernel below the heap its memory is on its own pages. -/
theorem KernelMem.protected {a : Nat} (ha : KernelMem img a)
    (hlow : kernelStackTop img ≤ kheapStart) : k.Protected (pageOf a) := by
  refine Or.inl ?_
  have htop := ha.2
  simp only [kheapStart] at hlow
  simp only [pageOf, identityPages]
  omega

variable (hA : ∀ a, KernelMem img a → ¬ A (frameOf a)) (hlow : kernelStackTop img ≤ kheapStart)

include hA hlow

/-- Pages are mapped that are not the kernel's. -/
theorem Kernel.Guarded.grow (h : k.Guarded A img m) (hsame : k.SameStore k')
    (hroot : Rooted A k'.mach) (hg : Grows P k.mach k'.mach) (hP : ∀ n, P n → ¬ k.Protected n) :
    k'.Guarded A img m where
  guards := h.guards.grow hA hroot hg fun a ha hn => hP _ hn (ha.protected hlow)
  apart a ha := fun hn => h.apart.grow hg hP a ha (hsame.protected_iff.mp hn)
  window := by
    rw [hsame.heapEnd]
    exact h.window
  clear img' himg n hn := fun hprot =>
    h.clear img' (hsame.has_iff.mp himg) n hn (hsame.protected_iff.mp hprot)

/-- The machine is the same. -/
theorem Kernel.Guarded.congr (h : k.Guarded A img m) (hsame : k.SameStore k')
    (hmach : k'.mach = k.mach) : k'.Guarded A img m := by
  refine h.grow hA hlow (P := fun _ => False) hsame ?_ ?_ fun _ hn => hn.elim
  · rw [hmach]
    exact h.guards.rooted
  · rw [hmach]
    exact .refl _

/-- A system call. -/
theorem Kernel.Guarded.syscall (h : k.Guarded A img m) (frame : InterruptFrame) (input : UInt8) :
    (k.syscall frame input).1.Guarded A img m := by
  obtain ⟨-, hg, -⟩ := syscallDispatch_maps k.services frame input h.guards.rooted.isolated.inv
  have hstep : KernelStep k (.syscall frame input) (k.syscall frame input).1 := .syscall
  have hroot := rooted_kept.step h.guards.rooted hstep
  refine h.grow hA hlow (k.syscall_sameStore frame input) hroot hg ?_
  rintro n (⟨img', himg, hn⟩ | ⟨-, hn⟩)
  · exact h.clear img' himg.has n hn
  · exact hn.not_protected (by decide) (Nat.le_refl _) h.window

omit hlow in
/-- A program runs. -/
theorem Kernel.Guarded.user {m' : Mem} (h : k.Guarded A img m) (hm : UserWrites k.mach m') :
    (k.withMach (k.mach.withMem m')).Guarded A img m where
  guards := h.guards.userWrites hA hm
  apart a ha := by
    refine h.apart a ?_
    rwa [Mach.UserLeaf, ← (h.guards.rooted.isolated.userWrites hm).2 a]
  window := h.window
  clear := h.clear

/-- The kernel's memory before the first program. -/
structure Kernel.Prepared (A : Nat → Prop) (img : KernelImage) (m : Mem) (k : Kernel σ) :
    Prop where
  guards : Guards A img m k.mach
  bare : Confined (fun _ => False) k.mach
  limits : HeapLimits k.heap.heapEnd
  low : kheapStart ≤ k.heap.heapEnd

/-- A program is started. -/
theorem Kernel.Prepared.usermode (h : k.Prepared A img m) {program : Image}
    (hclear : ∀ img, k.services.Has img → img.ClearOf k) (hprogram : program.ClearOf k)
    (hend : k.heap.heapEnd ≤ userStackVaddr) :
    (k.withMach (usermodeExecElf program k.mach).2).Guarded A img m := by
  have hk : k.Guarded A img m :=
    ⟨h.guards, fun a ha => (h.bare a ha).elim, hend, hclear⟩
  obtain ⟨-, hg, -⟩ := Maps.usermodeExecElf program k.mach h.guards.rooted.isolated.inv
  refine hk.grow hA hlow ⟨rfl, rfl, rfl⟩ (rooted_kept.usermodeExecElf program _ h.guards.rooted)
    hg ?_
  rintro n (hn | hn)
  · exact hprogram n hn
  · exact hn.not_protected (Nat.le_refl _) (by decide) hend

/-- `kmalloc` before the first program. -/
theorem Kernel.Prepared.kmalloc (h : k.Prepared A img m) {size p : Nat} {h' : Heap (Mach σ)}
    (hsize : size < 2 ^ 63) (hm : kmalloc k.heap size = some (h', p)) :
    Kernel.Prepared A img m { k with heap := h' } := by
  have hinv := h.guards.rooted.isolated.inv
  obtain ⟨-, hlim, hle, hg⟩ := kmalloc_grows hinv h.limits hsize hm
  have hbare : VmInv h'.env ∧ Confined (fun _ => False) h'.env :=
    kmalloc_env (Q := fun M _ => VmInv M ∧ Confined (fun _ => False) M)
      (fun M e _ hM => by
        obtain ⟨hinv', -⟩ := kheapMapPages_spec _ _ hM.1 rfl
        exact ⟨hinv', hM.2.kheapMapPages _ _ hM.1 rfl⟩) hm ⟨hinv, h.bare⟩
  refine ⟨h.guards.grow hA (rooted_kept.kmalloc hm h.guards.rooted) hg ?_, hbare.2, hlim,
    Nat.le_trans h.low hle⟩
  rintro a ha ⟨b, hb, hb', hpage⟩
  have htop := ha.2
  have hstart := h.low
  have hmax := hlim.max
  simp only [kheapStart, kheapMaxSize] at hlow hstart hmax
  simp only [pageOf] at hpage
  omega

end

end

/-! ## From boot to the first program -/

/-- What `kernel_main` does before it starts the first program. -/
def PrepareStep : StepCond
  | _, .kmalloc size, _ => size < 2 ^ 63
  | _, .usermode _, _ => False
  | _, .user _, _ => False
  | _, .syscall _ _, _ => False
  | _, _, _ => True

section

variable {env : BootEnv}

/-- After boot. -/
theorem BootEnv.boot_prepared (hbus : env.bus = .phys) (hoom : env.boot.mach.oom = false)
    (hres : env.Reserved) (hlow : kernelStackTop env.image ≤ kheapStart) :
    env.boot.Prepared (avail env.start.frames) env.image env.mem := by
  have hroot := env.root_ne_zero hoom
  obtain ⟨htab, -, hident⟩ := BootEnv.boot_tables hbus hroot
  have hend : env.boot.heap.heapEnd = kheapStart + kheapInitialSize := rfl
  refine ⟨⟨BootEnv.boot_rooted hbus hroot, htab, fun a ha => ?_, fun a ha =>
    BootEnv.boot_mem hbus hroot (hres.not_avail ha)⟩, confined_boot hbus hroot, ?_, ?_⟩
  · have htop := ha.2
    simp only [kheapStart] at hlow
    rw [← Mach.leaf_frameOf]
    exact hident hoom _ (by simp only [identityPages]; omega) (Or.inl (by omega))
  · rw [hend]
    exact ⟨by decide, by decide⟩
  · rw [hend]
    decide

/-- Up to the first program. -/
theorem BootEnv.Reaches.prepared (hbus : env.bus = .phys) (hoom : env.boot.mach.oom = false)
    (hres : env.Reserved) (hlow : kernelStackTop env.image ≤ kheapStart) {k : Kernel Pmm}
    (hk : env.Reaches PrepareStep k) :
    k.Prepared (avail env.start.frames) env.image env.mem := by
  refine hk.invariant (I := fun k => k.Prepared (avail env.start.frames) env.image env.mem)
    (env.boot_prepared hbus hoom hres hlow) ?_
  intro k op k' h hs hC
  cases hs with
  | kmalloc hm => exact h.kmalloc (fun _ ha => hres.not_avail ha) hlow hC hm
  | @kfree p h' hf =>
      obtain ⟨henv, hend⟩ := kfree_env hf
      have hmach : Kernel.mach { k with heap := h' } = k.mach := henv
      refine ⟨?_, ?_, ?_, ?_⟩
      · rw [hmach]
        exact h.guards
      · rw [hmach]
        exact h.bare
      · rw [hend]
        exact h.limits
      · rw [hend]
        exact h.low
  | heapMem => exact ⟨h.guards, h.bare, h.limits, h.low⟩
  | addFile => exact ⟨h.guards, h.bare, h.limits, h.low⟩
  | setShellElf => exact ⟨h.guards, h.bare, h.limits, h.low⟩
  | usermode => exact hC.elim
  | user => exact hC.elim
  | syscall => exact hC.elim

end

end TunaOs
