import TunaOs.Kernel.HeapMapped

/-!
# Heap and programs apart

The heap may grow to 16 MiB from `0x200000` on, over the addresses of programs and
stacks.  As long as it stays below `0x400000` it meets neither (`windows_apart`).  How far a
call of `kmalloc` can take it is known before the call (`Heap.reach`).  Nothing in the source keeps
it there: in `userPage_remapped` a request for 2 MiB takes the page of a running program.
-/

namespace TunaOs

open FrameSource (avail)

/-! ## The heap below the programs -/

/-- Where programs begin. -/
def programStart : Nat := 0x400000

/-- The segments of the image lie in `[0x400000, 0x800000)`. -/
def Image.InWindow (img : Image) : Prop :=
  ∀ i, i < img.phnum → (img.phdr i).type = ptLoad →
    programStart ≤ (img.phdr i).vaddr ∧ (img.phdr i).vaddr + (img.phdr i).memsz ≤ userStackVaddr

theorem Image.InWindow.covers {img : Image} (h : img.InWindow) {n : Nat} (hn : img.Covers n) :
    0x400 ≤ n ∧ n < 0x800 := by
  obtain ⟨i, hi, htype, j, hj, rfl⟩ := Image.lastCover_isSome.mp hn
  obtain ⟨hlow, hhigh⟩ := h i hi htype
  have hstart : (img.phdr i).vaddrStart = (img.phdr i).vaddr / 4096 * 4096 :=
    pageMask_eq (img.phdr_vaddr_lt i)
  have hend := (img.phdr i).vaddrEnd_eq
  have hwrap : Word.wrap64 ((img.phdr i).vaddr + (img.phdr i).memsz + 0xFFF)
      ≤ (img.phdr i).vaddr + (img.phdr i).memsz + 0xFFF := Nat.mod_le ..
  simp only [programStart, userStackVaddr] at hlow hhigh
  rw [Phdr.pageCount] at hj
  simp only [pageOf]
  omega

/-- Programs are in their window. -/
def ProgramsInWindow : StepCond
  | _, .usermode img, _ => img.InWindow
  | k, .syscall frame _, _ => ∀ img, k.services.Loads frame k.mach img → img.InWindow
  | _, _, _ => True

/-- Calls of `kmalloc` do not take the heap to the programs, and sizes do not wrap. -/
def HeapStaysBelow : StepCond
  | k, .kmalloc size, _ => size < 2 ^ 63 ∧ k.heap.reach size ≤ programStart
  | _, _, _ => True

/-- Both. -/
def WindowsApart : StepCond := fun k op k' => ProgramsInWindow k op k' ∧ HeapStaysBelow k op k'

theorem busFree_windowsApart : BusFree WindowsApart := by
  intro k k' op b h
  cases op with
  | kmalloc size =>
      obtain ⟨hprogram, hsize, hreach⟩ := h
      rw [← k.heap.reach_withEnv (k.mach.withBus b)] at hreach
      exact ⟨hprogram, hsize, hreach⟩
  | syscall frame input =>
      exact ⟨fun img himg => h.1 img ((loads_withBus k.services frame k.mach b img).mp himg), h.2⟩
  | _ => exact h

section

variable {σ : Type} [FrameSource σ] {A : Nat → Prop}

/-- The heap's pages are mapped as before, and not for user mode. -/
def Kernel.KeepsHeap (k k' : Kernel σ) : Prop :=
  ∀ a, kheapStart ≤ a → a < k.heap.heapEnd →
    k'.mach.translate a = k.mach.translate a ∧ ¬ k.mach.UserPage a

/-- The pages of user mode are mapped as before. -/
def Kernel.KeepsUser (k k' : Kernel σ) : Prop :=
  ∀ a, k.mach.UserPage a → k'.mach.translate a = k.mach.translate a

/-- The heap is below the programs. -/
structure HeapBelow (A : Nat → Prop) (k : Kernel σ) : Prop where
  rooted : Rooted A k.mach
  limits : HeapLimits k.heap.heapEnd
  below : k.heap.heapEnd ≤ programStart
  user : Confined (0x400 ≤ ·) k.mach

/-- Growing the heap makes no user pages. -/
theorem Confined.kmalloc {P : Nat → Prop} {h h' : Heap (Mach σ)} {size p : Nat}
    (hconf : Confined P h.env) (hinv : VmInv h.env) (hm : kmalloc h size = some (h', p)) :
    Confined P h'.env := by
  refine (kmalloc_env (Q := fun M _ => VmInv M ∧ Confined P M) (fun M e _ hM => ?_) hm
    ⟨hinv, hconf⟩).2
  obtain ⟨hi, -, -, -⟩ := kheapMapPages_spec _ _ hM.1 rfl
  exact ⟨hi, hM.2.kheapMapPages _ _ hM.1 rfl⟩

theorem StackPage.high {vaddr n : Nat} (h : StackPage vaddr n) (hlow : userStackVaddr ≤ vaddr)
    (hhigh : vaddr ≤ childStackVaddr) : 0x400 ≤ n := by
  obtain ⟨j, hj, rfl⟩ := h
  simp only [stackPages, userStackVaddr, childStackVaddr] at hj hlow hhigh
  simp only [pageOf]
  omega

/-- After a call of `kmalloc` the heap is still below the programs. -/
theorem heapEnd_windowsApart {k k' : Kernel Pmm} {size : Nat} (hlim : HeapLimits k.heap.heapEnd)
    (hs : KernelStep k (.kmalloc size) k') (hC : WindowsApart k (.kmalloc size) k') :
    k'.heap.heapEnd ≤ programStart := by
  cases hs with
  | kmalloc hm => exact Nat.le_trans (kmalloc_reach hlim.max hm) hC.2.2

/-- Which pages steps map when the windows are apart. -/
theorem pages_windowsApart {k k' : Kernel Pmm} {op : KernelOp} {n : Nat}
    (hlim : HeapLimits k.heap.heapEnd) (hs : KernelStep k op k') (hC : WindowsApart k op k')
    (hn : op.Pages k k' n) :
    (∃ size a, op = .kmalloc size ∧ k.heap.heapEnd ≤ a ∧ a < programStart ∧ n = pageOf a) ∨
      ((∀ size, op ≠ .kmalloc size) ∧ 0x400 ≤ n) := by
  cases op with
  | kmalloc size =>
      obtain ⟨a, h1, h2, rfl⟩ := hn
      exact Or.inl ⟨size, a, rfl, h1, Nat.lt_of_lt_of_le h2 (heapEnd_windowsApart hlim hs hC), rfl⟩
  | usermode img =>
      refine Or.inr ⟨fun _ h => (nomatch h), ?_⟩
      rcases hn with hn | hn
      · exact (Image.InWindow.covers hC.1 hn).1
      · exact hn.high (Nat.le_refl _) (by decide)
  | syscall frame input =>
      refine Or.inr ⟨fun _ h => (nomatch h), ?_⟩
      rcases hn with ⟨img, himg, hn⟩ | ⟨-, hn⟩
      · exact (Image.InWindow.covers (hC.1 img himg) hn).1
      · exact hn.high (by decide) (Nat.le_refl _)
  | kfree | heapMem | addFile | setShellElf | user => exact hn.elim

theorem sized_of_windowsApart {k k' : Kernel Pmm} {op : KernelOp} (hC : WindowsApart k op k') :
    op.Sized := by
  cases op with
  | kmalloc size => exact hC.2.1
  | _ => trivial

theorem HeapBelow.not_userPage {k : Kernel σ} (h : HeapBelow A k) {a : Nat}
    (ha : a < k.heap.heapEnd) : ¬ k.mach.UserPage a := by
  intro hu
  have hpage := h.user a (userPage_decode (h.rooted.translate a) hu)
  have hbelow := h.below
  simp only [programStart, pageOf] at hbelow hpage
  omega

/-- One step. -/
theorem HeapBelow.step {k k' : Kernel Pmm} {op : KernelOp} (h : HeapBelow A k)
    (hs : KernelStep k op k') (hC : WindowsApart k op k') :
    HeapBelow A k' ∧ k.heap.heapEnd ≤ k'.heap.heapEnd ∧ k.KeepsHeap k' ∧
      ∀ size, op = .kmalloc size → k.KeepsUser k' := by
  have hroot := rooted_kept.step h.rooted hs
  obtain ⟨hlim, hle, hleaf⟩ := hs.frame h.rooted.isolated h.limits (sized_of_windowsApart hC)
  have htrans : ∀ a, ¬ op.Pages k k' (pageOf a) → k'.mach.translate a = k.mach.translate a :=
    fun a ha => by rw [hroot.translate, h.rooted.translate, hleaf a ha]
  have hhigh : ∀ a, k.mach.UserPage a → 0x400 ≤ pageOf a := fun a ha =>
    h.user a (userPage_decode (h.rooted.translate a) ha)
  have hbelow := h.below
  have halign := h.limits.aligned
  simp only [programStart] at hbelow
  refine ⟨⟨hroot, hlim, ?_, ?_⟩, hle, fun a h1 h2 => ⟨htrans a fun hp => ?_, h.not_userPage h2⟩, ?_⟩
  · -- the end of the heap
    cases hs with
    | kmalloc hm => exact heapEnd_windowsApart h.limits (.kmalloc hm) hC
    | kfree hf =>
        rw [(kfree_env hf).2]
        exact h.below
    | _ => exact h.below
  · -- user pages
    intro a ha
    by_cases hp : op.Pages k k' (pageOf a)
    · rcases pages_windowsApart h.limits hs hC hp with ⟨size, -, rfl, -⟩ | ⟨-, hn⟩
      · cases hs with
        | kmalloc hm => exact h.user.kmalloc h.rooted.isolated.inv hm a ha
      · exact hn
    · rw [Mach.UserLeaf, hleaf a hp] at ha
      exact h.user a ha
  · rcases pages_windowsApart h.limits hs hC hp with ⟨-, b, -, hb1, hb2, hpage⟩ | ⟨-, hn⟩
    · simp only [programStart, pageOf] at hb2 hpage
      omega
    · simp only [pageOf] at hn
      omega
  · rintro size rfl a hu
    refine htrans a fun hp => ?_
    rcases pages_windowsApart h.limits hs hC hp with ⟨-, b, -, -, hb, hpage⟩ | ⟨hno, -⟩
    · have := hhigh a hu
      simp only [programStart, pageOf] at hb hpage this
      omega
    · exact hno size rfl

end

theorem heapBelow_boot {env : BootEnv} (hbus : env.bus = .phys)
    (h0 : (allocTable env.start).1 ≠ 0) : HeapBelow (avail env.start.frames) env.boot :=
  ⟨BootEnv.boot_rooted hbus h0, env.boot_heapEnd ▸ ⟨by decide, by decide⟩,
    env.boot_heapEnd ▸ by decide, confined_boot hbus h0⟩

/-- The invariant of runs that keep the windows apart. -/
theorem BootEnv.Reaches.heapBelow_or_bare {env : BootEnv} (hbus : env.bus = .phys) {k : Kernel Pmm}
    (hk : env.Reaches WindowsApart k) : HeapBelow (avail env.start.frames) k ∨ Bare k.mach := by
  refine hk.invariant (I := fun k => HeapBelow (avail env.start.frames) k ∨ Bare k.mach) ?_ ?_
  · by_cases h0 : (allocTable env.start).1 = 0
    · exact Or.inr (BootEnv.boot_bare h0)
    · exact Or.inl (heapBelow_boot hbus h0)
  · rintro k op k' (h | h) hs hC
    · exact Or.inl (h.step hs hC).1
    · exact Or.inr (bare_kept.step h hs)

/-- The two halves on the bus `phys`. -/
theorem windowsApart_phys {env : BootEnv} (hbus : env.bus = .phys) {k : Kernel Pmm}
    (hk : env.Reaches WindowsApart k) :
    (∀ k', k.Leads WindowsApart k' → k.KeepsHeap k') ∧
      ∀ size k', KernelStep k (.kmalloc size) k' → WindowsApart k (.kmalloc size) k' →
        k.KeepsUser k' := by
  rcases hk.heapBelow_or_bare hbus with h | h
  · refine ⟨fun k' hrun => ?_, fun size k' hs hC => (h.step hs hC).2.2.2 size rfl⟩
    -- the heap of `k` stays part of the heap
    refine (hrun.invariant (I := fun s => HeapBelow (avail env.start.frames) s
      ∧ k.heap.heapEnd ≤ s.heap.heapEnd ∧ k.KeepsHeap s) ?_ ?_).2.2
    · exact ⟨h, Nat.le_refl _, fun a h1 h2 => ⟨rfl, h.not_userPage h2⟩⟩
    · rintro s op t ⟨hbelow, hle, hkeep⟩ hs hC
      obtain ⟨hbelow', hle', hkeep', -⟩ := hbelow.step hs hC
      refine ⟨hbelow', Nat.le_trans hle hle', fun a h1 h2 => ⟨?_, (hkeep a h1 h2).2⟩⟩
      exact (hkeep' a h1 (Nat.lt_of_lt_of_le h2 hle)).1.trans (hkeep a h1 h2).1
  · refine ⟨fun k' hrun a _ _ => ⟨?_, h.not_userPage a⟩, fun size k' _ _ a ha =>
      absurd ha (h.not_userPage a)⟩
    have hbare : Bare k'.mach := hrun.invariant (I := fun s => Bare s.mach) h
      fun _ _ _ hs hst _ => bare_kept.step hs hst
    rw [hbare.translate, h.translate]

/-- In runs that keep the windows apart, the pages of the heap are never remapped,
and the heap never grows over a page of user mode. -/
theorem windows_apart {env : BootEnv} {k : Kernel Pmm} (hk : env.Reaches WindowsApart k) :
    (∀ k', k.Leads WindowsApart k' → env.bus = .phys ∨ k'.mach.stray = false → k.KeepsHeap k') ∧
      ∀ size k', KernelStep k (.kmalloc size) k' → WindowsApart k (.kmalloc size) k' →
        env.bus = .phys ∨ k'.mach.stray = false → k.KeepsUser k' := by
  constructor
  · rintro k' hrun (hbus | hstray)
    · exact (windowsApart_phys hbus hk).1 k' hrun
    · obtain ⟨hstray0, hrun'⟩ := hrun.onBus busFree_windowsApart .phys hstray
      have hk' := hk.onBus busFree_windowsApart .phys hstray0
      have hkeeps := (windowsApart_phys rfl hk').1 _ hrun'
      exact hkeeps
  · rintro size k' hs hC (hbus | hstray)
    · exact (windowsApart_phys hbus hk).2 size k' hs hC
    · obtain ⟨hstray0, hs'⟩ := hs.onBus (b := .phys) hstray
      have hk' := hk.onBus busFree_windowsApart .phys hstray0
      have hkeeps := (windowsApart_phys rfl hk').2 size _ hs' (busFree_windowsApart _ _ _ _ hC)
      exact hkeeps

theorem inWindow_onePageImage : onePageImage.InWindow := by
  intro i hi _
  obtain rfl : i = 0 := Nat.lt_one_iff.mp hi
  decide +kernel

/-- Small requests are met from the heap as it is after boot. -/
theorem kmalloc_small (env : BootEnv) (M : Mach Pmm) :
    ¬ (env.boot.heap.withEnv M).Grows 64 ∧
      ∃ h p, kmalloc (env.boot.heap.withEnv M) 64 = some (h, p) := by
  have hr : HeapRep (env.boot.heap.withEnv M) [⟨kheapInitialSize, true⟩] :=
    (heapRep_kheapInit env.heapMem (vmmInit env.start).2).withEnv M
  have hfit : (⟨kheapInitialSize, true⟩ : Block).Fits (requestSize 64) := ⟨rfl, by decide⟩
  constructor
  · exact fun hg => ((hr.grows_iff (by decide)).mp hg).2.1 _ List.mem_cons_self hfit
  · rcases kmalloc_cases hr (show 64 ≠ 0 by decide) (by decide) with
      ⟨_, _, _, _, _, _, hk⟩ | ⟨hno, -⟩ | ⟨hno, -⟩
    · exact ⟨_, _, hk⟩
    · exact absurd hfit (hno _ List.mem_cons_self)
    · exact absurd hfit (hno _ List.mem_cons_self)

theorem heap_runningBoot : runningBoot.heap = roomyBoot.boot.heap.withEnv runningBoot.mach := by
  have hheap : ∀ (k : Kernel Pmm) (M : Mach Pmm),
      (k.withMach M).heap = k.heap.withEnv (k.withMach M).mach := fun _ _ => rfl
  exact hheap _ _

/-- A small request while a program runs. -/
theorem windows_apart_running :
    ∃ k', KernelStep runningBoot (.kmalloc 64) k' ∧ runningBoot.KeepsHeap k' ∧
      runningBoot.mach.UserPage 0x400000 ∧
      k'.mach.translate 0x400000 = runningBoot.mach.translate 0x400000 := by
  have huser := ready_runningBoot.2.1
  have hstart : KernelStep roomyBoot.boot (.usermode onePageImage) runningBoot := .usermode
  have hreach : roomyBoot.Reaches WindowsApart runningBoot :=
    (BootEnv.Reaches.boot roomyBoot _).next hstart ⟨inWindow_onePageImage, trivial⟩
  obtain ⟨hno, h, p, hm⟩ := kmalloc_small roomyBoot runningBoot.mach
  rw [← heap_runningBoot] at hno hm
  have hstep : KernelStep runningBoot (.kmalloc 64) { runningBoot with heap := h } := .kmalloc hm
  have hbelow : WindowsApart runningBoot (.kmalloc 64) { runningBoot with heap := h } := by
    refine ⟨trivial, by decide, ?_⟩
    rw [Heap.reach, if_neg hno, heap_runningBoot]
    exact (by decide : kheapStart + kheapInitialSize ≤ programStart)
  have hapart := windows_apart hreach
  exact ⟨_, hstep, hapart.1 _ ((Kernel.Leads.refl ..).next hstep hbelow) (Or.inl rfl), huser,
    hapart.2 64 _ hstep hbelow (Or.inl rfl) _ huser⟩

/-! ## A request that takes a page of a program -/

section

variable {σ : Type} [FrameSource σ] {W : Nat → Prop}

/-- Tables in a window that is identity-mapped. -/
structure TablesIn (W : Nat → Prop) (M : Mach σ) : Prop where
  inv : VmInv M
  tables : ∀ t, M.IsTable t → W t
  window : M.Window W

/-- Mapping a page whose tables are there draws no frame, and no access strays. -/
theorem TablesIn.map {M M' : Mach σ} {virt phys : Nat} (h : TablesIn W M)
    (hhas : M.Has (pathOf virt)) (hp : phys < 2 ^ 64) (hout : ∀ t, W t → pageOf t ≠ pageOf virt)
    (hM' : (vmmMapPage virt phys kernelFlags M).2 = M') :
    TablesIn W M' ∧ M'.stray = M.stray ∧ ∀ q, q.length ≤ 3 → M.Has q → M'.Has q := by
  have hmissing := M.missing_of_has hhas
  obtain ⟨hinv', hg, -, -⟩ := vmmMapPage_spec h.inv (by decide) hp hM'
  obtain ⟨hframes, -, hgrown, -⟩ := vmmMapPage_enough h.inv (by decide) hp
    (by rw [hmissing]; trivial) hM'
  rw [hmissing] at hframes
  have hdrawn : ∀ f, avail M.frames f → ¬ avail M'.frames f → W f := by
    rw [hframes]
    exact fun f hf hn => absurd hf hn
  have hspares : M.Spares (fun n => n = pageOf virt) W := .inr fun t ht hp => hout t ht hp
  exact ⟨⟨hinv', hg.tables_in hinv' h.tables hdrawn, hg.window hspares h.window⟩,
    hg.calm W h.tables hdrawn hspares h.window, fun q hq hold => (hgrown q hq).mpr (Or.inl hold)⟩

/-- The pages that the heap grows by may come from anywhere. -/
theorem TablesIn.kheapMapPages : ∀ (n virt : Nat) {M M' : Mach σ}, TablesIn W M →
    virt + 4096 * n < 2 ^ 64 → (∀ j, j < n → M.Has (pathOf (virt + 4096 * j))) →
    (∀ t, W t → ∀ j, j < n → pageOf t ≠ pageOf (virt + 4096 * j)) →
    (kheapMapPages n virt M).2 = M' → M'.stray = M.stray
  | 0, _, M, _, _, _, _, _, rfl => rfl
  | n + 1, virt, M, M', h, hlt, hhas, hout, hM' => by
      rw [Nat.mul_succ, Nat.add_comm (4096 * n), ← Nat.add_assoc] at hlt
      simp only [TunaOs.kheapMapPages, Act.bind_apply] at hM'
      obtain ⟨-, ⟨h0, -⟩ | ⟨h0, hhand⟩⟩ := allocFrame_spec (fun _ => False) h.inv
      · rw [if_pos h0] at hM'
        rw [← hM']
        rfl
      · rw [if_neg h0, Act.bind_apply, Act.bind_apply] at hM'
        obtain ⟨-, -, hf64⟩ := FrameSource.avail_frame hhand.drawn
        -- drawing a frame and noting it changes neither tables nor windows
        have hN : TablesIn W (noteHeapFrame (allocFrame M).1 (allocFrame M).2).2 :=
          ⟨⟨hhand.inv.bus, hhand.inv.tables, hhand.inv.fresh⟩, h.tables, h.window⟩
        have hhasN : ∀ j, j < n + 1 → (noteHeapFrame (allocFrame M).1 (allocFrame M).2).2.Has
            (pathOf (virt + 4096 * j)) := hhas
        have hstray : (noteHeapFrame (allocFrame M).1 (allocFrame M).2).2.stray = M.stray := rfl
        generalize noteHeapFrame (allocFrame M).1 (allocFrame M).2 = r at hN hhasN hstray hM'
        generalize hM₁ : (vmmMapPage virt (allocFrame M).1 kernelFlags r.2).2 = M₁ at hM'
        obtain ⟨hM, hcalm, hkeep⟩ := hN.map (hhasN 0 (Nat.zero_lt_succ n)) (by omega)
          (fun t ht => hout t ht 0 (Nat.zero_lt_succ n)) hM₁
        have hnext : Word.wrap64 (virt + 4096) = virt + 4096 := Word.wrap64_of_lt (by omega)
        have hshift : ∀ j, virt + 4096 + 4096 * j = virt + 4096 * (j + 1) := fun j => by omega
        rw [hnext] at hM'
        refine (hM.kheapMapPages n (virt + 4096) hlt (fun j hj => ?_) (fun t ht j hj => ?_)
          hM').trans (hcalm.trans hstray)
        · rw [hshift]
          exact hkeep _ (by simp) (hhasN (j + 1) (by omega))
        · rw [hshift]
          exact hout t ht (j + 1) (by omega)

end

/-- The running program and its kernel keep to the low frames. -/
theorem windowed_runningBoot :
    Windowed (avail roomyBoot.start.frames) (lowBlock 0xE0) runningBoot := by
  have hplenty : Plenty roomyBoot.start.frames 21 :=
    roomyBoot.plenty (a := 0x110) fun f h1 h2 => usable_roomyBoot h1 (by omega)
  obtain ⟨hframes, hoom, -⟩ := roomyBoot.boot_enough rfl hplenty
  have hboot : Windowed (avail roomyBoot.start.frames) (lowBlock 0xE0) roomyBoot.boot :=
    BootEnv.boot_windowed (lowFrames_lowBlock (by decide)) rfl hoom fun f hf htaken =>
      drawn_roomyBoot (by decide) hf (hframes ▸ htaken)
  have hstart : KernelStep roomyBoot.boot (.usermode onePageImage) runningBoot := .usermode
  have hpages : ∀ i, i < onePageImage.phnum → (onePageImage.phdr i).type = ptLoad →
      (onePageImage.phdr i).pageCount ≤ 1 := by decide +kernel
  obtain ⟨j, hj, htaken⟩ :=
    (Draws.usermodeExecElf (σ := Pmm) onePageImage hpages).taken roomyBoot.boot.mach
  have hmach : runningBoot.mach = (usermodeExecElf onePageImage roomyBoot.boot.mach).2 :=
    Kernel.mach_withMach _ _
  rw [← hmach, hframes, ← advance_add] at htaken
  rw [phnum_onePageImage] at hj
  refine hboot.step hstart ⟨trivial, fun f hf hn => ?_, fun t ht => ?_⟩
  · refine drawn_roomyBoot (j := 21 + j) (by omega) (hboot.rooted.isolated.origin f hf) ?_
    rw [← htaken]
    exact hn
  · have hlow := (lowFrames_lowBlock (by decide) t ht).2.1
    rintro (hcov | ⟨j, hj, hp⟩)
    · have hpage := covers_onePageImage hcov
      simp only [pageOf] at hpage
      omega
    · simp only [stackPages, userStackVaddr, pageOf] at hj hp
      omega

theorem heapSound_runningBoot : HeapSound (avail roomyBoot.start.frames) runningBoot := by
  have hplenty : Plenty roomyBoot.start.frames 21 :=
    roomyBoot.plenty (a := 0x110) fun f h1 h2 => usable_roomyBoot h1 (by omega)
  have hstart : KernelStep roomyBoot.boot (.usermode onePageImage) runningBoot := .usermode
  refine (BootEnv.boot_heapSound rfl hplenty).step hstart ?_
  rintro n (hcov | ⟨j, hj, rfl⟩) ⟨a, -, ha, hpage⟩
  · obtain rfl := covers_onePageImage hcov
    rw [roomyBoot.boot_heapEnd] at ha
    simp only [pageOf] at hpage
    omega
  · rw [roomyBoot.boot_heapEnd] at ha
    simp only [stackPages, userStackVaddr, pageOf] at hj hpage
    omega

/-- Where a page is mapped its tables are there. -/
theorem Mach.has_of_present {M : Mach Pmm} {a : Nat} (h : (M.leaf a).testBit 0 = true) :
    M.Has (pathOf a) := by
  rw [Mach.Has]
  cases htable : M.tableAt (pathOf a) with
  | some t => rfl
  | none =>
      rw [show M.leaf a = 0 from leafEntry_of_none htable] at h
      simp at h

/-- The tables for the heap and for the program are there. -/
theorem has_runningBoot {a : Nat} (h1 : 0x200000 ≤ a) (h2 : a < 0x600000) :
    runningBoot.mach.Has (pathOf a) := by
  by_cases hlow : a < 0x400000
  · have hheap := heapSound_runningBoot.writable 0x200000 (Nat.le_refl _) (by
      rw [heap_runningBoot]
      exact (by decide : 0x200000 < kheapStart + kheapInitialSize))
    rw [pathOf_congr (b := 0x200000) (by omega)]
    exact Mach.has_of_present hheap.1
  · obtain ⟨hready, ⟨t, htrans, -⟩, -⟩ := ready_runningBoot
    rw [hready.rooted.translate] at htrans
    rw [pathOf_congr (b := 0x400000) (by omega)]
    refine Mach.has_of_present ?_
    by_contra hno
    rw [decode, if_neg hno] at htrans
    cases htrans

/-- A request for 2 MiB grows the heap by pages up to `0x411000`. -/
theorem kmalloc_twoMiB (env : BootEnv) (M : Mach Pmm) :
    ∃ h, kmalloc (env.boot.heap.withEnv M) 0x200000 = some (h, kheapStart + 16)
      ∧ h.heapEnd = 0x411000 ∧ h.env = (kheapMapPages 0x201 0x210000 M).2 := by
  have hr : HeapRep (env.boot.heap.withEnv M) [⟨kheapInitialSize, true⟩] :=
    (heapRep_kheapInit env.heapMem (vmmInit env.start).2).withEnv M
  have hend : (env.boot.heap.withEnv M).heapEnd = 0x210000 := rfl
  have hgrow : expandSize (requestSize 0x200000) = 0x201000 := by decide
  obtain ⟨h, hm, hend', henv⟩ := kmalloc_extend hr (show 0x200000 < 2 ^ 63 by decide) (by decide)
    (by rw [hend]; decide)
  rw [hend, hgrow] at hend' henv
  exact ⟨h, hm, hend', henv.trans (mapRegion_pages (by decide))⟩

/-- What such a request does to a machine as the running program's. -/
theorem HeapSound.twoMiB {A : Nat → Prop} {k : Kernel Pmm} {h : Heap (Mach Pmm)} {p : Nat}
    (hsound : HeapSound A k) (hwin : Windowed A (lowBlock 0xE0) k) (hfault : k.mach.fault = false)
    (hoom : k.mach.oom = false) (hplenty : Plenty k.mach.frames 0x1000)
    (hhas : ∀ a, 0x200000 ≤ a → a < 0x600000 → k.mach.Has (pathOf a))
    (hm : TunaOs.kmalloc k.heap 0x200000 = some (h, p))
    (henv : (kheapMapPages 0x201 0x210000 k.mach).2 = h.env) :
    h.env.stray = false ∧ h.env.fault = false ∧ MappedCall k.heap 0x200000 h p
      ∧ ¬ h.env.UserPage 0x400000 := by
  have hinv := hsound.rooted.isolated.inv
  obtain ⟨bs, hr⟩ := hsound.chain
  have hcost := hr.inOrder.growthCost_le (show 0x200000 < 2 ^ 63 by decide)
  have hfew : 4 * (expandSize (requestSize 0x200000) / 4096) ≤ 0x1000 := by decide
  obtain ⟨hsound', hcall⟩ := hsound.kmalloc hm (by decide) (hplenty.mono (hcost.trans hfew))
  have hstray := TablesIn.kheapMapPages 0x201 0x210000 ⟨hinv, hwin.tables, hwin.window⟩ (by decide)
    (fun j hj => hhas _ (by omega) (by omega)) (fun t ht j hj => ?_) henv
  · have hfault' := primitive_faultless.kheapMapPages 0x201 0x210000 k.mach ⟨hinv.bus, hfault⟩
    rw [henv] at hfault'
    refine ⟨hstray.trans hwin.calm, hfault'.2, hcall, ?_⟩
    -- the page has a frame of the heap now, and such a page is not for user mode
    rintro ⟨t, htrans, huser⟩
    have hdecode : h.env.translate 0x400000 = decode (h.env.leaf 0x400000) :=
      hsound'.rooted.translate 0x400000
    have hleaf := userPage_decode hdecode ⟨t, htrans, huser⟩
    have hpresent : (h.env.leaf 0x400000).testBit 0 = true := by
      by_contra hno
      rw [decode, if_neg hno] at hdecode
      cases hdecode.symm.trans htrans
    have hoom' := ((Draws.kheapMapPages 0x201 0x210000).supply k.mach 0
      (hplenty.mono (by decide))).2.trans hoom
    rw [henv] at hoom'
    have hbacked := (kheapMapPages_spec 0x201 0x210000 hinv henv).2.2.2 hoom' 0x1F0 (by decide)
      0x400000 rfl
    exact (hsound'.rooted.isolated.user _ hleaf).2.2 (hbacked hpresent)
  · have hlow := ht.2.2
    simp only [pageOf]
    omega

/-- While a program runs whose page is at `0x400000`, a request for 2 MiB is granted.  It writes
to mapped pages only and no access strays, but the program's page is the heap's now. -/
theorem userPage_remapped :
    ∃ k k', (roomyBoot.onBus .mmu).Reaches WindowsApart k ∧ k.mach.UserPage 0x400000
      ∧ KernelStep k (.kmalloc 0x200000) k' ∧ k'.mach.stray = false ∧ k'.mach.fault = false
      ∧ MappedCall k.heap 0x200000 k'.heap (kheapStart + 16)
      ∧ ¬ k'.mach.UserPage 0x400000 ∧ ¬ k.KeepsUser k' := by
  have hstart : KernelStep roomyBoot.boot (.usermode onePageImage) runningBoot := .usermode
  obtain ⟨k, hreach, hwin, hsound, hready, huser, hhas, hheap⟩ : ∃ k : Kernel Pmm,
      roomyBoot.Reaches WindowsApart k
        ∧ Windowed (avail roomyBoot.start.frames) (lowBlock 0xE0) k
        ∧ HeapSound (avail roomyBoot.start.frames) k
        ∧ Ready (avail roomyBoot.start.frames) 0x1000 k.mach
        ∧ k.mach.UserPage 0x400000
        ∧ (∀ a, 0x200000 ≤ a → a < 0x600000 → k.mach.Has (pathOf a))
        ∧ k.heap = roomyBoot.boot.heap.withEnv k.mach :=
    ⟨runningBoot, (BootEnv.Reaches.boot roomyBoot _).next hstart ⟨inWindow_onePageImage, trivial⟩,
      windowed_runningBoot, heapSound_runningBoot, ready_runningBoot.1, ready_runningBoot.2.1,
      fun _ h1 h2 => has_runningBoot h1 h2, heap_runningBoot⟩
  obtain ⟨h, hm, -, henv⟩ := kmalloc_twoMiB roomyBoot k.mach
  rw [← hheap] at hm
  obtain ⟨hstray, hfault, hcall, hno⟩ := hsound.twoMiB hwin hready.fault hready.oom
    hready.plenty hhas hm henv.symm
  -- the same on the bus `mmu`
  have hstep : KernelStep k (.kmalloc 0x200000) { k with heap := h } := .kmalloc hm
  obtain ⟨hstray0, hstep'⟩ := hstep.onBus (b := .mmu) hstray
  refine ⟨_, _, hreach.onBus busFree_windowsApart .mmu hstray0, huser, hstep', hstray, hfault,
    ⟨hcall.writes, hcall.header, hcall.block, hcall.null⟩, hno, fun hkeeps => hno ?_⟩
  obtain ⟨t, htrans, htu⟩ := huser
  exact ⟨t, (hkeeps 0x400000 ⟨t, htrans, htu⟩).trans htrans, htu⟩

end TunaOs
