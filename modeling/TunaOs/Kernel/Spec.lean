import TunaOs.Elf.Spec
import TunaOs.Kernel.Model
import TunaOs.Kheap.Spec

/-!
# Which pages the kernel maps

`Maps P x` says that a program keeps the tables in order and maps pages in `P`
only.  It composes, so a system call maps the pages of the image it loads and
the pages of the child's stack, whatever branch it takes.

The heap needs more than that.  A page of the heap is `Backed` when the frame
behind it, if there is one, was obtained for the heap.  `kheap_map_region` keeps
this, and it establishes it for the pages of the region unless frames run out:
then it returns early, and pages that were mapped before stay mapped to what they
were.
-/

namespace TunaOs

open Word

section

variable {σ : Type} [FrameSource σ] {β : Type} {P Q : Nat → Prop} {M M' N : Mach σ} {f : Nat}

/-! ## Programs that map pages -/

/-- The tables are in order, and pages in `P` have been mapped. -/
def MapsTo (P : Nat → Prop) (M M' : Mach σ) : Prop :=
  VmInv M' ∧ Grows P M M' ∧ M'.heapFrames = M.heapFrames

/-- The program keeps the tables in order and maps pages in `P` only. -/
def Maps (P : Nat → Prop) (x : Act σ β) : Prop :=
  ∀ M, VmInv M → MapsTo P M (x M).2

theorem MapsTo.refl (h : VmInv M) : MapsTo P M M := ⟨h, .refl M, rfl⟩

theorem MapsTo.next {x : Act σ β} (h : MapsTo P M N) (hx : Maps P x) : MapsTo P M (x N).2 := by
  obtain ⟨hi1, hg1, hh1⟩ := h
  obtain ⟨hi2, hg2, hh2⟩ := hx N hi1
  exact ⟨hi2, hg1.trans hi1 hg2, hh2.trans hh1⟩

theorem closed_maps (P : Nat → Prop) : Closed (σ := σ) (Maps P) where
  pure _ _ h := .refl h
  bind hx hf M h := (hx M h).next (hf _)

theorem Maps.mono {x : Act σ β} (h : Maps P x) (hPQ : ∀ n, P n → Q n) : Maps Q x := by
  intro M hinv
  obtain ⟨hi, hg, hh⟩ := h M hinv
  exact ⟨hi, hg.mono hPQ, hh⟩

/-- A page of the image. -/
def Image.Covers (img : Image) (n : Nat) : Prop := (img.cover n).isSome = true

instance (img : Image) (n : Nat) : Decidable (img.Covers n) :=
  inferInstanceAs (Decidable ((img.cover n).isSome = true))

/-- An image of one page covers that page only. -/
theorem Image.Covers.onePage {img : Image} {v n : Nat} (h : img.Covers n) (hnum : img.phnum = 1)
    (hcount : (img.phdr 0).pageCount = 1) (hstart : (img.phdr 0).vaddrStart = v) :
    n = pageOf v := by
  obtain ⟨i, hi, -, j, hj, hn⟩ := Image.lastCover_isSome.mp h
  obtain rfl : i = 0 := by omega
  obtain rfl : j = 0 := by omega
  rw [hn, hstart]
  rfl

/-- A page of the stack at `vaddr`. -/
def StackPage (vaddr n : Nat) : Prop := ∃ j, j < stackPages ∧ n = pageOf (vaddr + 4096 * j)

instance (vaddr n : Nat) : Decidable (StackPage vaddr n) :=
  inferInstanceAs (Decidable (∃ j, j < stackPages ∧ _))

theorem Maps.elfLoad (img : Image) : Maps (σ := σ) img.Covers (elfLoad img) := by
  intro M hinv
  obtain ⟨hi, hg, hh, -⟩ := elfLoad_spec img hinv rfl
  exact ⟨hi, hg, hh⟩

/-- The stack loop, with the pages it has mapped when frames do not run out. -/
theorem mapStack_spec : ∀ (n vaddr : Nat) {M M' : Mach σ}, VmInv M →
    (mapStack n vaddr M).2 = M' →
    VmInv M' ∧ Grows (fun m => ∃ j, j < n ∧ m = pageOf (vaddr + 4096 * j)) M M'
      ∧ M'.heapFrames = M.heapFrames
  | 0, _, M, _, hinv, rfl => ⟨hinv, .refl M, rfl⟩
  | n + 1, vaddr, M, M', hinv, hM' => by
      simp only [mapStack, Act.bind_apply] at hM'
      obtain ⟨-, ⟨h0, hi, hg, hh, -⟩ | ⟨h0, hhand⟩⟩ :=
        allocFrame_spec (fun m => ∃ j, j < n + 1 ∧ m = pageOf (vaddr + 4096 * j)) hinv
      · rw [if_pos h0] at hM'
        subst hM'
        exact ⟨hi, hg, hh⟩
      · rw [if_neg h0, Act.bind_apply] at hM'
        obtain ⟨-, -, hf64⟩ := FrameSource.avail_frame hhand.drawn
        obtain ⟨hi1, hg1, hh1, -⟩ := vmmMapPage_spec hhand.inv (by decide) (by omega)
          (show (vmmMapPage vaddr (allocFrame M).1 stackFlags (allocFrame M).2).2 = _ from rfl)
        obtain ⟨hi2, hg2, hh2⟩ := mapStack_spec n (vaddr + 4096) hi1 hM'
        refine ⟨hi2, (hhand.grows.trans hhand.inv (hg1.mono ?_)).trans hi1 (hg2.mono ?_),
          hh2.trans (hh1.trans hhand.heapFrames)⟩
        · rintro m rfl
          exact ⟨0, by omega, rfl⟩
        · rintro m ⟨j, hj, rfl⟩
          exact ⟨j + 1, by omega, by rw [Nat.mul_succ, Nat.add_comm (4096 * j), Nat.add_assoc]⟩

theorem Maps.mapStack (vaddr : Nat) : Maps (σ := σ) (StackPage vaddr) (mapStack stackPages vaddr) :=
  fun _ hinv => mapStack_spec stackPages vaddr hinv rfl

theorem Maps.loadUser (a : Nat) : Maps (σ := σ) P (loadUser a) := fun M hinv =>
  ⟨⟨hinv.bus, hinv.tables, hinv.fresh⟩, { Grows.refl M with calm := fun _ _ _ _ _ => rfl }, rfl⟩

/-- The pages that starting a program from `kernel_main` maps. -/
def ProgramPage (img : Image) (n : Nat) : Prop := img.Covers n ∨ StackPage userStackVaddr n

theorem Maps.usermodeExecElf (img : Image) :
    Maps (σ := σ) (ProgramPage img) (usermodeExecElf img) :=
  (closed_maps _).usermodeExecElf ((Maps.elfLoad img).mono fun _ => Or.inl)
    ((Maps.mapStack _).mono fun _ => Or.inr)

/-- The image can be started: `elf_load` accepts it and returns its entry. -/
def Image.Starts (img : Image) : Prop := img.accepted = true ∧ img.entry ≠ 0

instance (img : Image) : Decidable img.Starts := inferInstanceAs (Decidable (_ ∧ _))

theorem elfLoad_fst_ne_zero {img : Image} (M : Mach σ) : (elfLoad img M).1 ≠ 0 ↔ img.Starts := by
  rw [elfLoad_fst, Image.Starts]
  by_cases h : img.accepted = true
  · simp [h]
  · simp [h]

/-- A loaded image stays as long as its pages are not mapped anew. -/
theorem Loaded.grow {img : Image} (h : Loaded img M) (hg : Grows P M M')
    (hP : ∀ n, img.Covers n → ¬ P n) : Loaded img M' := by
  intro n ph page hc
  have hn : pageOf page = n := (Image.lastCover_eq_some hc).1
  refine (h n ph page hc).grow hg (hn ▸ hP n ?_)
  rw [Image.Covers, hc]
  rfl

/-- `usermode_exec_elf` loads the image and then maps the stack. -/
theorem usermodeExecElf_snd {img : Image} (h : img.Starts) (M : Mach σ) :
    (usermodeExecElf img M).2 = (mapStack stackPages userStackVaddr (elfLoad img M).2).2 := by
  simp only [usermodeExecElf, Act.bind_apply, if_neg ((elfLoad_fst_ne_zero M).mpr h)]
  split <;> rfl

/-- A program is loaded when it is started, unless it has segments in its stack. -/
theorem usermodeExecElf_loaded {img : Image} (h : img.Starts) (hinv : VmInv M)
    (hstack : ∀ n, img.Covers n → ¬ StackPage userStackVaddr n)
    (hoom : (usermodeExecElf img M).2.oom = false) : Loaded img (usermodeExecElf img M).2 := by
  rw [usermodeExecElf_snd h] at hoom ⊢
  obtain ⟨hi, -, -, hload⟩ := elfLoad_spec img hinv rfl
  obtain ⟨-, hg, -⟩ := Maps.mapStack userStackVaddr _ hi
  exact (hload (hg.oom hoom) h.1).grow hg hstack

/-! ## Heap pages -/

/-- The frame behind `a`, if there is one, was obtained for the heap. -/
def Mach.Backed (M : Mach σ) (a : Nat) : Prop :=
  (M.leaf a).testBit 0 = true → M.leaf a &&& pageMask ∈ M.heapFrames

omit [FrameSource σ] in
theorem Mach.Backed.congr {a : Nat} (h : M.Backed a) (hleaf : M'.leaf a = M.leaf a)
    (hh : ∀ f, f ∈ M.heapFrames → f ∈ M'.heapFrames) : M'.Backed a := by
  intro hp
  rw [hleaf] at hp ⊢
  exact hh _ (h hp)

/-- `vmm_map_page` of a frame that was obtained for the heap. -/
theorem mapHeapPage_spec (virt : Nat) (hhand : InHand (fun _ => False) M N f)
    (hM' : (vmmMapPage virt f kernelFlags (noteHeapFrame f N).2).2 = M') :
    VmInv M' ∧ Grows (fun m => m = pageOf virt) M M' ∧ M'.heapFrames = f :: M.heapFrames
      ∧ (∀ a, M.Backed a → M'.Backed a) ∧ ∀ a, pageOf a = pageOf virt → M'.Backed a := by
  obtain ⟨hf0, -, hf64⟩ := FrameSource.avail_frame hhand.drawn
  have hinv : VmInv (noteHeapFrame f N).2 := ⟨hhand.inv.bus, hhand.inv.tables, hhand.inv.fresh⟩
  have hg : Grows (fun m => m = pageOf virt) M (noteHeapFrame f N).2 := by
    obtain ⟨h1, h2, h3, h4, h5, h6, h7, h8, h9, h10⟩ :=
      hhand.grows.mono (Q := fun m => m = pageOf virt) fun _ => False.elim
    exact ⟨h1, h2, h3, h4, h5, h6, h7, h8, h9, h10⟩
  obtain ⟨hi', hg', hh', hcase⟩ := vmmMapPage_spec hinv (by decide) (by omega) hM'
  have hheap : M'.heapFrames = f :: M.heapFrames := by
    rw [hh', ← hhand.heapFrames]
    rfl
  have hnew : ∀ a, pageOf a = pageOf virt → M'.Backed a := by
    intro a ha hp
    rcases hcase with ⟨-, hnone, -⟩ | ⟨-, -, hleaf⟩
    · -- without its table the page has no leaf entry
      rw [Mach.leaf, leafEntry_page ha, leafEntry_of_none hnone] at hp
      cases hp
    · rw [hleaf a, if_pos ha, or_flags_and_pageMask (by decide),
        and_pageMask_of_aligned hf0 (by omega),
        and_pageMask_of_aligned hf0 (by omega), hheap]
      exact List.mem_cons_self
  refine ⟨hi', hg.trans hinv hg', hheap, fun a ha => ?_, hnew⟩
  by_cases hav : pageOf a = pageOf virt
  · exact hnew a hav
  · refine ha.congr ((hg.trans hinv hg').leaf a hav) fun g hgm => ?_
    rw [hheap]
    exact List.mem_cons_of_mem _ hgm

theorem pageOf_wrap64 (a b : Nat) : pageOf (wrap64 a + 4096 * b) = pageOf (a + 4096 * b) := by
  simp only [pageOf, wrap64]
  omega

/-- The loop of `kheap_map_region`. -/
theorem kheapMapPages_spec : ∀ (n virt : Nat) {M M' : Mach σ}, VmInv M →
    (kheapMapPages n virt M).2 = M' →
    VmInv M' ∧ Grows (fun m => ∃ j, j < n ∧ m = pageOf (virt + 4096 * j)) M M'
      ∧ (∀ a, M.Backed a → M'.Backed a)
      ∧ (M'.oom = false → ∀ j, j < n → ∀ a, pageOf a = pageOf (virt + 4096 * j) → M'.Backed a)
  | 0, _, M, _, hinv, rfl =>
      ⟨hinv, .refl M, fun _ h => h, fun _ j hj => absurd hj (Nat.not_lt_zero j)⟩
  | n + 1, virt, M, M', hinv, hM' => by
      have hshift : ∀ j, pageOf (wrap64 (virt + 4096) + 4096 * j)
          = pageOf (virt + 4096 * (j + 1)) := by
        intro j
        rw [pageOf_wrap64, Nat.mul_succ, Nat.add_comm (4096 * j), Nat.add_assoc]
      simp only [kheapMapPages, Act.bind_apply] at hM'
      obtain ⟨hmem, ⟨h0, hi, hg, -, ho⟩ | ⟨h0, hhand⟩⟩ := allocFrame_spec (fun _ => False) hinv
      · rw [if_pos h0] at hM'
        subst hM'
        refine ⟨hi, hg.mono fun _ => False.elim, fun a ha => ?_, fun hoom => ?_⟩
        · exact ha.congr (hg.leaf a id) fun _ h => h
        · exact absurd (ho.symm.trans hoom) (by decide)
      · rw [if_neg h0, Act.bind_apply, Act.bind_apply] at hM'
        obtain ⟨hi1, hg1, -, hkeep1, hnew1⟩ := mapHeapPage_spec virt hhand rfl
        obtain ⟨hi2, hg2, hkeep2, hnew2⟩ := kheapMapPages_spec n _ hi1 hM'
        refine ⟨hi2, (hg1.mono ?_).trans hi1 (hg2.mono ?_), fun a ha => hkeep2 a (hkeep1 a ha), ?_⟩
        · rintro m rfl
          exact ⟨0, by omega, rfl⟩
        · rintro m ⟨j, hj, rfl⟩
          exact ⟨j + 1, by omega, hshift j⟩
        · intro hoom j hj a ha
          cases j with
          | zero => exact hkeep2 a (hnew1 a ha)
          | succ j => exact hnew2 hoom j (by omega) a (ha.trans (hshift j).symm)

/-- `kheap_map_region` on whole pages. -/
theorem kheapMapRegion_spec {start size : Nat} (hstart : start % 4096 = 0)
    (hinv : VmInv M) (hM' : (kheapMapRegion start size M).2 = M') :
    VmInv M' ∧ Grows (fun m => ∃ a, start ≤ a ∧ a < start + size ∧ m = pageOf a) M M'
      ∧ (∀ a, M.Backed a → M'.Backed a)
      ∧ (M'.oom = false → ∀ a, start ≤ a → a < start + size → M'.Backed a) := by
  obtain ⟨hi, hg, hkeep, hnew⟩ := kheapMapPages_spec ((size + 4095) / 4096) start hinv hM'
  refine ⟨hi, hg.mono ?_, hkeep, fun hoom a h1 h2 => ?_⟩
  · rintro m ⟨j, hj, rfl⟩
    exact ⟨start + 4096 * j, by omega, by omega, rfl⟩
  · refine hnew hoom ((a - start) / 4096) (by omega) a ?_
    simp only [pageOf]
    omega

/-! ## Invariants of the machine -/

/-- The parts of the kernel keep an invariant of the machine. -/
structure KeptByParts (I : Mach σ → Prop) : Prop where
  elfLoad : ∀ img, Keeps I (elfLoad img : Act σ Nat)
  mapStack : ∀ n vaddr, Keeps I (mapStack n vaddr : Act σ Bool)
  loadUser : ∀ a, Keeps I (loadUser a : Act σ UInt8)
  kheapMapPages : ∀ n virt, Keeps I (kheapMapPages n virt : Act σ Unit)
  user : ∀ M m, I M → UserWrites M m → I (M.withMem m)

theorem KeptByParts.kmalloc {I : Mach σ → Prop} (hI : KeptByParts I) {h h' : Heap (Mach σ)}
    {size p : Nat} (hm : kmalloc h size = some (h', p)) (h0 : I h.env) : I h'.env :=
  kmalloc_env (Q := fun M _ => I M) (fun M _ _ hM => hI.kheapMapPages _ _ M hM) hm h0

theorem KeptByParts.usermodeExecElf {I : Mach σ → Prop} (hI : KeptByParts I) (img : Image) :
    Keeps I (usermodeExecElf img : Act σ (Option IretFrame)) :=
  (closed_keeps I).usermodeExecElf (hI.elfLoad img) (hI.mapStack _ _)

/-- What the parts keep, every step keeps. -/
theorem KeptByParts.step {I : Mach σ → Prop} (hI : KeptByParts I) {k k' : Kernel σ} {op : KernelOp}
    (h0 : I k.mach) (hs : KernelStep k op k') : I k'.mach := by
  cases hs with
  | kmalloc hm => exact hI.kmalloc hm h0
  | kfree hf =>
      rw [Kernel.mach, (kfree_env hf).1]
      exact h0
  | heapMem => exact h0
  | addFile => exact h0
  | setShellElf => exact h0
  | usermode => exact hI.usermodeExecElf _ _ h0
  | user hm => exact hI.user _ _ h0 hm
  | syscall =>
      exact (closed_keeps I).syscallDispatch hI.loadUser hI.elfLoad (hI.mapStack _ _)
        (fun _ _ h => h) _ _ h0

/-- What calls of the allocator keep, the kernel keeps. -/
theorem frames_kept {I : σ → Prop} (hI : ∀ s, I s → I (FrameSource.alloc s).1) :
    KeptByParts (σ := σ) fun M => I M.frames where
  elfLoad img := (primitive_frames hI).elfLoad img
  mapStack n vaddr := (primitive_frames hI).mapStack n vaddr
  loadUser _ _ h := h
  kheapMapPages n virt := (primitive_frames hI).kheapMapPages n virt
  user _ _ h _ := h

/-! ## The pages a step maps -/

/-- The end of the heap is the end of a page, and within the limit. -/
structure HeapLimits (heapEnd : Nat) : Prop where
  aligned : heapEnd % 4096 = 0
  max : heapEnd ≤ kheapStart + kheapMaxSize

/-- `kmalloc` maps the pages it adds to the heap. -/
theorem kmalloc_grows {h h' : Heap (Mach σ)} {size p : Nat} (hinv : VmInv h.env)
    (hlim : HeapLimits h.heapEnd) (hsize : size < 2 ^ 63) (hm : kmalloc h size = some (h', p)) :
    VmInv h'.env ∧ HeapLimits h'.heapEnd ∧ h.heapEnd ≤ h'.heapEnd
      ∧ Grows (fun n => ∃ a, h.heapEnd ≤ a ∧ a < h'.heapEnd ∧ n = pageOf a) h.env h'.env := by
  obtain ⟨-, -, -, hreq⟩ := requestSize_spec hsize
  obtain ⟨hmod, -, -, hexp⟩ := expandSize_spec (n := requestSize size) (by omega)
  have hrun := kmalloc_env
    (Q := fun M e => VmInv M ∧ e % 4096 = 0 ∧ e ≤ kheapStart + kheapMaxSize ∧ h.heapEnd ≤ e
      ∧ Grows (fun n => ∃ a, h.heapEnd ≤ a ∧ a < e ∧ n = pageOf a) h.env M) ?_ hm
    ⟨hinv, hlim.aligned, hlim.max, Nat.le_refl _, .refl _⟩
  · exact ⟨hrun.1, ⟨hrun.2.1, hrun.2.2.1⟩, hrun.2.2.2⟩
  · rintro M e hfit ⟨hi, halign, hle, hge, hg⟩
    have hwrap : wrap64 (e + expandSize (requestSize size))
        = e + expandSize (requestSize size) := by
      simp only [kheapStart, kheapMaxSize] at hle
      exact wrap64_of_lt (by omega)
    rw [hwrap] at hfit ⊢
    obtain ⟨hi', hg', -, -⟩ := kheapMapRegion_spec halign hi
      (show (kheapMapRegion e (expandSize (requestSize size)) M).2
        = HeapBacking.mapRegion M e (expandSize (requestSize size)) from rfl)
    refine ⟨hi', by omega, hfit, by omega, (hg.mono ?_).trans hi (hg'.mono ?_)⟩
    · rintro n ⟨a, h1, h2, rfl⟩
      exact ⟨a, h1, by omega, rfl⟩
    · rintro n ⟨a, h1, h2, rfl⟩
      exact ⟨a, by omega, h2, rfl⟩

/-! ## The buses agree -/

/-- The kernel with another bus. -/
def Kernel.onBus (k : Kernel σ) (b : Bus) : Kernel σ := k.withMach (k.mach.withBus b)

/-- `M` is `N` on another bus, unless `N` has strayed. -/
def Twin (b : Bus) (M N : Mach σ) : Prop := N.stray = false → M = N.withBus b

omit [FrameSource σ] in
theorem Robust.twin {x : Act σ β} (hx : Robust x) {b : Bus} (h : Twin b M N) :
    Twin b (x M).2 (x N).2 := by
  intro hstray
  rw [h (hx.sticky N hstray), hx.agree N b hstray]

/-- A step on one bus is a step on the other, up to the first stray access. -/
theorem KernelStep.twin {b : Bus} {k k' : Kernel σ} {op : KernelOp}
    (hs : KernelStep (k.onBus b) op k') :
    ∃ n, KernelStep k op n ∧ (n.mach.stray = false → k' = n.onBus b) := by
  cases hs with
  | @kmalloc _ _ h hm =>
      obtain ⟨N, hm', htwin⟩ := kmalloc_withEnv (R := Twin b) (N := k.mach)
        (fun M N e size h => (primitive_robust.kheapMapPages _ _).twin h) (fun _ => rfl) hm
      refine ⟨_, .kmalloc hm', fun hn => ?_⟩
      have henv : h.env = N.withBus b := htwin hn
      cases h
      subst henv
      rfl
  | @kfree _ h hf =>
      have hf' := kfree_withEnv (N := k.mach) hf
      refine ⟨_, .kfree hf', fun _ => ?_⟩
      have henv : h.env = k.mach.withBus b := (kfree_env hf).1
      cases h
      subst henv
      rfl
  | heapMem => exact ⟨_, .heapMem, fun _ => rfl⟩
  | addFile => exact ⟨_, .addFile, fun _ => rfl⟩
  | setShellElf => exact ⟨_, .setShellElf, fun _ => rfl⟩
  | @usermode img =>
      refine ⟨_, .usermode, fun hn => ?_⟩
      have hrun := (Robust.usermodeExecElf img).agree k.mach b hn
      simp only [Kernel.onBus, Kernel.mach_withMach, hrun]
      rfl
  | user hm => exact ⟨_, .user hm, fun _ => rfl⟩
  | @syscall frame input =>
      refine ⟨_, .syscall, fun hn => ?_⟩
      have hrun := (Robust.syscallDispatch k.services frame input).agree k.mach b hn
      simp only [Kernel.onBus, Kernel.syscall, Kernel.mach_withMach, Kernel.services_withMach, hrun]
      rfl

end

end TunaOs
