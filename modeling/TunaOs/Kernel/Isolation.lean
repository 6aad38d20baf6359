import TunaOs.Elf.Compose
import TunaOs.Kernel.Calls
import TunaOs.Kernel.Growth
import TunaOs.Kernel.Supply

/-!
# User pages are isolated

Frames go from one allocator to tables, heap pages, program pages and stacks.
`Isolated A M` is the ownership invariant, where `A` are the frames that were
free after `pmm_init`.  A frame behind a page with `USER` came from the
allocator, is not a table, not behind the heap, and behind no other user page.

Every use of a frame is the same sequence: draw it, perhaps fill it, and map it.
`InHand` describes the frame in between, so one lemma (`Isolated.mapUser`)
covers the loader and the stacks, and one (`Isolated.mapHeap`) the heap.  User
code writes to frames of user pages, so it cannot reach a table.
-/

namespace TunaOs

open Word

open FrameSource (avail)

variable {σ : Type} [FrameSource σ] {A P : Nat → Prop} {M M' N : Mach σ} {f : Nat}

/-! ## The invariant -/

/-- The leaf entry of `a` has `USER`. -/
def Mach.UserLeaf (M : Mach σ) (a : Nat) : Prop := (M.leaf a).testBit 2 = true

/-- The frame that the leaf entry of `a` names. -/
def Mach.leafFrame (M : Mach σ) (a : Nat) : Nat := M.leaf a &&& pageMask

omit [FrameSource σ] in
theorem Mach.leafFrame_mod (M : Mach σ) (a : Nat) : M.leafFrame a % 4096 = 0 := by
  have hlt : M.leaf a < 2 ^ 64 := leafEntry_lt ..
  rw [Mach.leafFrame, pageMask_eq hlt]
  omega

omit [FrameSource σ] in
/-- The frame of an address on the page is the frame of the page. -/
theorem Mach.frameOf_leafFrame (M : Mach σ) (a : Nat) :
    frameOf (M.leafFrame a + a % 4096) = M.leafFrame a := by
  have hmod := M.leafFrame_mod a
  simp only [frameOf]
  omega

/-- A frame that is in use, but not as a table. -/
def Mach.Plain (M : Mach σ) (f : Nat) : Prop := ¬ avail M.frames f ∧ ¬ M.IsTable f

/-- The ownership of frames. -/
structure Isolated (A : Nat → Prop) (M : Mach σ) : Prop where
  inv : VmInv M
  cr3 : M.cr3 = none ∨ M.cr3 = some M.pml4
  /-- Free frames were free at the start. -/
  origin : ∀ f, avail M.frames f → A f
  /-- Heap frames are not tables. -/
  heap : ∀ f, f ∈ M.heapFrames → M.Plain f
  /-- User pages have frames of their own. -/
  user : ∀ a, M.UserLeaf a →
    A (M.leafFrame a) ∧ M.Plain (M.leafFrame a) ∧ M.leafFrame a ∉ M.heapFrames
  /-- No two user pages have the same frame. -/
  inj : ∀ a b, M.UserLeaf a → M.UserLeaf b → M.leafFrame a = M.leafFrame b → pageOf a = pageOf b

theorem Mach.Plain.grow (h : M.Plain f) (hg : Grows P M M') : M'.Plain f := by
  refine ⟨fun hav => h.1 (hg.avail f hav), fun ht => ?_⟩
  rcases hg.new f ht with hold | hfree
  · exact h.2 hold
  · exact h.1 hfree

/-- Changes that map no page. -/
theorem Isolated.grow (h : Isolated A M) (hinv : VmInv M') (hg : Grows P M M')
    (hh : M'.heapFrames = M.heapFrames) (hleaf : ∀ a, M'.leaf a = M.leaf a) : Isolated A M' := by
  refine ⟨hinv, ?_, fun f hf => h.origin f (hg.avail f hf), fun f hf => ?_, fun a ha => ?_,
    fun a b ha hb => ?_⟩
  · rw [hg.cr3, hg.pml4]
    exact h.cr3
  · rw [hh] at hf
    exact (h.heap f hf).grow hg
  · rw [Mach.UserLeaf, hleaf a] at ha
    obtain ⟨hA, hplain, hheap⟩ := h.user a ha
    rw [Mach.leafFrame, hleaf a, hh]
    exact ⟨hA, hplain.grow hg, hheap⟩
  · rw [Mach.UserLeaf, hleaf] at ha hb
    rw [Mach.leafFrame, Mach.leafFrame, hleaf, hleaf]
    exact h.inj a b ha hb

/-- `vmm_map_page` of a frame that is not yet used, or without `USER`. -/
theorem Isolated.vmmMapPage {virt flags : Nat} (h : Isolated A N) (hflags : flags < 8)
    (hf0 : f % 4096 = 0) (hf64 : f < 2 ^ 64)
    (huser : flags.testBit 2 = true → A f ∧ N.Plain f ∧ f ∉ N.heapFrames ∧
      ∀ a, N.UserLeaf a → N.leafFrame a ≠ f)
    (hM' : (TunaOs.vmmMapPage virt f flags N).2 = M') : Isolated A M' := by
  obtain ⟨hinv, hg, hh, ⟨-, -, hleaf⟩ | ⟨-, -, hleaf⟩⟩ := vmmMapPage_spec h.inv hflags hf64 hM'
  · exact h.grow hinv hg hh hleaf
  -- the new leaf entry, and the old ones
  rw [and_pageMask_of_aligned hf0 hf64] at hleaf
  have hnew : ∀ a, pageOf a = pageOf virt →
      (M'.UserLeaf a → flags.testBit 2 = true) ∧ M'.leafFrame a = f := by
    intro a ha
    rw [Mach.UserLeaf, Mach.leafFrame, hleaf a, if_pos ha, or_flags_and_pageMask hflags]
    have hbit : f.testBit 2 = false := by
      rw [← and_pageMask_of_aligned hf0 hf64]
      exact testBit_and_pageMask (by decide) f
    refine ⟨fun hu => ?_, and_pageMask_of_aligned hf0 hf64⟩
    rwa [Nat.testBit_or, hbit, Bool.false_or] at hu
  have hold : ∀ a, pageOf a ≠ pageOf virt →
      (M'.UserLeaf a → N.UserLeaf a) ∧ M'.leafFrame a = N.leafFrame a := by
    intro a ha
    rw [Mach.UserLeaf, Mach.UserLeaf, Mach.leafFrame, Mach.leafFrame, hleaf a, if_neg ha]
    exact ⟨id, rfl⟩
  refine ⟨hinv, ?_, fun g hg' => h.origin g (hg.avail g hg'), fun g hg' => ?_, fun a ha => ?_,
    fun a b ha hb hab => ?_⟩
  · rw [hg.cr3, hg.pml4]
    exact h.cr3
  · rw [hh] at hg'
    exact (h.heap g hg').grow hg
  · rw [hh]
    by_cases hav : pageOf a = pageOf virt
    · obtain ⟨hu, hfr⟩ := hnew a hav
      obtain ⟨hA, hplain, hheap, -⟩ := huser (hu ha)
      rw [hfr]
      exact ⟨hA, hplain.grow hg, hheap⟩
    · obtain ⟨hu, hfr⟩ := hold a hav
      obtain ⟨hA, hplain, hheap⟩ := h.user a (hu ha)
      rw [hfr]
      exact ⟨hA, hplain.grow hg, hheap⟩
  · by_cases hav : pageOf a = pageOf virt <;> by_cases hbv : pageOf b = pageOf virt
    · rw [hav, hbv]
    · rw [(hnew a hav).2, (hold b hbv).2] at hab
      exact absurd hab.symm ((huser ((hnew a hav).1 ha)).2.2.2 b ((hold b hbv).1 hb))
    · rw [(hold a hav).2, (hnew b hbv).2] at hab
      exact absurd hab ((huser ((hnew b hbv).1 hb)).2.2.2 a ((hold a hav).1 ha))
    · rw [(hold a hav).2, (hold b hbv).2] at hab
      exact h.inj a b ((hold a hav).1 ha) ((hold b hbv).1 hb) hab

/-! ## Frames in hand -/

/-- A frame in hand is nobody's. -/
theorem Isolated.inHand (h : Isolated A M) (hhand : InHand (fun _ => False) M N f) :
    Isolated A N ∧ A f ∧ N.Plain f ∧ f ∉ N.heapFrames ∧ ∀ a, N.UserLeaf a → N.leafFrame a ≠ f := by
  have hleaf : ∀ a, N.leaf a = M.leaf a := fun a => hhand.grows.leaf a id
  refine ⟨h.grow hhand.inv hhand.grows hhand.heapFrames hleaf, h.origin f hhand.drawn,
    ⟨hhand.taken, hhand.plain⟩, fun hf => ?_, fun a ha heq => ?_⟩
  · rw [hhand.heapFrames] at hf
    exact (h.heap f hf).1 hhand.drawn
  · rw [Mach.UserLeaf, hleaf] at ha
    rw [Mach.leafFrame, hleaf] at heq
    obtain ⟨-, ⟨hused, -⟩, -⟩ := h.user a ha
    rw [Mach.leafFrame, heq] at hused
    exact hused hhand.drawn

/-- Mapping a frame in hand for a program. -/
theorem Isolated.mapUser {virt flags : Nat} (h : Isolated A M) (hflags : flags < 8)
    (hhand : InHand (fun _ => False) M N f) (hM' : (TunaOs.vmmMapPage virt f flags N).2 = M') :
    Isolated A M' := by
  obtain ⟨hN, hA, hplain, hheap, hfree⟩ := h.inHand hhand
  obtain ⟨hf0, -, hf64⟩ := FrameSource.avail_frame hhand.drawn
  exact hN.vmmMapPage hflags hf0 (by omega) (fun _ => ⟨hA, hplain, hheap, hfree⟩) hM'

theorem Isolated.allocFrame_zero (h : Isolated A M) (h0 : (allocFrame M).1 = 0) :
    Isolated A (allocFrame M).2 := by
  obtain ⟨-, ⟨-, hi, hg, hh, -⟩ | ⟨hne, -⟩⟩ := allocFrame_spec (fun _ => False) h.inv
  · exact h.grow hi hg hh fun a => hg.leaf a id
  · exact absurd h0 hne

theorem Isolated.allocFrame_ne_zero (h : Isolated A M) (h0 : (allocFrame M).1 ≠ 0) :
    InHand (fun _ => False) M (allocFrame M).2 (allocFrame M).1 := by
  obtain ⟨-, ⟨hz, -⟩ | ⟨-, hhand⟩⟩ := allocFrame_spec (fun _ => False) h.inv
  · exact absurd hz h0
  · exact hhand

/-! ## The loader and the stacks -/

theorem Isolated.event (h : Isolated A M) (e : MmuEvent) : Isolated A (event e M).2 :=
  ⟨h.inv.event e, h.cr3, h.origin, h.heap, h.user, h.inj⟩

theorem Isolated.loadPages (img : Image) (ph : Phdr) : ∀ (n page : Nat) {M : Mach σ},
    page + 4096 * n < 2 ^ 64 → Isolated A M → Isolated A (loadPages img ph n page M).2 := by
  intro n
  induction n with
  | zero => exact fun _ _ _ h => h
  | succ n ih =>
      intro page M hlt h
      rw [Nat.mul_succ, ← Nat.add_assoc] at hlt
      simp only [TunaOs.loadPages, Act.bind_apply]
      by_cases h0 : (allocFrame M).1 = 0
      · simp only [h0, if_true]
        exact h.allocFrame_zero h0
      · simp only [h0, if_false, Act.bind_apply]
        have hhand := h.allocFrame_ne_zero h0
        generalize (allocFrame M).1 = f at hhand
        generalize (allocFrame M).2 = M1 at hhand
        generalize hN : (copyData img ph page f (zeroFrame f M1).2).2 = N
        obtain ⟨hload, -, -⟩ := hhand.load img ph page (by omega) hN
        exact ih (page + 4096) (by omega) ((h.mapUser ph.pageFlags_lt hload rfl).event _)

theorem Isolated.elfLoad (img : Image) (h : Isolated A M) : Isolated A (elfLoad img M).2 := by
  by_cases hacc : img.accepted = true
  · rw [elfLoad_accepted hacc]
    refine forLoop_induct _ (Q := fun _ N => Isolated A N) h fun i N _ hN => ?_
    split
    · exact hN
    · exact hN.loadPages img _ _ _ (Phdr.span_lt (img.phdr_vaddr_lt i))
  · rw [elfLoad_rejected hacc]
    exact h

theorem Isolated.mapStack : ∀ (n vaddr : Nat) {M : Mach σ}, Isolated A M →
    Isolated A (mapStack n vaddr M).2
  | 0, _, _, h => h
  | n + 1, vaddr, M, h => by
      simp only [TunaOs.mapStack, Act.bind_apply]
      by_cases h0 : (allocFrame M).1 = 0
      · simp only [h0, if_true]
        exact h.allocFrame_zero h0
      · simp only [h0, if_false, Act.bind_apply]
        exact Isolated.mapStack n _
          (h.mapUser (by decide) (h.allocFrame_ne_zero h0) rfl)

/-! ## The heap -/

/-- Mapping a frame in hand for the heap. -/
theorem Isolated.mapHeap {virt : Nat} (h : Isolated A M)
    (hhand : InHand (fun _ => False) M N f)
    (hM' : (TunaOs.vmmMapPage virt f kernelFlags (noteHeapFrame f N).2).2 = M') :
    Isolated A M' := by
  obtain ⟨hN, -, hplain, -, hfree⟩ := h.inHand hhand
  obtain ⟨hf0, -, hf64⟩ := FrameSource.avail_frame hhand.drawn
  have hnote : Isolated A (noteHeapFrame f N).2 := by
    refine ⟨⟨hN.inv.bus, hN.inv.tables, hN.inv.fresh⟩, hN.cr3, hN.origin, fun g hg => ?_,
      fun a ha => ?_, hN.inj⟩
    · rcases List.mem_cons.mp hg with rfl | hg
      · exact hplain
      · exact hN.heap g hg
    · obtain ⟨hA, hp, hheap⟩ := hN.user a ha
      refine ⟨hA, hp, fun hmem => ?_⟩
      rcases List.mem_cons.mp hmem with heq | hmem
      · exact hfree a ha heq
      · exact hheap hmem
  exact hnote.vmmMapPage (by decide) hf0 (by omega) (fun h2 => absurd h2 (by decide)) hM'

theorem Isolated.kheapMapPages : ∀ (n virt : Nat) {M : Mach σ}, Isolated A M →
    Isolated A (kheapMapPages n virt M).2
  | 0, _, _, h => h
  | n + 1, virt, M, h => by
      simp only [TunaOs.kheapMapPages, Act.bind_apply]
      by_cases h0 : (allocFrame M).1 = 0
      · simp only [h0, if_true]
        exact h.allocFrame_zero h0
      · simp only [h0, if_false, Act.bind_apply]
        exact Isolated.kheapMapPages n _ (h.mapHeap (h.allocFrame_ne_zero h0) rfl)

/-! ## User code and system calls -/

/-- User code does not write to tables. -/
theorem Isolated.userWrites_table {m : Mem} (h : Isolated A M) (hm : UserWrites M m) {x : Nat}
    (hx : m x ≠ M.mem x) : ¬ M.IsTable (frameOf x) := by
  intro ht
  obtain ⟨a, tr, htr, hu, -, rfl⟩ := hm x hx
  -- a user page has a leaf with `USER`, and its frame is not a table
  rcases h.cr3 with hnone | hsome
  · rw [Mach.translate, hnone] at htr
    simp only at htr
    split at htr
    · obtain rfl := Option.some.inj htr
      cases hu
    · cases htr
  · rw [Mach.translate, hsome] at htr
    obtain rfl := eq_of_decode ((h.inv.walk_eq a).symm.trans htr)
    obtain ⟨-, hplain, -⟩ := h.user a hu
    apply hplain.2
    rwa [← M.frameOf_leafFrame a]

/-- User code changes no owner. -/
theorem Isolated.userWrites {m : Mem} (h : Isolated A M) (hm : UserWrites M m) :
    Isolated A (M.withMem m) ∧ ∀ a, (M.withMem m).leaf a = M.leaf a := by
  obtain ⟨hinv, hleaf, htab⟩ := h.inv.withMem fun x hx => h.userWrites_table hm hx
  have hplain : ∀ g, M.Plain g → (M.withMem m).Plain g := fun g hp =>
    ⟨hp.1, fun ht => hp.2 (htab g ht)⟩
  refine ⟨⟨hinv, h.cr3, h.origin, fun g hg => hplain g (h.heap g hg), fun a ha => ?_,
    fun a b ha hb => ?_⟩, hleaf⟩
  · rw [Mach.UserLeaf, hleaf] at ha
    obtain ⟨hA, hp, hheap⟩ := h.user a ha
    rw [Mach.leafFrame, hleaf]
    exact ⟨hA, hplain _ hp, hheap⟩
  · rw [Mach.UserLeaf, hleaf] at ha hb
    rw [Mach.leafFrame, Mach.leafFrame, hleaf, hleaf]
    exact h.inj a b ha hb

theorem Isolated.loadUser (a : Nat) : Keeps (σ := σ) (Isolated A) (loadUser a) := fun _ h =>
  ⟨⟨h.inv.bus, h.inv.tables, h.inv.fresh⟩, h.cr3, h.origin, h.heap, h.user, h.inj⟩

theorem isolated_kept : KeptByParts (σ := σ) (Isolated A) where
  elfLoad img _ h := h.elfLoad img
  mapStack n vaddr _ h := h.mapStack n vaddr
  loadUser := Isolated.loadUser
  kheapMapPages n virt _ h := h.kheapMapPages n virt
  user _ _ h hm := (h.userWrites hm).1

/-! ## Boot -/

theorem Isolated.newPml4 (hbus : M.bus = .phys) (h0 : (allocTable M).1 ≠ 0) (hcr3 : M.cr3 = none)
    (hheap : M.heapFrames = []) (hA : ∀ f, avail M.frames f → A f) : Isolated A (newPml4 M) := by
  obtain ⟨hinv, -, -, hav, hleaf, hc, hh, -, -⟩ := newPml4_spec hbus h0 rfl
  have hno : ∀ a, ¬ (TunaOs.newPml4 M).UserLeaf a := fun a ha => by
    rw [Mach.UserLeaf, hleaf a] at ha
    simp at ha
  refine ⟨hinv, Or.inl (hc.trans hcr3), fun f hf => hA f (hav f hf), fun f hf => ?_,
    fun a ha => absurd ha (hno a), fun a b ha => absurd ha (hno a)⟩
  rw [hh, hheap] at hf
  cases hf

theorem Isolated.loadCr3 (h : Isolated A M) : Isolated A (loadCr3 M.pml4 M).2 :=
  ⟨⟨h.inv.bus, h.inv.tables, h.inv.fresh⟩, Or.inr rfl, h.origin, h.heap, h.user, h.inj⟩

theorem Isolated.vmmInit (hbus : M.bus = .phys) (h0 : (allocTable M).1 ≠ 0) (hcr3 : M.cr3 = none)
    (hheap : M.heapFrames = []) (hA : ∀ f, avail M.frames f → A f) : Isolated A (vmmInit M).2 := by
  have hroot := Isolated.newPml4 hbus h0 hcr3 hheap hA
  have hloop := forLoop_induct (n := identityPages) (M := TunaOs.newPml4 M)
    (fun i => TunaOs.vmmMapPage (i * 4096) (i * 4096) kernelFlags)
    (Q := fun _ N => Isolated A N ∧ N.pml4 = (TunaOs.newPml4 M).pml4) ⟨hroot, rfl⟩
    fun i N hi hN => ?_
  · rw [vmmInit_ne_zero h0]
    generalize (forLoop identityPages (fun i => TunaOs.vmmMapPage (i * 4096) (i * 4096) kernelFlags)
      (TunaOs.newPml4 M)).2 = N at hloop ⊢
    obtain ⟨h, hpml4⟩ := hloop
    have := h.loadCr3
    rwa [hpml4] at this
  · obtain ⟨hN, hpml4⟩ := hN
    simp only [identityPages] at hi
    obtain ⟨-, hg, -⟩ := vmmMapPage_spec hN.inv (by decide) (by omega)
      (show (TunaOs.vmmMapPage (i * 4096) (i * 4096) kernelFlags N).2 = _ from rfl)
    exact ⟨hN.vmmMapPage (by decide) (Nat.mul_mod_left ..) (by omega)
      (fun h2 => absurd h2 (by decide)) rfl, hg.pml4.trans hpml4⟩

/-! ## Without a root

When `vmm_init` finds no frame for the root there is none for anything else, and
`vmm_map_page` is never called. -/

/-- There are no tables and no frames. -/
structure Starved (M : Mach σ) : Prop where
  pml4 : M.pml4 = 0
  none : ∀ f, ¬ avail M.frames f

theorem Starved.allocFrame (h : Starved M) :
    (allocFrame M).1 = 0 ∧ Starved (allocFrame M).2 :=
  ⟨(FrameSource.alloc_avail M.frames).resolve_right (h.none _), h.pml4,
    fun f hf => h.none f (FrameSource.avail_alloc hf).1⟩

/-- A property of machines without frames that a call of the allocator keeps. -/
structure Dry (I : Mach σ → Prop) : Prop where
  none : ∀ M, I M → ∀ f, ¬ avail M.frames f
  allocFrame : ∀ M, I M → I (allocFrame M).2

section

variable {I : Mach σ → Prop} (hI : Dry I)

include hI

theorem Dry.alloc_zero (h : I M) : (TunaOs.allocFrame M).1 = 0 :=
  (FrameSource.alloc_avail M.frames).resolve_right (hI.none M h _)

theorem Dry.loadPages (img : Image) (ph : Phdr) :
    ∀ n page, Keeps I (loadPages img ph n page : Act σ Unit)
  | 0, _ => fun _ h => h
  | n + 1, page => fun M h => by
      rw [TunaOs.loadPages, Act.bind_apply, if_pos (hI.alloc_zero h)]
      exact hI.allocFrame M h

/-- Without frames every part of the kernel returns at its first call of the allocator. -/
theorem Dry.elfLoad (img : Image) : Keeps I (elfLoad img : Act σ Nat) := by
  intro M h
  by_cases hacc : img.accepted = true
  · rw [elfLoad_accepted hacc]
    refine forLoop_induct _ (Q := fun _ N => I N) h fun i N _ hN => ?_
    split
    · exact hN
    · exact hI.loadPages img _ _ _ N hN
  · rw [elfLoad_rejected hacc]
    exact h

theorem Dry.mapStack : ∀ n vaddr, Keeps I (mapStack n vaddr : Act σ Bool)
  | 0, _ => fun _ h => h
  | n + 1, vaddr => fun M h => by
      rw [TunaOs.mapStack, Act.bind_apply, if_pos (hI.alloc_zero h)]
      exact hI.allocFrame M h

theorem Dry.kheapMapPages : ∀ n virt, Keeps I (kheapMapPages n virt : Act σ Unit)
  | 0, _ => fun _ h => h
  | n + 1, virt => fun M h => by
      rw [TunaOs.kheapMapPages, Act.bind_apply, if_pos (hI.alloc_zero h)]
      exact hI.allocFrame M h

theorem Dry.kept (hload : ∀ a, Keeps I (loadUser a : Act σ UInt8))
    (huser : ∀ M m, I M → I (M.withMem m)) : KeptByParts I where
  elfLoad := hI.elfLoad
  mapStack := hI.mapStack
  loadUser := hload
  kheapMapPages := hI.kheapMapPages
  user M m h _ := huser M m h

end

theorem starved_kept : KeptByParts (σ := σ) Starved :=
  Dry.kept ⟨fun _ h => h.none, fun _ h => h.allocFrame.2⟩ (fun _ _ h => ⟨h.pml4, h.none⟩)
    fun _ _ h => ⟨h.pml4, h.none⟩

/-- Without frame 0, the allocator returns 0 only when it has nothing. -/
theorem not_avail_of_alloc_zero {s : Pmm} (h0 : ¬ s.Free 0) (h : (pmmAllocFrame s).2 = 0)
    (f : Nat) :
    ¬ avail s f := by
  rintro ⟨n, hn, -, -⟩
  rcases pmmAllocFrame_cases s with ⟨-, hnone⟩ | ⟨g, hg, -, heq⟩
  · exact hnone n hn
  · rw [heq] at h
    have hg0 : g = 0 := by
      simp only [pmmPageSize] at h
      omega
    exact h0 (hg0 ▸ hg)

section

variable (env : BootEnv)

theorem BootEnv.vmmInit_starved (h0 : (allocTable env.start).1 = 0) :
    Starved (vmmInit env.start).2 := by
  rw [vmmInit_zero h0]
  rw [allocTable_fst] at h0
  have hnone : ∀ f, ¬ avail (allocFrame env.start).2.frames f := fun f hf =>
    not_avail_of_alloc_zero env.not_free_zero h0 f (FrameSource.avail_alloc hf).1
  constructor
  · rw [newPml4_pml4, allocTable_fst, h0]
  · rwa [newPml4_frames, allocTable_zero h0]

/-- A boot that does not run out of frames has a root. -/
theorem BootEnv.root_ne_zero (hoom : env.boot.mach.oom = false) : (allocTable env.start).1 ≠ 0 := by
  intro h0
  have hstarved := env.vmmInit_starved h0
  rw [env.boot_mach, kheapMapPages, Act.bind_apply, if_pos hstarved.allocFrame.1, Act.pure_apply,
    allocFrame_oom hstarved.allocFrame.1] at hoom
  cases hoom

theorem BootEnv.boot_pml4 (hbus : env.bus = .phys) (h0 : (allocTable env.start).1 ≠ 0) :
    env.boot.mach.pml4 = (allocTable env.start).1 ∧
      env.boot.mach.cr3 = some env.boot.mach.pml4 := by
  obtain ⟨N, hN, hinv, hg, -, -⟩ := vmmInit_spec hbus h0 rfl
  rw [env.boot_mach, hN]
  have hcr3 : VmInv (loadCr3 N.pml4 N).2 := ⟨hinv.bus, hinv.tables, hinv.fresh⟩
  obtain ⟨-, hg', -, -⟩ := kheapMapPages_spec 16 kheapStart hcr3 rfl
  rw [hg'.pml4, hg'.cr3]
  exact ⟨hg.pml4, rfl⟩

/-- After boot frames have owners, or there are none. -/
theorem BootEnv.boot_owned (hbus : env.bus = .phys) :
    Isolated (avail env.start.frames) env.boot.mach ∨ Starved env.boot.mach := by
  rw [env.boot_mach]
  by_cases h0 : (allocTable env.start).1 = 0
  · right
    exact starved_kept.kheapMapPages _ _ _ (env.vmmInit_starved h0)
  · left
    exact isolated_kept.kheapMapPages _ _ _ (Isolated.vmmInit hbus h0 rfl rfl fun _ h => h)

end

/-! ## Runs -/

/-- What is behind the user pages of a machine. -/
structure UserFrames (env : BootEnv) (M : Mach Pmm) : Prop where
  /-- No table. -/
  table : ∀ a, M.UserLeaf a → ¬ M.IsTable (M.leafFrame a)
  /-- No frame that was obtained for the heap. -/
  heap : ∀ a, M.UserLeaf a → M.leafFrame a ∉ M.heapFrames
  /-- Nothing below 1 MiB. -/
  low : ∀ a, M.UserLeaf a → 0x100000 ≤ M.leafFrame a
  /-- Nothing of the kernel image. -/
  image : ∀ a, M.UserLeaf a →
    M.leafFrame a + 4096 ≤ env.image.start ∨ env.image.stop ≤ M.leafFrame a
  /-- No frame of another user page. -/
  inj : ∀ a b, M.UserLeaf a → M.UserLeaf b → pageOf a ≠ pageOf b → M.leafFrame a ≠ M.leafFrame b

/-- The frames `pmm_init` frees are in RAM, above 1 MiB and outside the image. -/
theorem BootEnv.avail_start {env : BootEnv} (hreg : Bounded env.regions)
    (hf : avail env.start.frames f) :
    0x100000 ≤ f ∧ (f + 4096 ≤ env.image.start ∨ env.image.stop ≤ f) := by
  obtain ⟨n, rfl, hn⟩ := BootEnv.usable_of_avail hf
  obtain ⟨-, hlow, himg, -⟩ := (usable_iff hreg n).mp hn
  have hlow' : 256 ≤ n := hlow
  omega

theorem Isolated.userFrames {env : BootEnv} (hreg : Bounded env.regions) {M : Mach Pmm}
    (h : Isolated (avail env.start.frames) M) : UserFrames env M where
  table a ha := (h.user a ha).2.1.2
  heap a ha := (h.user a ha).2.2
  low a ha := (BootEnv.avail_start hreg (h.user a ha).1).1
  image a ha := (BootEnv.avail_start hreg (h.user a ha).1).2
  inj a b ha hb hab heq := hab (h.inj a b ha hb heq)

/-- The page belongs to the heap. -/
def Kernel.HeapPage (k : Kernel σ) (n : Nat) : Prop :=
  ∃ a, kheapStart ≤ a ∧ a < k.heap.heapEnd ∧ n = pageOf a

/-- The tables map a page of the heap to the frame. -/
def Kernel.BacksHeap (k : Kernel σ) (f : Nat) : Prop :=
  ∃ a, kheapStart ≤ a ∧ a < k.heap.heapEnd ∧ (k.mach.leaf a).testBit 0 = true
    ∧ k.mach.leafFrame a = f

/-- The step keeps programs and the heap apart: when the heap grows there are frames for
its pages, and no program is mapped over the heap. -/
def HeapApart : StepCond
  | k, .kmalloc size, _ => k.heap.CanGrow size
  | k, .usermode img, _ => ∀ n, ProgramPage img n → ¬ k.HeapPage n
  | k, .syscall frame _, _ => ∀ n, k.services.CallPage frame k.mach n → ¬ k.HeapPage n
  | _, _, _ => True

/-- The invariant of runs that keep programs and the heap apart. -/
structure HeapBacked (A : Nat → Prop) (k : Kernel σ) : Prop where
  isolated : Isolated A k.mach
  limits : HeapLimits k.heap.heapEnd
  backed : ∀ a, kheapStart ≤ a → a < k.heap.heapEnd → k.mach.Backed a

theorem HeapBacked.not_backsHeap {k : Kernel σ} (h : HeapBacked A k) {a : Nat}
    (ha : k.mach.UserLeaf a) : ¬ k.BacksHeap (k.mach.leafFrame a) := by
  rintro ⟨b, hb1, hb2, hp, heq⟩
  have hmem : k.mach.leafFrame b ∈ k.mach.heapFrames := h.backed b hb1 hb2 hp
  rw [heq] at hmem
  exact (h.isolated.user a ha).2.2 hmem

omit [FrameSource σ] in
theorem Mach.backed_withOom (M : Mach σ) (o : Bool) (a : Nat) :
    (M.withOom o).Backed a ↔ M.Backed a := Iff.rfl

theorem Isolated.withOom (h : Isolated A M) (o : Bool) : Isolated A (M.withOom o) :=
  ⟨⟨h.inv.bus, h.inv.tables, h.inv.fresh⟩, h.cr3, h.origin, h.heap, h.user, h.inj⟩

/-- Growing the heap keeps its pages backed, and backs the new ones if frames do not run
out. -/
theorem kmalloc_backed {h h' : Heap (Mach σ)} {size p : Nat} (hiso : Isolated A h.env)
    (hlim : HeapLimits h.heapEnd) (hm : kmalloc h size = some (h', p)) :
    Isolated A h'.env ∧ HeapLimits h'.heapEnd ∧ (∀ a, h.env.Backed a → h'.env.Backed a)
      ∧ (h'.env.oom = false → ∀ a, h.heapEnd ≤ a → a < h'.heapEnd → h'.env.Backed a) := by
  have hrun := kmalloc_env
    (Q := fun M e => Isolated A M ∧ HeapLimits e ∧ (∀ a, h.env.Backed a → M.Backed a)
      ∧ (M.oom = false → ∀ a, h.heapEnd ≤ a → a < e → M.Backed a)) ?_ hm
    ⟨hiso, hlim, fun _ ha => ha, fun _ a h1 h2 => absurd h1 (Nat.not_le.mpr h2)⟩
  · exact hrun
  · rintro M e hfit ⟨hiso, ⟨halign, -⟩, hkeep, hnew⟩
    have hmod := expandSize_mod (requestSize size)
    generalize expandSize (requestSize size) = x at hmod hfit
    obtain ⟨-, hg, hkeep', hnew'⟩ := kheapMapRegion_spec halign hiso.inv
      (show (kheapMapRegion e x M).2 = HeapBacking.mapRegion M e x from rfl)
    refine ⟨isolated_kept.kheapMapPages _ _ _ hiso, ⟨?_, hfit⟩, fun a ha => hkeep' a (hkeep a ha),
      fun hoom a h1 h2 => ?_⟩
    · simp only [wrap64]
      omega
    · by_cases hold : a < e
      · exact hkeep' a (hnew (hg.oom hoom) a h1 hold)
      · refine hnew' hoom a (Nat.le_of_not_lt hold) (Nat.lt_of_lt_of_le h2 ?_)
        exact Nat.mod_le _ _

/-- With frames for the pages the heap stays backed. -/
theorem HeapBacked.kmalloc {k : Kernel σ} (h : HeapBacked A k) {size p : Nat} {h' : Heap (Mach σ)}
    (hm : kmalloc k.heap size = some (h', p)) (hgrow : k.heap.CanGrow size) :
    HeapBacked A { k with heap := h' } := by
  obtain ⟨hiso, hlim, hkeep, -⟩ := kmalloc_backed h.isolated h.limits hm
  have hsupplied := kmalloc_supplied h.isolated.inv h.limits hgrow hm
  obtain ⟨-, -, -, hnew⟩ :=
    kmalloc_backed (h := k.heap.withEnv (k.heap.env.withOom false)) (h.isolated.withOom false)
      h.limits hsupplied
  refine ⟨hiso, hlim, fun a h1 h2 => ?_⟩
  by_cases hold : a < k.heap.heapEnd
  · exact hkeep a (h.backed a h1 hold)
  · exact (Mach.backed_withOom _ _ _).mp (hnew rfl a (Nat.le_of_not_lt hold) h2)

/-- A program that maps no page of the heap. -/
theorem HeapBacked.maps {k : Kernel σ} {M' : Mach σ} (h : HeapBacked A k) (hiso : Isolated A M')
    (hg : Grows P k.mach M') (hh : M'.heapFrames = k.mach.heapFrames)
    (hP : ∀ n, P n → ¬ k.HeapPage n) : HeapBacked A (k.withMach M') := by
  refine ⟨hiso, h.limits, fun a h1 h2 => ?_⟩
  refine (h.backed a h1 h2).congr (hg.leaf a fun hp => hP _ hp ⟨a, h1, h2, rfl⟩) fun g hgm => ?_
  rw [Kernel.mach_withMach, hh]
  exact hgm

theorem HeapBacked.step {k k' : Kernel Pmm} {op : KernelOp} (h : HeapBacked A k)
    (hs : KernelStep k op k') (hC : HeapApart k op k') : HeapBacked A k' := by
  have hiso := isolated_kept.step h.isolated hs
  cases hs with
  | kmalloc hm => exact h.kmalloc hm hC
  | kfree hf =>
      obtain ⟨henv, hend⟩ := kfree_env hf
      refine ⟨hiso, by rw [hend]; exact h.limits, fun a h1 h2 => ?_⟩
      rw [hend] at h2
      rw [Kernel.mach, henv]
      exact h.backed a h1 h2
  | heapMem => exact ⟨hiso, h.limits, h.backed⟩
  | addFile => exact ⟨hiso, h.limits, h.backed⟩
  | setShellElf => exact ⟨hiso, h.limits, h.backed⟩
  | usermode =>
      obtain ⟨-, hg, hh⟩ := Maps.usermodeExecElf _ k.mach h.isolated.inv
      exact h.maps hiso hg hh hC
  | @user m hm =>
      have hbacked : ∀ a, k.mach.Backed a → (k.mach.withMem m).Backed a := fun a ha =>
        ha.congr ((h.isolated.userWrites hm).2 a) fun _ hf => hf
      exact ⟨hiso, h.limits, fun a h1 h2 => hbacked a (h.backed a h1 h2)⟩
  | @syscall frame input =>
      obtain ⟨-, hg, hh⟩ := syscallDispatch_maps k.services frame input h.isolated.inv
      obtain ⟨-, hlim, hback⟩ := h.maps hiso hg hh hC
      exact ⟨hiso, hlim, hback⟩

/-- A boot that does not run out of frames backs the heap. -/
theorem BootEnv.boot_heapBacked {env : BootEnv} (hbus : env.bus = .phys)
    (hoom : env.boot.mach.oom = false) : HeapBacked (avail env.start.frames) env.boot := by
  have hroot := env.root_ne_zero hoom
  have hiso := Isolated.vmmInit hbus hroot rfl rfl (A := avail env.start.frames) fun _ h => h
  have hmap : (kheapMapRegion kheapStart kheapInitialSize (vmmInit env.start).2).2
      = env.boot.mach := env.boot_mach.symm
  obtain ⟨-, -, -, hnew⟩ := kheapMapRegion_spec (by decide) hiso.inv hmap
  have hboot : Isolated (avail env.start.frames) env.boot.mach := by
    rw [env.boot_mach]
    exact isolated_kept.kheapMapPages _ _ _ hiso
  exact ⟨hboot, env.boot_heapEnd ▸ ⟨by decide, by decide⟩, hnew hoom⟩

/-- In every run user pages have frames of their own, which are no tables, were not
obtained for the heap and are not the kernel's.  If programs and the heap are kept
apart, they are not behind the heap either. -/
theorem userPages_isolated {env : BootEnv} (hbus : env.bus = .phys) (hreg : Bounded env.regions) :
    (∀ k, env.Reaches anyStep k → k.mach.pml4 ≠ 0 → UserFrames env k.mach) ∧
    (env.boot.mach.oom = false → ∀ k, env.Reaches HeapApart k →
      UserFrames env k.mach ∧ ∀ a, k.mach.UserLeaf a → ¬ k.BacksHeap (k.mach.leafFrame a)) := by
  constructor
  · intro k hk hroot
    have howned : Isolated (avail env.start.frames) k.mach ∨ Starved k.mach := by
      refine hk.invariant (I := fun k => Isolated (avail env.start.frames) k.mach ∨ Starved k.mach)
        (env.boot_owned hbus) fun k op k' h hs _ => ?_
      rcases h with hiso | hstarved
      · exact Or.inl (isolated_kept.step hiso hs)
      · exact Or.inr (starved_kept.step hstarved hs)
    rcases howned with hiso | hstarved
    · exact hiso.userFrames hreg
    · exact absurd hstarved.pml4 hroot
  · intro hoom k hk
    have h : HeapBacked (avail env.start.frames) k :=
      hk.invariant (env.boot_heapBacked hbus hoom) fun _ _ _ h hs hC => h.step hs hC
    exact ⟨h.isolated.userFrames hreg, fun a ha => h.not_backsHeap ha⟩

/-- A program with a page at `0x400000` is started after boot. -/
theorem userPages_isolated_roomy :
    ∃ k, roomyBoot.Reaches HeapApart k
      ∧ k.mach = (usermodeExecElf onePageImage roomyBoot.boot.mach).2
      ∧ k.mach.UserLeaf 0x400000 ∧ UserFrames roomyBoot k.mach
      ∧ ¬ k.BacksHeap (k.mach.leafFrame 0x400000) := by
  obtain ⟨hplenty, hoom⟩ := oom_roomyBoot (n := 0 + (onePageImage.phnum * (4 * 1) + 8)) (by decide)
  have hpages : ∀ i, i < onePageImage.phnum → (onePageImage.phdr i).type = ptLoad →
      (onePageImage.phdr i).pageCount ≤ 1 := by decide +kernel
  have hcover : onePageImage.cover 0x400 = some (onePageImage.phdr 0, 0x400000) := by
    decide +kernel
  have hflags : (onePageImage.phdr 0).pageFlags = 5 := by decide +kernel
  have hpage : ∀ n, onePageImage.Covers n → n = 0x400 := fun n hn =>
    hn.onePage (v := 0x400000) (by decide +kernel) (by decide +kernel) (by decide +kernel)
  have hstack : ∀ n, StackPage userStackVaddr n → 0x800 ≤ n := by
    rintro n ⟨j, hj, rfl⟩
    simp only [stackPages, userStackVaddr, pageOf] at hj ⊢
    omega
  have hiso := (BootEnv.boot_heapBacked (show roomyBoot.bus = .phys from rfl) hoom).isolated
  have hstep : roomyBoot.Reaches HeapApart
      (roomyBoot.boot.withMach (usermodeExecElf onePageImage roomyBoot.boot.mach).2) := by
    refine (BootEnv.Reaches.boot roomyBoot _).next .usermode ?_
    rintro n hn ⟨a, -, hlt, rfl⟩
    have hlow : pageOf a < 0x400 := by
      rw [roomyBoot.boot_heapEnd] at hlt
      simp only [pageOf]
      omega
    rcases hn with hn | hn
    · exact absurd (hpage _ hn) (by omega)
    · have := hstack _ hn
      omega
  obtain ⟨huser, hheap⟩ :=
    (userPages_isolated (show roomyBoot.bus = .phys from rfl) (by decide)).2 hoom _ hstep
  have hleaf : (usermodeExecElf onePageImage roomyBoot.boot.mach).2.UserLeaf 0x400000 := by
    generalize roomyBoot.boot.mach = M at hplenty hoom hiso
    have hoom' := ((Draws.usermodeExecElf onePageImage hpages).supply M 0 hplenty).2.trans hoom
    have hload := usermodeExecElf_loaded (by decide +kernel) hiso.inv
      (fun n hn hst => by have := hstack n hst; rw [hpage n hn] at this; omega) hoom'
    obtain ⟨f, hleaf, -⟩ := hload _ _ _ hcover
    rw [Mach.UserLeaf, hleaf, hflags]
    exact testBit_or_right (by decide)
  have hmach := Kernel.mach_withMach roomyBoot.boot
    (usermodeExecElf onePageImage roomyBoot.boot.mach).2
  rw [← hmach] at hleaf
  exact ⟨_, hstep, hmach, hleaf, huser, hheap _ hleaf⟩

/-- A program with a writable segment at the start of the heap. -/
def heapImage : Image := elfFile 0x200000 [⟨1, 6, 0, 0x200000, 16, 16⟩]

/-- Starting it puts a user page under the heap. -/
theorem heapPage_exposed :
    roomyBoot.bus = .phys ∧ Bounded roomyBoot.regions ∧
      ∃ k, roomyBoot.Reaches anyStep k ∧ k.mach.pml4 ≠ 0 ∧
        ∃ a, k.mach.UserLeaf a ∧ k.BacksHeap (k.mach.leafFrame a) := by
  obtain ⟨hplenty, hoom⟩ := oom_roomyBoot (n := 0 + (heapImage.phnum * (4 * 1) + 8)) (by decide)
  have hpages : ∀ i, i < heapImage.phnum → (heapImage.phdr i).type = ptLoad →
      (heapImage.phdr i).pageCount ≤ 1 := by decide +kernel
  have hcover : heapImage.cover 0x200 = some (heapImage.phdr 0, 0x200000) := by decide +kernel
  have hflags : (heapImage.phdr 0).pageFlags = 7 := by decide +kernel
  have hstack : ∀ n, heapImage.Covers n → ¬ StackPage userStackVaddr n := by
    rintro n hn ⟨j, hj, hp⟩
    rw [hn.onePage (v := 0x200000) (by decide +kernel) (by decide +kernel)
      (by decide +kernel)] at hp
    simp only [stackPages, pageOf, userStackVaddr] at hj hp
    omega
  have hiso := (BootEnv.boot_heapBacked (show roomyBoot.bus = .phys from rfl) hoom).isolated
  have hroot := (roomyBoot.boot_pml4 rfl (roomyBoot.root_ne_zero hoom)).1
  have hrun : roomyBoot.Reaches anyStep roomyBoot.boot := .init rfl
  have hend : roomyBoot.boot.heap.heapEnd = 0x210000 := rfl
  generalize roomyBoot.boot = k at hplenty hoom hiso hroot hrun hend
  have hoom' := ((Draws.usermodeExecElf heapImage hpages).supply k.mach 0 hplenty).2.trans hoom
  have hload := usermodeExecElf_loaded (by decide +kernel) hiso.inv hstack hoom'
  obtain ⟨-, hg, -⟩ := Maps.usermodeExecElf heapImage k.mach hiso.inv
  obtain ⟨f, hleaf, -⟩ := hload _ _ _ hcover
  rw [hflags] at hleaf
  refine ⟨rfl, by decide, _, hrun.step ⟨.usermode heapImage, .usermode, trivial⟩, ?_, 0x200000, ?_,
    0x200000, Nat.le_refl _, ?_, ?_, rfl⟩
  · rw [Kernel.mach_withMach, hg.pml4, hroot]
    exact roomyBoot.root_ne_zero (oom_roomyBoot (Nat.zero_le _)).2
  · rw [Mach.UserLeaf, Kernel.mach_withMach, hleaf]
    exact testBit_or_right (by decide)
  · rw [Kernel.heapEnd_withMach, hend]
    decide
  · rw [Kernel.mach_withMach, hleaf]
    exact testBit_or_right (by decide)

end TunaOs
