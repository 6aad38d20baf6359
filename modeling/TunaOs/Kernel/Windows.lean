import TunaOs.Elf.Compose
import TunaOs.Kernel.Runs

/-!
# The windows of the kernel and of programs

The kernel's pages are the first 4 MiB and the heap.  `elf_load` maps the pages
of an image wherever they are, so it leaves the kernel's pages alone if the image
has none of them, and only then: a page that is loaded gets a frame that was free
and `USER` (`Fresh`), and before it had neither.

Whether the heap meets the programs is the matter of the module `Apart`.
-/

namespace TunaOs

open FrameSource (avail)

section

variable {σ : Type} [FrameSource σ] {A P Q : Nat → Prop} {M M' N N' N₁ : Mach σ}
  {a f virt flags : Nat}

/-! ## Pages that get a new frame -/

/-- The page is mapped for user mode to a frame that was free in `M`. -/
structure Fresh (M N : Mach σ) (a : Nat) : Prop where
  present : (N.leaf a).testBit 0 = true
  user : N.UserLeaf a
  free : avail M.frames (N.leafFrame a)

/-- A page with a new frame is translated in a new way. -/
theorem Fresh.translate_ne (h : Fresh M N a) (hM : Rooted A M) (hN : Rooted A N) :
    N.translate a ≠ M.translate a := by
  intro heq
  rw [hN.translate, hM.translate, decode, decode, if_pos h.present] at heq
  split at heq
  case isFalse => cases heq
  case isTrue =>
      obtain ⟨hframe, -, huser⟩ := Translation.mk.inj (Option.some.inj heq)
      have hu : M.UserLeaf a := huser.symm.trans h.user
      have hf : M.leafFrame a = N.leafFrame a := hframe.symm
      obtain ⟨-, ⟨hused, -⟩, -⟩ := hM.isolated.user a hu
      rw [hf] at hused
      exact hused h.free

theorem Fresh.congr (h : Fresh M N a) (hleaf : N'.leaf a = N.leaf a) : Fresh M N' a := by
  obtain ⟨hp, hu, hf⟩ := h
  refine ⟨?_, ?_, ?_⟩
  · rw [hleaf]
    exact hp
  · rw [Mach.UserLeaf, hleaf]
    exact hu
  · rw [Mach.leafFrame, hleaf]
    exact hf

/-- Mapping a frame in hand for a program.  Pages with new frames stay such
pages. -/
theorem InHand.fresh (h : InHand (fun _ => False) N N₁ f) (hflags : flags < 8)
    (hpres : flags.testBit 0 = true) (huser : flags.testBit 2 = true)
    (hav : ∀ g, avail N.frames g → avail M.frames g) (hN' : (vmmMapPage virt f flags N₁).2 = N') :
    (∀ a, Fresh M N a → Fresh M N' a) ∧
      ((N'.tableAt (pathOf virt)).isSome = true → ∀ a, pageOf a = pageOf virt → Fresh M N' a) := by
  obtain ⟨hf0, -, hf64⟩ := FrameSource.avail_frame h.drawn
  have hold : ∀ a, N₁.leaf a = N.leaf a := fun a => h.grows.leaf a id
  obtain ⟨-, -, -, ⟨-, hnone, hleaf⟩ | ⟨-, -, hleaf⟩⟩ :=
    vmmMapPage_spec h.inv hflags (show f < 2 ^ 64 by omega) hN'
  · refine ⟨fun a ha => ha.congr ((hleaf a).trans (hold a)), fun hsome => ?_⟩
    rw [hnone] at hsome
    cases hsome
  · rw [and_pageMask_of_aligned hf0 (by omega)] at hleaf
    have hnew : ∀ a, pageOf a = pageOf virt → Fresh M N' a := by
      intro a ha
      have heq : N'.leaf a = f ||| flags := (hleaf a).trans (if_pos ha)
      refine ⟨?_, ?_, ?_⟩
      · rw [heq]
        exact testBit_or_right hpres
      · rw [Mach.UserLeaf, heq]
        exact testBit_or_right huser
      · rw [Mach.leafFrame, heq, or_flags_and_pageMask hflags,
          and_pageMask_of_aligned hf0 (by omega)]
        exact hav f h.drawn
    refine ⟨fun a ha => ?_, fun _ => hnew⟩
    by_cases hpage : pageOf a = pageOf virt
    · exact hnew a hpage
    · exact ha.congr (((hleaf a).trans (if_neg hpage)).trans (hold a))

/-- A table that is missing after `vmm_map_page` is missing for want of a frame. -/
theorem vmmMapPage_isSome (hinv : VmInv M) (hflags : flags < 8) {phys : Nat} (hp : phys < 2 ^ 64)
    (hM' : (vmmMapPage virt phys flags M).2 = M') (hoom : M'.oom = false) :
    (M'.tableAt (pathOf virt)).isSome = true := by
  obtain ⟨-, -, -, ⟨hfail, -⟩ | ⟨-, hsome, -⟩⟩ := vmmMapPage_spec hinv hflags hp hM'
  · rw [hfail] at hoom
    cases hoom
  · exact hsome

theorem loadPages_fresh (img : Image) (ph : Phdr) : ∀ (n page : Nat) {N N' : Mach σ}, VmInv N →
    page % 4096 = 0 → page + 4096 * n < 2 ^ 64 → (∀ g, avail N.frames g → avail M.frames g) →
    (loadPages img ph n page N).2 = N' →
    (∀ a, Fresh M N a → Fresh M N' a) ∧
      (N'.oom = false → ∀ j, j < n → ∀ a, pageOf a = pageOf (page + 4096 * j) → Fresh M N' a) := by
  intro n
  induction n with
  | zero =>
      rintro page N N' - - - - rfl
      exact ⟨fun _ h => h, fun _ j hj => absurd hj (Nat.not_lt_zero j)⟩
  | succ n ih =>
      intro page N N' hinv hpage hlt hav hN'
      rw [Nat.mul_succ, ← Nat.add_assoc] at hlt
      simp only [loadPages, Act.bind_apply] at hN'
      obtain ⟨-, ⟨h0, -, hg, -, ho⟩ | ⟨h0, hhand⟩⟩ := allocFrame_spec (fun _ => False) hinv
      · -- no frame
        simp only [h0, if_true, Act.pure_apply] at hN'
        subst hN'
        refine ⟨fun a ha => ha.congr (hg.leaf a id), fun hoom => ?_⟩
        rw [ho] at hoom
        cases hoom
      · simp only [h0, if_false, Act.bind_apply] at hN'
        generalize (allocFrame N).1 = f at hhand hN'
        generalize (allocFrame N).2 = N1 at hhand hN'
        generalize hN2 : (copyData img ph page f (zeroFrame f N1).2).2 = N2 at hN'
        obtain ⟨hload, -, -⟩ := hhand.load img ph page (by omega) hN2
        obtain ⟨hf0, -, hf64⟩ := FrameSource.avail_frame hload.drawn
        generalize hN3 : (vmmMapPage page f ph.pageFlags N2).2 = N3 at hN'
        obtain ⟨hkeep, hnew⟩ := hload.fresh ph.pageFlags_lt ph.pageFlags_bits.1
          ph.pageFlags_bits.2.1 hav hN3
        obtain ⟨hi3, hg3, -, -⟩ := vmmMapPage_spec hload.inv ph.pageFlags_lt (by omega) hN3
        have hi4 := hi3.event (.invlpg page)
        have hav' : ∀ g, avail N3.frames g → avail M.frames g := fun g hg =>
          hav g (hload.grows.avail g (hg3.avail g hg))
        obtain ⟨hkeep', hnew'⟩ := ih (page + 4096) hi4 (by omega) (by omega) hav' hN'
        have hsame : ∀ a, Fresh M N3 a → Fresh M N' a := fun a ha => hkeep' a ⟨ha.1, ha.2, ha.3⟩
        refine ⟨fun a ha => hsame a (hkeep a ha), fun hoom j hj a ha => ?_⟩
        cases j with
        | zero =>
            obtain ⟨-, hg, -⟩ := loadPages_spec img ph n (page + 4096) hi4 (by omega) (by omega) hN'
            have hoom3 : N3.oom = false := hg.oom hoom
            exact hsame a
              (hnew (vmmMapPage_isSome hload.inv ph.pageFlags_lt (by omega) hN3 hoom3) a ha)
        | succ j =>
            refine hnew' hoom j (by omega) a ?_
            rwa [Nat.mul_succ, Nat.add_comm (4096 * j), ← Nat.add_assoc] at ha

/-- Every page of a loaded image has a new frame. -/
theorem elfLoad_fresh {img : Image} (hinv : VmInv M) (hacc : img.accepted = true)
    (hM' : (elfLoad img M).2 = M') (hoom : M'.oom = false) (hcov : img.Covers (pageOf a)) :
    Fresh M M' a := by
  rw [elfLoad_accepted hacc] at hM'
  have hloop := forLoop_induct (n := img.phnum) (M := M) (fun i =>
      if (img.phdr i).type ≠ ptLoad then pure () else loadSegment img (img.phdr i))
    (Q := fun i N => VmInv N ∧ Grows (fun _ => True) M N ∧
      (N.oom = false → ∀ a, (img.lastCover i (pageOf a)).isSome = true → Fresh M N a))
    ⟨hinv, .refl M, fun _ a h => by cases h⟩ ?_
  · rw [hM'] at hloop
    exact hloop.2.2 hoom a hcov
  · rintro i N hi ⟨hiN, hgN, hfN⟩
    by_cases htype : (img.phdr i).type = ptLoad
    · simp only [htype, ne_eq, not_true_eq_false, if_false]
      generalize hN' : (loadSegment img (img.phdr i) N).2 = N'
      have hv := img.phdr_vaddr_lt i
      obtain ⟨hi', hg', -, -⟩ := loadSegment_spec img hv hiN hN'
      obtain ⟨hkeep, hnew⟩ := loadPages_fresh img (img.phdr i) _ _ hiN
        ((img.phdr i).vaddrStart_mod hv) (Phdr.span_lt hv) hgN.avail hN'
      refine ⟨hi', hgN.trans hiN (hg'.mono fun _ _ => trivial), fun hoom a ha => ?_⟩
      obtain ⟨j, hj, hjt, hjc⟩ := Image.lastCover_isSome.mp ha
      rcases Nat.lt_succ_iff_lt_or_eq.mp hj with hlt | rfl
      · exact hkeep a (hfN (hg'.oom hoom) a (Image.lastCover_isSome.mpr ⟨j, hlt, hjt, hjc⟩))
      · obtain ⟨l, hl, hpage⟩ := hjc
        exact hnew hoom l hl a hpage
    · simp only [htype, ne_eq, not_false_eq_true, if_true, Act.pure_apply]
      refine ⟨hiN, hgN, fun hoom a ha => hfN hoom a ?_⟩
      rwa [Image.lastCover, if_neg fun h => htype h.1] at ha

/-! ## Where user pages are -/

/-- A page of user mode. -/
def Mach.UserPage (M : Mach σ) (a : Nat) : Prop := ∃ t, M.translate a = some t ∧ t.user = true

omit [FrameSource σ] in
theorem userPage_decode (h : M.translate a = decode (M.leaf a)) (hu : M.UserPage a) :
    M.UserLeaf a := by
  obtain ⟨t, ht, htu⟩ := hu
  rwa [eq_of_decode (h.symm.trans ht)] at htu

theorem Bare.not_userPage (h : Bare M) (a : Nat) : ¬ M.UserPage a := by
  rintro ⟨t, ht, hu⟩
  rw [h.translate] at ht
  split at ht
  · obtain rfl := Option.some.inj ht
    cases hu
  · cases ht

/-- User pages are in `P`. -/
def Confined (P : Nat → Prop) (M : Mach σ) : Prop := ∀ a, M.UserLeaf a → P (pageOf a)

/-- Mapping pages of `P`. -/
theorem Confined.grow (h : Confined P M) (hg : Grows Q M M') (hQ : ∀ n, Q n → P n) :
    Confined P M' := by
  intro a ha
  by_cases hq : Q (pageOf a)
  · exact hQ _ hq
  · rw [Mach.UserLeaf, hg.leaf a hq] at ha
    exact h a ha

/-- Kernel pages are not user pages. -/
theorem Confined.mapKernel {phys : Nat} (h : Confined P M) (hinv : VmInv M) (hp : phys < 2 ^ 64)
    (hM' : (vmmMapPage virt phys kernelFlags M).2 = M') : Confined P M' := by
  intro a ha
  rw [Mach.UserLeaf] at ha
  obtain ⟨-, -, -, ⟨-, -, hleaf⟩ | ⟨-, -, hleaf⟩⟩ := vmmMapPage_spec hinv (by decide) hp hM'
  · rw [hleaf] at ha
    exact h a ha
  · rw [hleaf] at ha
    split at ha
    case isTrue =>
        rw [Nat.testBit_or, testBit_and_pageMask (by decide)] at ha
        exact absurd ha (by decide)
    case isFalse => exact h a ha

theorem Confined.kheapMapPages : ∀ (n virt : Nat) {M M' : Mach σ}, Confined P M → VmInv M →
    (kheapMapPages n virt M).2 = M' → Confined P M' := by
  intro n
  induction n with
  | zero =>
      rintro virt M M' h - rfl
      exact h
  | succ n ih =>
      intro virt M M' h hinv hM'
      simp only [TunaOs.kheapMapPages, Act.bind_apply] at hM'
      obtain ⟨-, ⟨h0, -, hg, -, -⟩ | ⟨h0, hhand⟩⟩ := allocFrame_spec (fun _ => False) hinv
      · rw [if_pos h0] at hM'
        subst hM'
        exact h.grow hg fun _ => False.elim
      · rw [if_neg h0, Act.bind_apply, Act.bind_apply] at hM'
        generalize (allocFrame M).1 = f at hhand hM'
        generalize (allocFrame M).2 = N at hhand hM'
        obtain ⟨-, -, hf64⟩ := FrameSource.avail_frame hhand.drawn
        generalize hN' : (vmmMapPage virt f kernelFlags (noteHeapFrame f N).2).2 = N' at hM'
        obtain ⟨hinv', -, -, -, -⟩ := mapHeapPage_spec virt hhand hN'
        have hN : Confined P N := h.grow hhand.grows fun _ => False.elim
        have hnote : Confined P (noteHeapFrame f N).2 := hN
        have hinv₁ : VmInv (noteHeapFrame f N).2 :=
          ⟨hhand.inv.bus, hhand.inv.tables, hhand.inv.fresh⟩
        exact ih _ (hnote.mapKernel hinv₁ (by omega) hN') hinv' hM'

omit [FrameSource σ] in
theorem Confined.loadCr3 (h : Confined P M) (table : Nat) : Confined P (loadCr3 table M).2 := h

/-- `vmm_init` makes no user pages. -/
theorem Confined.vmmInit (hbus : M.bus = .phys) (h0 : (allocTable M).1 ≠ 0) :
    Confined P (vmmInit M).2 := by
  obtain ⟨hinv, -, -, -, hzero, -⟩ := newPml4_spec hbus h0 rfl
  have hloop := forLoop_induct (n := identityPages) (M := newPml4 M)
    (fun i => vmmMapPage (i * 4096) (i * 4096) kernelFlags)
    (Q := fun _ N => VmInv N ∧ Confined P N) ⟨hinv, fun a ha => ?_⟩ fun i N hi hN => ?_
  · rw [vmmInit_ne_zero h0]
    generalize (forLoop identityPages (fun i => vmmMapPage (i * 4096) (i * 4096) kernelFlags)
      (newPml4 M)).2 = N at hloop ⊢
    exact hloop.2.loadCr3 _
  · rw [Mach.UserLeaf, hzero a] at ha
    simp at ha
  · simp only [identityPages] at hi
    obtain ⟨hinv', -⟩ := vmmMapPage_spec hN.1 (by decide) (by omega)
      (show (vmmMapPage (i * 4096) (i * 4096) kernelFlags N).2 = _ from rfl)
    exact ⟨hinv', hN.2.mapKernel hN.1 (by omega) rfl⟩

/-- Neither does `kheap_init`. -/
theorem confined_boot {env : BootEnv} (hbus : env.bus = .phys) (h0 : (allocTable env.start).1 ≠ 0) :
    Confined P env.boot.mach := by
  have hiso := Isolated.vmmInit hbus h0 rfl rfl (A := avail env.start.frames) fun _ h => h
  exact (Confined.vmmInit hbus h0).kheapMapPages 16 kheapStart hiso.inv env.boot_mach.symm

/-! ## Loading a program -/

/-- The kernel's pages: the first 4 MiB and the heap. -/
def Kernel.Protected (k : Kernel σ) (n : Nat) : Prop := n < identityPages ∨ k.HeapPage n

/-- `elf_load` maps none of the kernel's pages. -/
def Image.AvoidsKernel (img : Image) (k : Kernel σ) : Prop :=
  img.accepted = true → ∀ n, img.Covers n → ¬ k.Protected n

/-- `elf_load` leaves the translations of the kernel's pages alone. -/
def SparesKernel (img : Image) (k : Kernel σ) : Prop :=
  ∀ a, k.Protected (pageOf a) → (elfLoad img k.mach).2.translate a = k.mach.translate a

/-- Pages outside an image are translated as before. -/
theorem Rooted.elfLoad_translate {img : Image} (h : Rooted A M)
    (ha : img.accepted = true → ¬ img.Covers (pageOf a)) :
    (elfLoad img M).2.translate a = M.translate a := by
  by_cases hacc : img.accepted = true
  · obtain ⟨-, hg, -⟩ := Maps.elfLoad img M h.isolated.inv
    rw [h.translate, (rooted_kept.elfLoad img M h).translate, hg.leaf a (ha hacc)]
  · rw [elfLoad_rejected hacc]

/-- With frames for the image each of its pages is new, whatever has failed before. -/
theorem elfLoad_supplied {img : Image} (hinv : VmInv M) (hacc : img.accepted = true)
    (hplenty : Plenty M.frames (img.loadCost M.tables)) (hcov : img.Covers (pageOf a)) :
    Fresh M (elfLoad img M).2 a := by
  have hinv0 : VmInv (M.withOom false) := ⟨hinv.bus, hinv.tables, hinv.fresh⟩
  have hfresh := elfLoad_fresh hinv0 hacc rfl ((elfLoad_oom_iff img hinv).mpr hplenty) hcov
  rw [(primitive_oomBlind.elfLoad img).state M false] at hfresh
  exact ⟨hfresh.present, hfresh.user, hfresh.free⟩

/-- The two directions on the bus `phys`. -/
theorem sparesKernel_iff (img : Image) {k : Kernel σ} (h : Rooted A k.mach ∨ Bare k.mach) :
    (img.AvoidsKernel k → SparesKernel img k) ∧
      (Plenty k.mach.frames (img.loadCost k.mach.tables) →
        (SparesKernel img k ↔ img.AvoidsKernel k)) := by
  rcases h with h | h
  · have havoids : img.AvoidsKernel k → SparesKernel img k := fun havoid a ha =>
      h.elfLoad_translate fun hacc hcov => havoid hacc _ hcov ha
    refine ⟨havoids, fun hplenty => ⟨fun hspares hacc n hcov hprot => ?_, havoids⟩⟩
    obtain ⟨i, hi, htype, j, hj, rfl⟩ := Image.lastCover_isSome.mp hcov
    have hfresh := elfLoad_supplied h.isolated.inv hacc hplenty hcov
    exact hfresh.translate_ne h (rooted_kept.elfLoad img _ h) (hspares _ hprot)
  · have hbare := bare_kept.elfLoad img k.mach h
    have hspares : SparesKernel img k := fun a _ => by rw [hbare.translate, h.translate]
    refine ⟨fun _ => hspares, fun hplenty => iff_of_true hspares fun hacc n hcov => ?_⟩
    -- there is no frame, so the image has no page
    obtain ⟨i, hi, htype, j, hj, -⟩ := Image.lastCover_isSome.mp hcov
    have hpos := Image.loadCost_pos hacc hi htype (Nat.zero_lt_of_lt hj) k.mach.tables
    obtain ⟨c, hc⟩ := Nat.exists_eq_add_one_of_ne_zero hpos.ne'
    rw [hc] at hplenty
    exact absurd h.starved.allocFrame.1 hplenty.1

end

theorem busFree_anyStep : BusFree anyStep := fun _ _ _ _ _ => trivial

/-- `elf_load` leaves the kernel's pages alone if the image has none of them, and
only then if there are frames for the image. -/
theorem elfLoad_spares_iff {env : BootEnv} {k : Kernel Pmm} (hk : env.Reaches anyStep k)
    (img : Image) (hexact : env.bus = .phys ∨ (elfLoad img k.mach).2.stray = false) :
    (img.AvoidsKernel k → SparesKernel img k) ∧
      (Plenty k.mach.frames (img.loadCost k.mach.tables) →
        (SparesKernel img k ↔ img.AvoidsKernel k)) := by
  rcases hexact with hbus | hstray
  · exact sparesKernel_iff img (hk.rooted_or_bare hbus)
  · have hrobust := primitive_robust.elfLoad (σ := Pmm) img
    have hk' := hk.onBus busFree_anyStep .phys (hrobust.sticky k.mach hstray)
    have hrun : (elfLoad img (k.onBus .phys).mach).2 = (elfLoad img k.mach).2.withBus .phys := by
      rw [Kernel.mach_onBus, hrobust.agree k.mach .phys hstray]
    have hiff := sparesKernel_iff img (hk'.rooted_or_bare rfl)
    rw [SparesKernel, hrun] at hiff
    exact hiff

theorem covers_onePageImage {n : Nat} (h : onePageImage.Covers n) : n = 0x400 :=
  h.onePage (v := 0x400000) (by decide +kernel) (by decide +kernel) (by decide +kernel)

theorem elfLoad_spares_onePage : SparesKernel onePageImage roomyBoot.boot := by
  refine (elfLoad_spares_iff (.init rfl) onePageImage (Or.inl rfl)).1 fun _ n hn hprot => ?_
  obtain rfl := covers_onePageImage hn
  rcases hprot with hlow | ⟨a, -, ha, hpage⟩
  · exact absurd hlow (by decide)
  · have hend : a < 0x210000 := ha
    simp only [pageOf] at hpage
    omega

/-- A program with a writable segment at the start of the kernel image. -/
def kernelCodeImage : Image := elfFile 0x100000 [⟨1, 6, 0, 0x100000, 16, 16⟩]

/-- Loading it right after boot gives user mode write access to a page of the
kernel, which had none before. -/
theorem kernelCode_exposed :
    roomyBoot.bus = .phys ∧ roomyBoot.boot.Protected (pageOf 0x100000) ∧
      (∀ t, roomyBoot.boot.mach.translate 0x100000 = some t → t.user = false) ∧
      ∃ f, (elfLoad kernelCodeImage roomyBoot.boot.mach).2.translate 0x100000
        = some ⟨f, true, true⟩ := by
  have hpages : ∀ i, i < kernelCodeImage.phnum → (kernelCodeImage.phdr i).type = ptLoad →
      (kernelCodeImage.phdr i).pageCount ≤ 1 := by decide +kernel
  have hacc : kernelCodeImage.accepted = true := by decide +kernel
  have hcover : kernelCodeImage.cover 0x100 = some (kernelCodeImage.phdr 0, 0x100000) := by
    decide +kernel
  have hflags : (kernelCodeImage.phdr 0).pageFlags = 7 := by decide +kernel
  obtain ⟨hplenty, hoom⟩ := oom_roomyBoot (n := 0 + kernelCodeImage.phnum * (4 * 1)) (by decide)
  have hroot := roomyBoot.root_ne_zero hoom
  have hM := BootEnv.boot_rooted (show roomyBoot.bus = .phys from rfl) hroot
  have hconf : Confined (fun _ => False) roomyBoot.boot.mach := confined_boot rfl hroot
  refine ⟨rfl, Or.inl (by decide), ?_⟩
  generalize roomyBoot.boot.mach = M at hplenty hoom hM hconf
  have hoom' := ((Draws.elfLoad kernelCodeImage hpages).supply M 0 hplenty).2.trans hoom
  obtain ⟨-, -, -, hload⟩ := elfLoad_spec kernelCodeImage hM.isolated.inv rfl
  obtain ⟨f, hleaf, hf0, hf64, -⟩ := hload hoom' hacc _ _ _ hcover
  constructor
  · intro t ht
    rw [eq_of_decode ((hM.translate _).symm.trans ht)]
    exact Bool.eq_false_iff.mpr fun hu => hconf 0x100000 hu
  · refine ⟨f, ?_⟩
    rw [(rooted_kept.elfLoad _ M hM).translate, hleaf, hflags, decode,
      if_pos (testBit_or_right (by decide)), or_flags_and_pageMask (by decide),
      and_pageMask_of_aligned hf0 hf64,
      testBit_or_right (by decide), testBit_or_right (by decide)]

end TunaOs
