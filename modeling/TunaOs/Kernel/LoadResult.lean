import TunaOs.Elf.Compose
import TunaOs.Kernel.Spec

/-!
# What the result of `elf_load` says

A result other than 0 should mean that the program is in memory.  `load_segment`
and `vmm_map_page` return nothing, so `elf_load` does not see that a frame was
missing, that a page table could not be made, that a segment ends beyond the
address space and its loop runs over too few pages, or that the processor does
not accept the addresses it mapped.  Its result depends on the header of the image
only.  `elfLoad_reports_iff` says when the result is right all the same: the allocator has
the frames for the pages and for the tables that are missing before the load, and every
segment can be mapped.
-/

namespace TunaOs

open Word

/-! ## Pages of a segment -/

/-- The address is on a page of the segment.  The sum is the true one. -/
def Phdr.Spans (ph : Phdr) (a : Nat) : Prop :=
  ph.vaddr / 4096 * 4096 ≤ a ∧ a < (ph.vaddr + ph.memsz + 0xFFF) / 4096 * 4096

/-- The pages of the segment end inside the address space, and the processor
accepts their addresses. -/
structure Phdr.Mappable (ph : Phdr) : Prop where
  end_lt : ph.vaddr + ph.memsz + 0xFFF < 2 ^ 64
  canonical : ∀ a, ph.Spans a → canonical a

/-- Segment `j` is the last one on the page of `a`. -/
def Image.LastOn (img : Image) (j a : Nat) : Prop :=
  img.Seg j ∧ (img.phdr j).Spans a ∧ ∀ i, j < i → img.Seg i → ¬ (img.phdr i).Spans a

theorem Phdr.Spans.page_lt {ph : Phdr} {a : Nat} (h : ph.Spans a) :
    a / 4096 < (ph.vaddr + ph.memsz + 0xFFF) / 4096 := by
  obtain ⟨-, hlt⟩ := h
  omega

/-- Two accepted addresses with one page number are on one page. -/
theorem page_eq_of_canonical {a b : Nat} (ha : a < 2 ^ 64) (hb : b < 2 ^ 64)
    (hca : canonical a) (hcb : canonical b) (h : pageOf a = pageOf b) :
    a / 4096 = b / 4096 := by
  simp only [canonical] at hca hcb
  simp only [pageOf] at h
  omega

section

variable {ph : Phdr} (hend : ph.vaddr + ph.memsz + 0xFFF < 2 ^ 64)

include hend

theorem Phdr.vaddrStart_eq : ph.vaddrStart = ph.vaddr / 4096 * 4096 := pageMask_eq (by omega)

theorem Phdr.pageCount_eq :
    ph.pageCount = (ph.vaddr + ph.memsz + 0xFFF) / 4096 - ph.vaddr / 4096 := by
  rw [Phdr.pageCount, Phdr.vaddrStart_eq hend, ph.vaddrEnd_eq, wrap64_of_lt hend]
  omega

/-- The loop runs over the pages of the segment. -/
theorem Phdr.page_spans {j : Nat} (hj : j < ph.pageCount) :
    ph.Spans (ph.vaddrStart + 4096 * j) := by
  rw [Phdr.pageCount_eq hend] at hj
  rw [Phdr.Spans, Phdr.vaddrStart_eq hend]
  omega

/-- Every page of the segment has its turn in the loop. -/
theorem Phdr.Spans.turn {a : Nat} (h : ph.Spans a) :
    ∃ j, j < ph.pageCount ∧ frameOf a = ph.vaddrStart + 4096 * j := by
  have hlt := h.page_lt
  have hle := h.1
  refine ⟨a / 4096 - ph.vaddr / 4096, ?_, ?_⟩
  · rw [Phdr.pageCount_eq hend]
    omega
  · rw [Phdr.vaddrStart_eq hend]
    simp only [frameOf]
    omega

theorem Phdr.Spans.lt {a : Nat} (h : ph.Spans a) : a < 2 ^ 64 := by
  have := h.page_lt
  omega

end

/-- A segment covers the numbers of its pages and no others. -/
theorem Phdr.Mappable.covers_iff {ph : Phdr} (hm : ph.Mappable) {a : Nat} (ha : a < 2 ^ 64)
    (hca : Word.canonical a) : ph.Covers (pageOf a) ↔ ph.Spans a := by
  constructor
  · rintro ⟨j, hj, hpage⟩
    have hs := Phdr.page_spans hm.end_lt hj
    have heq := page_eq_of_canonical ha (hs.lt hm.end_lt) hca (hm.canonical _ hs) hpage
    rw [Phdr.Spans] at hs ⊢
    omega
  · intro hs
    obtain ⟨j, hj, hframe⟩ := hs.turn hm.end_lt
    exact ⟨j, hj, by rw [← hframe, pageOf_frameOf]⟩

/-- No segment after the cover has the page. -/
theorem Image.lastCover_last {img : Image} {n page : Nat} {ph : Phdr} : ∀ {i : Nat},
    img.lastCover i n = some (ph, page) →
      ∃ j, j < i ∧ ph = img.phdr j ∧ ph.type = ptLoad ∧ ph.Covers n ∧ pageOf page = n
        ∧ (∃ k, k < ph.pageCount ∧ page = ph.vaddrStart + 4096 * k)
        ∧ ∀ l, j < l → l < i → (img.phdr l).type = ptLoad → ¬ (img.phdr l).Covers n := by
  intro i
  induction i with
  | zero =>
      intro h
      cases h
  | succ i ih =>
      intro h
      rw [Image.lastCover] at h
      split at h
      case isTrue hc =>
          obtain ⟨page', hpage', heq⟩ := Option.map_eq_some_iff.mp h
          obtain ⟨rfl, rfl⟩ := Prod.mk.inj heq
          obtain ⟨k, hk, hpage, hn, -⟩ := Phdr.lastPage_eq_some hpage'
          exact ⟨i, by omega, rfl, hc.1, hc.2, hn, ⟨k, hk, hpage⟩, fun l h1 h2 => by omega⟩
      case isFalse hc =>
          obtain ⟨j, hj, hph, htype, hcov, hn, hk, hlast⟩ := ih h
          refine ⟨j, by omega, hph, htype, hcov, hn, hk, fun l h1 h2 ht hcl => ?_⟩
          rcases Nat.lt_succ_iff_lt_or_eq.mp h2 with hlt | rfl
          · exact hlast l h1 hlt ht hcl
          · exact hc ⟨ht, hcl⟩

/-- The cover of an address of a segment is its page of the last segment there. -/
theorem Image.cover_lastOn {img : Image} (hm : ∀ i, img.Seg i → (img.phdr i).Mappable) {i a : Nat}
    (hi : img.Seg i) (ha : (img.phdr i).Spans a) :
    ∃ j, img.LastOn j a ∧ img.cover (pageOf a) = some (img.phdr j, frameOf a) := by
  have ha64 := ha.lt (hm i hi).end_lt
  have hcan := (hm i hi).canonical a ha
  obtain ⟨⟨ph, page⟩, hcover⟩ := Option.isSome_iff_exists.mp
    (show (img.cover (pageOf a)).isSome = true from Image.lastCover_isSome.mpr
      ⟨i, hi.1, hi.2, ((hm i hi).covers_iff ha64 hcan).mpr ha⟩)
  obtain ⟨j, hj, rfl, htype, hcov, hpage, ⟨k, hk, hk'⟩, hlast⟩ := Image.lastCover_last hcover
  have hseg : img.Seg j := ⟨hj, htype⟩
  have hmj := hm j hseg
  have hspan := Phdr.page_spans hmj.end_lt hk
  refine ⟨j, ⟨hseg, (hmj.covers_iff ha64 hcan).mp hcov, fun l hl hsl hspl => ?_⟩, ?_⟩
  · exact hlast l hl hsl.1 hsl.2 (((hm l hsl).covers_iff ha64 hcan).mpr hspl)
  · have heq : page / 4096 = a / 4096 := by
      subst hk'
      exact page_eq_of_canonical (hspan.lt hmj.end_lt) ha64 (hmj.canonical _ hspan) hcan hpage
    have hframe : page = frameOf a := by
      have hmod : page % 4096 = 0 := by
        rw [hk', Nat.add_mul_mod_self_left]
        exact Phdr.vaddrStart_mod _ (img.phdr_vaddr_lt j)
      rw [frameOf, ← heq, Nat.div_mul_cancel (Nat.dvd_of_mod_eq_zero hmod)]
    rw [hcover, hframe]

/-! ## Success and failure -/

section

variable {σ : Type} [FrameSource σ]

/-- A user program finds at `a` the byte that the last segment there puts on its page. -/
def LoadedAt (img : Image) (M : Mach σ) (a : Nat) : Prop :=
  canonical a ∧ ∃ t, walk M.mem M.pml4 a = some t ∧ t.user = true
    ∧ ∃ j, img.LastOn j a ∧ M.mem (t.frame + a % 4096)
        = (img.phdr j).pageByte img (frameOf a) (a % 4096)

/-- A request of the load for a frame fails, whatever happened to earlier requests. -/
def LoadRunsOut (img : Image) (M : Mach σ) : Prop :=
  (elfLoad img (M.withOom false)).2.oom = true

/-- A result other than 0 means that every page of every segment is loaded, and
when a page cannot be allocated or mapped the result is 0. -/
structure LoadReported (img : Image) (M : Mach σ) : Prop where
  success : (elfLoad img M).1 ≠ 0 → ∀ i, img.Seg i → ∀ a, (img.phdr i).Spans a →
    LoadedAt img (elfLoad img M).2 a
  failure : LoadRunsOut img M ∨ (∃ i, img.Seg i ∧ ¬ (img.phdr i).Mappable) →
    (elfLoad img M).1 = 0

/-- An image with mappable segments is loaded if the frames last. -/
theorem Loaded.loadedAt {img : Image} {M : Mach σ} (hinv : VmInv M) (hload : Loaded img M)
    (hm : ∀ i, img.Seg i → (img.phdr i).Mappable) {i a : Nat} (hi : img.Seg i)
    (ha : (img.phdr i).Spans a) : LoadedAt img M a := by
  obtain ⟨j, hlast, hcover⟩ := Image.cover_lastOn hm hi ha
  obtain ⟨h0, h2, -⟩ := (img.phdr j).pageFlags_bits
  obtain ⟨f, hwalk, hbyte⟩ := (hload _ _ _ hcover).walk hinv (img.phdr j).pageFlags_lt h0
    (pageOf_frameOf a).symm
  exact ⟨(hm i hi).canonical a ha, _, hwalk, h2, j, hlast, hbyte⟩

/-- A load that runs on the bus `phys` or does not stray is one on the bus `phys`. -/
theorem elfLoad_onPhys {img : Image} {M : Mach σ}
    (hexact : M.bus = .phys ∨ (elfLoad img M).2.stray = false) (o : Bool) :
    (elfLoad img ((M.withBus .phys).withOom o)).2
      = (elfLoad img (M.withOom o)).2.withBus .phys := by
  have hstray : (elfLoad img (M.withOom o)).2.stray = (elfLoad img M).2.stray := by
    rw [(primitive_oomBlind.elfLoad img).state M o]
    rfl
  have hrun := (primitive_robust.elfLoad img).exact (M := M.withOom o)
    (hexact.imp id fun h => hstray.trans h)
  exact congrArg Prod.snd hrun

/-- A request fails exactly if there are fewer frames than pages and missing tables. -/
theorem loadRunsOut_iff {img : Image} {M : Mach σ} (hinv : VmInv (M.withBus .phys))
    (hexact : M.bus = .phys ∨ (elfLoad img M).2.stray = false) :
    LoadRunsOut img M ↔ ¬ Plenty M.frames (img.loadCost M.tables) := by
  have hiff := elfLoad_oom_iff img hinv
  rw [elfLoad_onPhys hexact false] at hiff
  exact (Bool.not_eq_false _).symm.to_iff.trans hiff.not

/-- The result of `elf_load` is right exactly if it is 0 by the header, or all segments are
mappable and there are frames for their pages and the tables that these lack. -/
theorem elfLoad_reports_iff {img : Image} {M : Mach σ} (hinv : VmInv (M.withBus .phys))
    (hexact : M.bus = .phys ∨ (elfLoad img M).2.stray = false) :
    LoadReported img M ↔ ¬ (img.accepted = true ∧ img.entry ≠ 0)
      ∨ (Plenty M.frames (img.loadCost M.tables) ∧ ∀ i, img.Seg i → (img.phdr i).Mappable) := by
  have hout := loadRunsOut_iff hinv hexact
  constructor
  · intro h
    by_cases hstart : img.accepted = true ∧ img.entry ≠ 0
    · have hne := (elfLoad_fst_ne_zero M).mpr hstart
      refine .inr ⟨?_, fun i hi => ?_⟩
      · exact Classical.byContradiction fun hno => hne (h.failure (.inl (hout.mpr hno)))
      · exact Classical.byContradiction fun hm => hne (h.failure (.inr ⟨i, hi, hm⟩))
    · exact .inl hstart
  · rintro (hstart | ⟨hplenty, hm⟩)
    · have hzero : ¬ (elfLoad img M).1 ≠ 0 := fun h => hstart ((elfLoad_fst_ne_zero M).mp h)
      exact ⟨fun h => absurd h hzero, fun _ => Classical.not_not.mp hzero⟩
    · constructor
      · intro hne i hi a ha
        -- the load with all earlier failures forgotten
        have hoom := (elfLoad_oom_iff img hinv).mpr hplenty
        obtain ⟨hinv', -, -, hloaded⟩ := elfLoad_spec img hinv.counted.inv rfl
        have hload := (hloaded hoom ((elfLoad_fst_ne_zero M).mp hne).1).loadedAt hinv' hm hi ha
        rw [elfLoad_onPhys hexact false, (primitive_oomBlind.elfLoad img).state M false] at hload
        exact hload
      · rintro (hrunsOut | ⟨i, hi, hbad⟩)
        · exact absurd hplenty (hout.mp hrunsOut)
        · exact absurd (hm i hi) hbad

/-- Segments without pages are loaded by doing nothing. -/
theorem elfLoad_no_pages {img : Image} (h : ∀ i, img.Seg i → (img.phdr i).pageCount = 0)
    (M : Mach σ) : (elfLoad img M).2 = M := by
  by_cases hacc : img.accepted = true
  · rw [elfLoad_accepted hacc]
    refine forLoop_induct _ (Q := fun _ N => N = M) rfl ?_
    rintro i N hi rfl
    by_cases htype : (img.phdr i).type = ptLoad
    · simp only [htype, ne_eq, not_true_eq_false, if_false, loadSegment, h i ⟨hi, htype⟩, loadPages,
        Act.pure_apply]
    · simp only [ne_eq, htype, not_false_eq_true, if_true, Act.pure_apply]
  · rw [elfLoad_rejected hacc]

/-- With no frame left, an image with a page runs out. -/
theorem elfLoad_runs_out {img : Image} {M : Mach σ} {i : Nat} (hacc : img.accepted = true)
    (hi : img.Seg i) (hpages : 0 < (img.phdr i).pageCount)
    (hnone : (FrameSource.alloc M.frames).2 = 0) : (elfLoad img M).2.oom = true := by
  have h0 : (allocFrame M).1 = 0 := hnone
  refine elfLoad_first (I := fun N => N.oom = true) (primitive_oom.loadPages img)
    (fun ph n page => ?_) hacc hi hpages
  rw [loadPages, Act.bind_apply, if_pos h0]
  exact allocFrame_oom h0

end

theorem mappable_onePageImage {i : Nat} (hi : onePageImage.Seg i) :
    (onePageImage.phdr i).Mappable := by
  obtain rfl := seg_onePageImage hi
  have hv : (onePageImage.phdr 0).vaddr = 0x400000 ∧ (onePageImage.phdr 0).memsz = 16 := by
    decide +kernel
  refine ⟨?_, fun a ha => ?_⟩
  · omega
  · rw [Phdr.Spans, hv.1, hv.2] at ha
    simp only [canonical]
    omega

theorem elfLoad_reports_onePage : LoadReported onePageImage (newPml4 nineFrames) := by
  have hbus := vmInv_nineFrames.bus
  refine (elfLoad_reports_iff ?_ (Or.inl hbus)).mpr
    (.inr ⟨by decide +kernel, fun i => mappable_onePageImage⟩)
  rw [Mach.withBus_self hbus]
  exact vmInv_nineFrames

/-- A program whose data is the last page of the address space. -/
def topPageImage : Image := elfFile 0x400000 [⟨1, 6, 0, 0xFFFFFFFFFFFFF000, 16, 4096⟩]

/-- A machine with a frame for the top table only. -/
def oneFrame : Mach FrameOracle := { sampleMach with frames := ⟨[0x1000], by decide, by decide⟩ }

/-- `elf_load` returns the entry point of a program of which it maps nothing: the end of
the segment wraps to 0, or there is no frame for its page. -/
theorem elfLoad_reports_unloaded :
    ((elfLoad topPageImage (newPml4 nineFrames)).1 = 0x400000
      ∧ (topPageImage.phdr 0).Spans 0xFFFFFFFFFFFFF000
      ∧ (∀ a, walk (elfLoad topPageImage (newPml4 nineFrames)).2.mem
          (elfLoad topPageImage (newPml4 nineFrames)).2.pml4 a = none)
      ∧ ¬ LoadReported topPageImage (newPml4 nineFrames))
    ∧ (elfLoad onePageImage (newPml4 oneFrame)).1 = 0x400000
      ∧ LoadRunsOut onePageImage (newPml4 oneFrame)
      ∧ ¬ LoadReported onePageImage (newPml4 oneFrame) := by
  have htop : (elfLoad topPageImage (newPml4 nineFrames)).1 = 0x400000 := by
    rw [elfLoad_fst]
    decide +kernel
  have hone : (elfLoad onePageImage (newPml4 oneFrame)).1 = 0x400000 := by
    rw [elfLoad_fst]
    decide +kernel
  have hspans : (topPageImage.phdr 0).Spans 0xFFFFFFFFFFFFF000 := by
    have hv : (topPageImage.phdr 0).vaddr = 0xFFFFFFFFFFFFF000
        ∧ (topPageImage.phdr 0).memsz = 4096 := by decide +kernel
    rw [Phdr.Spans, hv.1, hv.2]
    omega
  have hsame : (elfLoad topPageImage (newPml4 nineFrames)).2 = newPml4 nineFrames := by
    refine elfLoad_no_pages (fun i hi => ?_) _
    have hlt : i < 1 := hi.1
    obtain rfl : i = 0 := by omega
    decide +kernel
  have hout : LoadRunsOut onePageImage (newPml4 oneFrame) := by
    refine elfLoad_runs_out (i := 0) wellFormed_onePageImage.accepted ⟨by decide, by decide⟩
      (by decide +kernel) ?_
    rw [Mach.withOom_frames, newPml4_frames, allocTable_frames]
    rfl
  refine ⟨⟨htop, hspans, fun a => ?_, fun h => ?_⟩, hone, hout, fun h => ?_⟩
  · rw [hsame, vmInv_nineFrames.walk_eq, (newPml4_spec rfl (by decide) rfl).2.2.2.2.1 a]
    rfl
  · have h0 := h.failure (.inr ⟨0, ⟨by decide +kernel, by decide +kernel⟩, fun hm => ?_⟩)
    · rw [htop] at h0
      cases h0
    · exact absurd hm.end_lt (by decide +kernel)
  · have h0 := h.failure (.inl hout)
    rw [hone] at h0
    cases h0

end TunaOs
