import TunaOs.Elf.Model
import TunaOs.Vmm.Map

/-!
# What the ELF loader maps

A page of a segment gets a new frame with the file's bytes for that page and
zeros elsewhere (`Phdr.pageByte`).  `PageHas` says that a page is mapped with
given flags to a frame with given bytes, and that nobody else uses the frame.
Later operations on other pages keep it (`PageHas.grow`).  Page numbers are taken
modulo the 2 ^ 36 pages that tables can tell apart, and a page that is loaded
several times is left as the last time made it (`Image.cover`).
-/

namespace TunaOs

open Word

open FrameSource (avail)

/-! ## Pages of a segment -/

/-- The byte at offset `k` of the page that `load_segment` builds. -/
def Phdr.pageByte (ph : Phdr) (img : Image) (page k : Nat) : UInt8 :=
  if ph.copyStart page ≤ page + k ∧ page + k < ph.copyEnd page then
    img.bytes (ph.srcOffset page + (page + k - ph.copyStart page))
  else 0

/-- The segment has a page with this number. -/
def Phdr.Covers (ph : Phdr) (n : Nat) : Prop :=
  ∃ j, j < ph.pageCount ∧ n = pageOf (ph.vaddrStart + 4096 * j)

instance (ph : Phdr) (n : Nat) : Decidable (ph.Covers n) :=
  inferInstanceAs (Decidable (∃ j, j < ph.pageCount ∧ n = pageOf (ph.vaddrStart + 4096 * j)))

/-- The last of the first `j` pages of a segment that has a number. -/
def Phdr.lastPage (ph : Phdr) : Nat → Nat → Option Nat
  | 0, _ => none
  | j + 1, n =>
      if pageOf (ph.vaddrStart + 4096 * j) = n then some (ph.vaddrStart + 4096 * j)
      else ph.lastPage j n

/-- The last page with a number in the first `i` segments. -/
def Image.lastCover (img : Image) : Nat → Nat → Option (Phdr × Nat)
  | 0, _ => none
  | i + 1, n =>
      if (img.phdr i).type = ptLoad ∧ (img.phdr i).Covers n then
        ((img.phdr i).lastPage (img.phdr i).pageCount n).map fun page => (img.phdr i, page)
      else img.lastCover i n

/-- The last page that `elf_load` loads under a page number, with its segment. -/
def Image.cover (img : Image) (n : Nat) : Option (Phdr × Nat) := img.lastCover img.phnum n

theorem Phdr.vaddrStart_mod (ph : Phdr) (h : ph.vaddr < 2 ^ 64) : ph.vaddrStart % 4096 = 0 := by
  rw [Phdr.vaddrStart, pageMask_eq h]
  omega

theorem Image.phdr_vaddr_lt (img : Image) (i : Nat) : (img.phdr i).vaddr < 2 ^ 64 :=
  img.bytes.load_lt 8 _

theorem Phdr.vaddrEnd_eq (ph : Phdr) :
    ph.vaddrEnd = wrap64 (ph.vaddr + ph.memsz + 0xFFF) / 4096 * 4096 :=
  pageMask_eq (wrap64_lt _)

/-- The pages of the loop do not wrap. -/
theorem Phdr.page_lt (ph : Phdr) {j : Nat} (hj : j < ph.pageCount) :
    ph.vaddrStart + 4096 * j + 4096 < 2 ^ 64 := by
  have hend : ph.vaddrEnd ≤ 2 ^ 64 - 4096 := by
    have := wrap64_lt (ph.vaddr + ph.memsz + 0xFFF)
    rw [ph.vaddrEnd_eq]
    omega
  rw [Phdr.pageCount] at hj
  omega

theorem Phdr.span_lt {ph : Phdr} (hv : ph.vaddr < 2 ^ 64) :
    ph.vaddrStart + 4096 * ph.pageCount < 2 ^ 64 := by
  rcases Nat.eq_zero_or_pos ph.pageCount with h0 | hpos
  · rw [h0, Phdr.vaddrStart, pageMask_eq hv]
    omega
  · have := ph.page_lt (j := ph.pageCount - 1) (by omega)
    omega

theorem Phdr.pageFlags_lt (ph : Phdr) : ph.pageFlags < 8 := by
  unfold Phdr.pageFlags
  split <;> decide

section

variable {σ : Type} [FrameSource σ] {P : Nat → Prop} {M M' N : Mach σ} {a f flags : Nat}
  {c : Nat → UInt8}

/-- The page of `a` is mapped with `flags` to a frame of its own that holds `c`. -/
def PageHas (M : Mach σ) (a flags : Nat) (c : Nat → UInt8) : Prop :=
  ∃ f, M.leaf a = f ||| flags ∧ f % 4096 = 0 ∧ f < 2 ^ 64 ∧ ¬ M.IsTable f
    ∧ ¬ avail M.frames f ∧ ∀ k, k < 4096 → M.mem (f + k) = c k

/-- Operations on other pages keep a page. -/
theorem PageHas.grow (h : PageHas M a flags c) (hg : Grows P M M') (ha : ¬ P (pageOf a)) :
    PageHas M' a flags c := by
  obtain ⟨f, hleaf, hf0, hf64, htab, hav, hmem⟩ := h
  refine ⟨f, (hg.leaf a ha).trans hleaf, hf0, hf64, fun ht => ?_, fun h => hav (hg.avail f h), ?_⟩
  · rcases hg.new f ht with hold | hfree
    · exact htab hold
    · exact hav hfree
  · intro k hk
    have hfr : frameOf (f + k) = f := by
      simp only [frameOf]
      omega
    rw [hg.mem (f + k) (by rwa [hfr]) (by rwa [hfr])]
    exact hmem k hk

/-! ## Filling a frame -/

/-- A loop that writes a range of a frame in hand. -/
theorem InHand.fill (h : InHand P M N f) {n : Nat} (g : Nat → UInt8) (ha : f ≤ a)
    (hn : a + n ≤ f + 4096) {N' : Mach σ}
    (hN' : (forLoop n (fun i => store8 (a + i) (g i)) N).2 = N') :
    InHand P M N' f ∧ N'.mem = N.mem.overlay a n g := by
  have hf0 := (FrameSource.avail_frame h.drawn).1
  have hloop := forLoop_induct (n := n) (fun i => store8 (a + i) (g i)) (M := N)
    (Q := fun i K => InHand P M K f ∧ K.mem = N.mem.overlay a i g)
    ⟨h, (Mem.overlay_zero ..).symm⟩ ?_
  · rwa [hN'] at hloop
  · rintro i K hi ⟨hK, hmem⟩
    simp only [store8, Mach.store8_phys hK.inv.bus]
    refine ⟨hK.write ?_ fun x hx => Mem.set_other ?_, ?_⟩
    · simp only [frameOf]
      omega
    · rintro rfl
      simp only [frameOf] at hx
      omega
    · rw [Mach.withMem_mem, hmem]
      exact Mem.overlay_succ ..

omit [FrameSource σ] in
/-- The file's part of a page is inside the page. -/
theorem Phdr.copy_inside (ph : Phdr) {page : Nat} (hpage : page + 4096 < 2 ^ 64) :
    page ≤ ph.copyStart page ∧ ph.copyEnd page ≤ page + 4096 := by
  unfold Phdr.copyStart Phdr.copyEnd
  rw [wrap64_of_lt hpage]
  simp only
  constructor <;> split <;> omega

/-- The frame of a page after `load_segment` has filled it. -/
theorem InHand.load (h : InHand P M N f) (img : Image) (ph : Phdr) (page : Nat)
    (hpage : page + 4096 < 2 ^ 64)
    {N' : Mach σ} (hN' : (copyData img ph page f (zeroFrame f N).2).2 = N') :
    InHand P M N' f ∧ (∀ x, frameOf x ≠ f → N'.mem x = N.mem x)
      ∧ ∀ k, k < 4096 → N'.mem (f + k) = ph.pageByte img page k := by
  obtain ⟨hz, hzmem⟩ : InHand P M (zeroFrame f N).2 f ∧
      (zeroFrame f N).2.mem = N.mem.overlay f 4096 fun _ => 0 :=
    h.fill (fun _ => 0) (Nat.le_refl f) (Nat.le_refl _) (by rw [zeroFrame])
  generalize zeroFrame f N = Z at hN' hz hzmem
  have hf0 := (FrameSource.avail_frame h.drawn).1
  obtain ⟨hstart, hend⟩ := ph.copy_inside hpage
  by_cases hcopy : ph.copyStart page < ph.copyEnd page
  · simp only [copyData, if_pos hcopy] at hN'
    obtain ⟨hc, hcmem⟩ := hz.fill (fun i => img.bytes (ph.srcOffset page + i)) (by omega) (by omega)
      hN'
    refine ⟨hc, fun x hx => ?_, fun k hk => ?_⟩
    · simp only [frameOf] at hx
      rw [hcmem, Mem.overlay_other (by omega), hzmem, Mem.overlay_other (by omega)]
    · rw [hcmem, Phdr.pageByte]
      by_cases hin : ph.copyStart page ≤ page + k ∧ page + k < ph.copyEnd page
      · rw [if_pos hin, Mem.overlay_in (by omega) (by omega)]
        congr 2
        omega
      · rw [if_neg hin, Mem.overlay_other (by omega), hzmem, Mem.overlay_in (by omega) (by omega)]
  · simp only [copyData, if_neg hcopy, Act.pure_apply] at hN'
    subst hN'
    refine ⟨hz, fun x hx => ?_, fun k hk => ?_⟩
    · simp only [frameOf] at hx
      rw [hzmem, Mem.overlay_other (by omega)]
    · rw [hzmem, Mem.overlay_in (by omega) (by omega), Phdr.pageByte, if_neg (by omega)]

omit [FrameSource σ] in
theorem forLoop_store8_frames (n : Nat) (addr : Nat → Nat) (v : Nat → UInt8) (M : Mach σ) :
    (forLoop n (fun i => store8 (addr i) (v i)) M).2.frames = M.frames :=
  forLoop_induct _ (Q := fun _ N => N.frames = M.frames) rfl
    fun _ N _ hN => (N.store8_frames _ _).trans hN

omit [FrameSource σ] in
/-- Filling a frame draws none. -/
theorem copyData_frames (img : Image) (ph : Phdr) (page f : Nat) (M : Mach σ) :
    (copyData img ph page f (zeroFrame f M).2).2.frames = M.frames := by
  have hzero : (zeroFrame f M).2.frames = M.frames := forLoop_store8_frames ..
  unfold copyData
  split
  · exact (forLoop_store8_frames ..).trans hzero
  · exact hzero

/-- Mapping a frame in hand. -/
theorem InHand.map {virt : Nat} (h : InHand (fun n => n = pageOf virt) M N f) (hf : flags < 8)
    (hc : ∀ k, k < 4096 → N.mem (f + k) = c k) (hM' : (vmmMapPage virt f flags N).2 = M') :
    VmInv M' ∧ Grows (fun n => n = pageOf virt) M M' ∧ M'.heapFrames = M.heapFrames
      ∧ (M'.oom = false → PageHas M' virt flags c) := by
  obtain ⟨hf0, -, hf64⟩ := FrameSource.avail_frame h.drawn
  obtain ⟨hinv, hg, hh, hcase⟩ := vmmMapPage_spec h.inv hf (show f < 2 ^ 64 by omega) hM'
  refine ⟨hinv, h.grows.trans h.inv hg, hh.trans h.heapFrames, fun hoom => ?_⟩
  rcases hcase with ⟨hfail, -⟩ | ⟨-, -, hleaf⟩
  · rw [hfail] at hoom
    cases hoom
  refine ⟨f, ?_, hf0, by omega, fun ht => ?_, fun hav => h.taken (hg.avail f hav), fun k hk => ?_⟩
  · rw [hleaf virt, if_pos rfl, and_pageMask_of_aligned hf0 (by omega)]
  · rcases hg.new f ht with hold | hfree
    · exact h.plain hold
    · exact h.taken hfree
  · have hfr : frameOf (f + k) = f := by
      simp only [frameOf]
      omega
    rw [hg.mem (f + k) (by rw [hfr]; exact h.plain) (by rw [hfr]; exact h.taken)]
    exact hc k hk

/-! ## Segments and images -/

/-- The pages of a segment after `load_segment`. -/
theorem loadPages_spec (img : Image) (ph : Phdr) : ∀ (n page : Nat) {M M' : Mach σ}, VmInv M →
    page % 4096 = 0 → page + 4096 * n < 2 ^ 64 → (loadPages img ph n page M).2 = M' →
    VmInv M' ∧ Grows (fun m => ∃ j, j < n ∧ m = pageOf (page + 4096 * j)) M M'
      ∧ M'.heapFrames = M.heapFrames
      ∧ (M'.oom = false → ∀ j, j < n →
          (∀ i, j < i → i < n → pageOf (page + 4096 * i) ≠ pageOf (page + 4096 * j)) →
          PageHas M' (page + 4096 * j) ph.pageFlags (ph.pageByte img (page + 4096 * j))) := by
  intro n
  induction n with
  | zero =>
      rintro page M M' hinv - - rfl
      exact ⟨hinv, .refl M, rfl, fun _ j hj => by omega⟩
  | succ n ih =>
      intro page M M' hinv hpage hlt hM'
      simp only [loadPages, Act.bind_apply] at hM'
      rw [Nat.mul_succ, ← Nat.add_assoc] at hlt
      have hnext : ∀ j, page + 4096 + 4096 * j = page + 4096 * (j + 1) := fun j => by omega
      have hfirst : ∃ j, j < n + 1 ∧ pageOf page = pageOf (page + 4096 * j) :=
        ⟨0, by omega, by rw [Nat.mul_zero, Nat.add_zero]⟩
      have hrest : ∀ m, (∃ j, j < n ∧ m = pageOf (page + 4096 + 4096 * j)) →
          ∃ j, j < n + 1 ∧ m = pageOf (page + 4096 * j) := by
        rintro m ⟨j, hj, rfl⟩
        exact ⟨j + 1, by omega, by rw [hnext]⟩
      obtain ⟨-, ⟨h0, hi, hg, hh, ho⟩ | ⟨h0, hhand⟩⟩ :=
        allocFrame_spec (fun m => m = pageOf page) hinv
      · -- no frame
        simp only [h0, if_true] at hM'
        subst hM'
        refine ⟨hi, hg.mono fun m hm => hm ▸ hfirst, hh, fun hno => ?_⟩
        have ho' : (allocFrame M).2.oom = false := hno
        rw [ho] at ho'
        cases ho'
      · simp only [h0, if_false, Act.bind_apply] at hM'
        generalize (allocFrame M).1 = f at hhand hM'
        generalize (allocFrame M).2 = M1 at hhand hM'
        generalize hN : (copyData img ph page f (zeroFrame f M1).2).2 = N at hM'
        obtain ⟨hload, -, hbytes⟩ := hhand.load img ph page (by omega) hN
        generalize hM2 : (vmmMapPage page f ph.pageFlags N).2 = M2 at hM'
        obtain ⟨hi2, hg2, hh2, hp2⟩ := hload.map ph.pageFlags_lt hbytes hM2
        obtain ⟨hi3, hg3, hh3, hp3⟩ := ih (page + 4096) (hi2.event (.invlpg page)) (by omega)
          (by omega) hM'
        have hg2' := (hg2.event (.invlpg page)).mono fun m hm => hm ▸ hfirst
        refine ⟨hi3, hg2'.trans (hi2.event _) (hg3.mono hrest), hh3.trans hh2, ?_⟩
        intro hoom j hj hlast
        have hoom2 : M2.oom = false := hg3.oom hoom
        cases j with
        | zero =>
            rw [Nat.mul_zero, Nat.add_zero] at hlast ⊢
            have hhas : PageHas (event (.invlpg page) M2).2 page ph.pageFlags
                (ph.pageByte img page) := hp2 hoom2
            refine hhas.grow hg3 ?_
            rintro ⟨i, hi, heq⟩
            rw [hnext] at heq
            exact hlast (i + 1) (by omega) (by omega) heq.symm
        | succ j =>
            have h := hp3 hoom j (by omega) fun i hji hin => by
              rw [hnext, hnext]
              exact hlast (i + 1) (by omega) (by omega)
            rwa [hnext] at h

/-! ## The last page with a number -/

theorem Phdr.lastPage_eq_some {ph : Phdr} {n page : Nat} : ∀ {c : Nat},
    ph.lastPage c n = some page →
      ∃ j, j < c ∧ page = ph.vaddrStart + 4096 * j ∧ pageOf page = n ∧
        ∀ i, j < i → i < c → pageOf (ph.vaddrStart + 4096 * i) ≠ n
  | 0, h => by cases h
  | c + 1, h => by
      rw [Phdr.lastPage] at h
      split at h
      case isTrue heq =>
          obtain rfl := Option.some.inj h
          exact ⟨c, by omega, rfl, heq, fun i h1 h2 => by omega⟩
      case isFalse hne =>
          obtain ⟨j, hj, hpage, hn, hlast⟩ := Phdr.lastPage_eq_some h
          refine ⟨j, by omega, hpage, hn, fun i h1 h2 => ?_⟩
          rcases Nat.lt_succ_iff_lt_or_eq.mp h2 with hlt | rfl
          · exact hlast i h1 hlt
          · exact hne

theorem Phdr.lastPage_isSome {ph : Phdr} {n : Nat} : ∀ {c j : Nat}, j < c →
    n = pageOf (ph.vaddrStart + 4096 * j) → (ph.lastPage c n).isSome = true
  | c + 1, j, hj, hn => by
      rw [Phdr.lastPage]
      split
      case isTrue => rfl
      case isFalse hne =>
          refine Phdr.lastPage_isSome (c := c) (j := j) ?_ hn
          rcases Nat.lt_succ_iff_lt_or_eq.mp hj with hlt | rfl
          · exact hlt
          · exact absurd hn.symm hne

theorem Image.lastCover_isSome {img : Image} {n : Nat} : ∀ {i : Nat},
    (img.lastCover i n).isSome = true ↔
      ∃ j, j < i ∧ (img.phdr j).type = ptLoad ∧ (img.phdr j).Covers n
  | 0 => by simp [Image.lastCover]
  | i + 1 => by
      rw [Image.lastCover]
      split
      case isTrue h =>
          obtain ⟨htype, j, hj, hn⟩ := h
          refine ⟨fun _ => ⟨i, by omega, htype, j, hj, hn⟩, fun _ => ?_⟩
          rw [Option.isSome_map]
          exact Phdr.lastPage_isSome hj hn
      case isFalse h =>
          rw [Image.lastCover_isSome]
          constructor
          · rintro ⟨j, hj, hc⟩
            exact ⟨j, by omega, hc⟩
          · rintro ⟨j, hj, hc⟩
            rcases Nat.lt_succ_iff_lt_or_eq.mp hj with hlt | rfl
            · exact ⟨j, hlt, hc⟩
            · exact absurd hc h

/-- The cover of a page is a page of a segment and has the page's number. -/
theorem Image.lastCover_eq_some {img : Image} {n page : Nat} {ph : Phdr} : ∀ {i : Nat},
    img.lastCover i n = some (ph, page) →
      pageOf page = n ∧ ∃ j, j < i ∧ ph = img.phdr j ∧ ph.type = ptLoad ∧
        ∃ k, k < ph.pageCount ∧ page = ph.vaddrStart + 4096 * k
  | 0, h => by cases h
  | i + 1, h => by
      rw [Image.lastCover] at h
      split at h
      case isTrue hc =>
          obtain ⟨page', hpage', heq⟩ := Option.map_eq_some_iff.mp h
          obtain ⟨rfl, rfl⟩ := Prod.mk.inj heq
          obtain ⟨k, hk, hpage, hn, -⟩ := Phdr.lastPage_eq_some hpage'
          exact ⟨hn, i, by omega, rfl, hc.1, k, hk, hpage⟩
      case isFalse =>
          obtain ⟨hn, j, hj, hrest⟩ := Image.lastCover_eq_some h
          exact ⟨hn, j, by omega, hrest⟩

/-- `load_segment` for any program header. -/
theorem loadSegment_spec (img : Image) {ph : Phdr} (hv : ph.vaddr < 2 ^ 64) (hinv : VmInv M)
    (hM' : (loadSegment img ph M).2 = M') :
    VmInv M' ∧ Grows ph.Covers M M' ∧ M'.heapFrames = M.heapFrames
      ∧ (M'.oom = false → ∀ n page, ph.lastPage ph.pageCount n = some page →
          PageHas M' page ph.pageFlags (ph.pageByte img page)) := by
  obtain ⟨hi, hg, hh, hp⟩ := loadPages_spec img ph ph.pageCount ph.vaddrStart hinv
    (ph.vaddrStart_mod hv) (Phdr.span_lt hv) hM'
  refine ⟨hi, hg, hh, fun hoom n page hpage => ?_⟩
  obtain ⟨j, hj, rfl, rfl, hlast⟩ := Phdr.lastPage_eq_some hpage
  exact hp hoom j hj hlast

/-- Every page the image covers is as it was loaded last. -/
def Loaded (img : Image) (M : Mach σ) : Prop :=
  ∀ n ph page, img.cover n = some (ph, page) → PageHas M page ph.pageFlags (ph.pageByte img page)

/-- An image that is not accepted is not loaded. -/
theorem elfLoad_rejected {img : Image} (h : ¬ img.accepted = true) (M : Mach σ) :
    elfLoad img M = (0, M) := by
  unfold elfLoad
  by_cases hv : elfValidate img = false
  · rw [if_pos hv]
    rfl
  · rw [if_neg hv, if_pos]
    · rfl
    · simpa [Image.accepted, hv] using h

theorem elfLoad_accepted {img : Image} (h : img.accepted = true) (M : Mach σ) :
    (elfLoad img M).2 = (forLoop img.phnum (fun i =>
      if (img.phdr i).type ≠ ptLoad then pure () else loadSegment img (img.phdr i)) M).2 := by
  simp only [Image.accepted, Bool.and_eq_true, decide_eq_true_eq] at h
  simp only [elfLoad, h.1, Bool.true_eq_false, if_false, Nat.not_lt.mpr h.2, Act.bind_apply,
    Act.pure_apply]

/-- `elf_load` maps the pages of the image and nothing else. -/
theorem elfLoad_spec (img : Image) (hinv : VmInv M) (hM' : (elfLoad img M).2 = M') :
    VmInv M' ∧ Grows (fun n => (img.cover n).isSome = true) M M' ∧ M'.heapFrames = M.heapFrames
      ∧ (M'.oom = false → img.accepted = true → Loaded img M') := by
  by_cases hacc : img.accepted = true
  · rw [elfLoad_accepted hacc] at hM'
    have hloop := forLoop_induct (n := img.phnum) (M := M) (fun i =>
        if (img.phdr i).type ≠ ptLoad then pure () else loadSegment img (img.phdr i))
      (Q := fun i N => VmInv N ∧ Grows (fun n => (img.lastCover i n).isSome = true) M N
        ∧ N.heapFrames = M.heapFrames ∧ (N.oom = false → ∀ n ph page,
          img.lastCover i n = some (ph, page) →
            PageHas N page ph.pageFlags (ph.pageByte img page)))
      ⟨hinv, .refl M, rfl, fun _ n ph page h => by cases h⟩ ?_
    · rw [hM'] at hloop
      obtain ⟨hi, hg, hh, hl⟩ := hloop
      exact ⟨hi, hg, hh, fun hoom _ => hl hoom⟩
    · rintro i N hi ⟨hiN, hgN, hhN, hlN⟩
      by_cases htype : (img.phdr i).type = ptLoad
      · simp only [htype, ne_eq, not_true_eq_false, if_false]
        generalize hN' : (loadSegment img (img.phdr i) N).2 = N'
        obtain ⟨hi', hg', hh', hp'⟩ := loadSegment_spec img (img.phdr_vaddr_lt i) hiN hN'
        have hcov : ∀ n, (img.phdr i).Covers n → (img.lastCover (i + 1) n).isSome = true :=
          fun n hn => Image.lastCover_isSome.mpr ⟨i, by omega, htype, hn⟩
        have hold : ∀ n, (img.lastCover i n).isSome = true →
            (img.lastCover (i + 1) n).isSome = true := fun n hn => by
          obtain ⟨j, hj, hc⟩ := Image.lastCover_isSome.mp hn
          exact Image.lastCover_isSome.mpr ⟨j, by omega, hc⟩
        refine ⟨hi', (hgN.mono hold).trans hiN (hg'.mono hcov), hh'.trans hhN, ?_⟩
        intro hoom n ph page hph
        have hn := (Image.lastCover_eq_some hph).1
        rw [Image.lastCover] at hph
        split at hph
        case isTrue hc =>
            obtain ⟨page', hpage', heq⟩ := Option.map_eq_some_iff.mp hph
            obtain ⟨rfl, rfl⟩ := Prod.mk.inj heq
            exact hp' hoom n page' hpage'
        case isFalse hc =>
            refine (hlN (hg'.oom hoom) n ph page hph).grow hg' fun hcovers => hc ⟨htype, ?_⟩
            rwa [hn] at hcovers
      · simp only [htype, ne_eq, not_false_eq_true, if_true, Act.pure_apply]
        have hsame : img.lastCover (i + 1) = img.lastCover i := by
          funext n
          rw [Image.lastCover, if_neg fun h => htype h.1]
        rw [hsame]
        exact ⟨hiN, hgN, hhN, hlN⟩
  · rw [elfLoad_rejected hacc] at hM'
    subst hM'
    exact ⟨hinv, .refl M, rfl, fun _ h => absurd h hacc⟩

end

end TunaOs
