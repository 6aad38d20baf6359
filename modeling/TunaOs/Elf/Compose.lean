import TunaOs.Elf.Spec
import TunaOs.Elf.Supply
import TunaOs.Vmm.Refine

/-!
# The memory image of a program

`ImageBuilt` is what `elf_load` is for: every byte of every `PT_LOAD` segment is
in memory, and its page has the rights that the segments on the page ask for.
The loader handles one segment after the other and gives each page of each
segment a new zeroed frame.  So where two segments meet inside a page, the page
has the bytes and the rights of the later one only.  `Image.Composes` says of
the image alone when that does no harm, and `imageBuilt_iff` that this is exactly
when the memory image is right.
-/

namespace TunaOs

open Word

/-! ## Well-formed images -/

/-- Segment `i` is to be loaded. -/
def Image.Seg (img : Image) (i : Nat) : Prop := i < img.phnum ∧ (img.phdr i).type = ptLoad

/-- The layout that `elf_load` should be able to handle. -/
structure Image.WellFormed (img : Image) : Prop where
  /-- The header is right. -/
  valid : elfValidate img = true
  size_lt : img.size < 2 ^ 64
  /-- The program headers lie inside the image. -/
  table : img.phoff + img.phnum * img.phentsize ≤ img.size
  /-- So do the file ranges of the segments. -/
  file : ∀ i, img.Seg i → (img.phdr i).offset + (img.phdr i).filesz ≤ img.size
  filesz_le : ∀ i, img.Seg i → (img.phdr i).filesz ≤ (img.phdr i).memsz
  /-- Segments do not wrap, also when rounded up to a page. -/
  nowrap : ∀ i, img.Seg i → (img.phdr i).vaddr + (img.phdr i).memsz + 0xFFF < 2 ^ 64
  /-- Segments occupy disjoint byte ranges. -/
  disjoint : ∀ i j, img.Seg i → img.Seg j → i ≠ j → ∀ k l, k < (img.phdr i).memsz →
    l < (img.phdr j).memsz → (img.phdr i).vaddr + k ≠ (img.phdr j).vaddr + l

theorem Image.WellFormed.accepted {img : Image} (h : img.WellFormed) : img.accepted = true := by
  have hle : img.phEnd ≤ img.size := by
    rw [Image.phEnd, wrap64_of_lt (Nat.lt_of_le_of_lt h.table h.size_lt)]
    exact h.table
  simp [Image.accepted, h.valid, hle]

/-- The byte a segment puts at its offset `k`. -/
def Phdr.byte (ph : Phdr) (img : Image) (k : Nat) : UInt8 :=
  if k < ph.filesz then img.bytes (ph.offset + k) else 0

/-- The segment occupies a byte of the page of `a`. -/
def Phdr.OnPage (ph : Phdr) (a : Nat) : Prop :=
  ∃ l, l < ph.memsz ∧ (ph.vaddr + l) / 4096 = a / 4096

/-- Some segment on the page of `a` asks for write access. -/
def Image.WantsWrite (img : Image) (a : Nat) : Prop :=
  ∃ j, img.Seg j ∧ (img.phdr j).OnPage a ∧ (img.phdr j).flags &&& pfW ≠ 0

/-- The whole memory image is there. -/
def ImageBuilt {σ : Type} (img : Image) (M : Mach σ) : Prop :=
  ∀ i, img.Seg i → ∀ k, k < (img.phdr i).memsz →
    ∃ t, walk M.mem M.pml4 ((img.phdr i).vaddr + k) = some t
      ∧ M.mem (t.frame + ((img.phdr i).vaddr + k) % 4096) = (img.phdr i).byte img k
      ∧ t.user = true ∧ (img.WantsWrite ((img.phdr i).vaddr + k) → t.write = true)

/-- What is loaded last over the page of each byte has the byte, and the rights
that any segment on the page asks for. -/
def Image.Composes (img : Image) : Prop :=
  ∀ i, img.Seg i → ∀ k, k < (img.phdr i).memsz →
    ∃ ph page, img.cover (pageOf ((img.phdr i).vaddr + k)) = some (ph, page)
      ∧ ph.pageByte img page (((img.phdr i).vaddr + k) % 4096) = (img.phdr i).byte img k
      ∧ (img.WantsWrite ((img.phdr i).vaddr + k) → ph.flags &&& pfW ≠ 0)

/-! ## The loader and the image -/

theorem Phdr.pageFlags_bits (ph : Phdr) :
    ph.pageFlags.testBit 0 = true ∧ ph.pageFlags.testBit 2 = true
      ∧ (ph.pageFlags.testBit 1 = true ↔ ph.flags &&& pfW ≠ 0) := by
  unfold Phdr.pageFlags
  split
  case isTrue h => exact ⟨by decide, by decide, fun _ => h, fun _ => by decide⟩
  case isFalse h => exact ⟨by decide, by decide, fun h' => absurd h' (by decide),
    fun h' => absurd h' h⟩

/-- The bytes of a segment are on its pages. -/
theorem Phdr.covers_byte {ph : Phdr} {k : Nat} (hk : k < ph.memsz)
    (hwrap : ph.vaddr + ph.memsz + 0xFFF < 2 ^ 64) : ph.Covers (pageOf (ph.vaddr + k)) := by
  have hstart : ph.vaddrStart = ph.vaddr / 4096 * 4096 := pageMask_eq (by omega)
  have hend : ph.vaddrEnd = (ph.vaddr + ph.memsz + 0xFFF) / 4096 * 4096 := by
    rw [ph.vaddrEnd_eq, wrap64_of_lt hwrap]
  refine ⟨(ph.vaddr + k) / 4096 - ph.vaddr / 4096, ?_, ?_⟩
  · rw [Phdr.pageCount, hstart, hend]
    omega
  · rw [hstart]
    simp only [pageOf]
    congr 1
    omega

section

variable {σ : Type} [FrameSource σ] {M : Mach σ} {a flags : Nat} {c : Nat → UInt8}

/-- The hardware finds a page that is there. -/
theorem PageHas.walk {page : Nat} (h : PageHas M page flags c) (hinv : VmInv M) (hflags : flags < 8)
    (h0 : flags.testBit 0 = true) (hpage : pageOf a = pageOf page) :
    ∃ f, walk M.mem M.pml4 a = some ⟨f, flags.testBit 1, flags.testBit 2⟩
      ∧ M.mem (f + a % 4096) = c (a % 4096) := by
  obtain ⟨f, hleaf, hf0, hf64, -, -, hmem⟩ := h
  have hlow : ∀ k, k < 12 → f.testBit k = false := fun k hk => by
    rw [← and_pageMask_of_aligned hf0 hf64]
    exact testBit_and_pageMask hk f
  refine ⟨f, ?_, hmem _ (Nat.mod_lt _ (by decide))⟩
  rw [hinv.walk_eq, show M.leaf a = f ||| flags from (leafEntry_page hpage).trans hleaf, decode,
    if_pos (testBit_or_right h0), or_flags_and_pageMask hflags, and_pageMask_of_aligned hf0 hf64,
    Nat.testBit_or, Nat.testBit_or, hlow 1 (by decide), hlow 2 (by decide), Bool.false_or,
    Bool.false_or]

/-- After `elf_load` the memory image is right exactly if the image composes. -/
theorem imageBuilt_iff {img : Image} (hinv : VmInv M) (hwf : img.WellFormed) {M' : Mach σ}
    (hM' : (elfLoad img M).2 = M') (hoom : M'.oom = false) : ImageBuilt img M' ↔ img.Composes := by
  obtain ⟨hinv', -, -, hloaded⟩ := elfLoad_spec img hinv hM'
  have hload := hloaded hoom hwf.accepted
  refine forall_congr' fun i => forall_congr' fun hi => forall_congr' fun k =>
    forall_congr' fun hk => ?_
  -- the page of the byte is covered, and the walk finds the last cover
  generalize hx : (img.phdr i).vaddr + k = x
  have hcov : (img.cover (pageOf x)).isSome = true :=
    Image.lastCover_isSome.mpr
      ⟨i, hi.1, hi.2, hx ▸ Phdr.covers_byte hk (hwf.nowrap i hi)⟩
  obtain ⟨⟨ph, page⟩, hcover⟩ := Option.isSome_iff_exists.mp hcov
  obtain ⟨h0, h2, h1⟩ := ph.pageFlags_bits
  obtain ⟨f, hwalk, hbyte⟩ := (hload _ ph page hcover).walk hinv' ph.pageFlags_lt h0
    (Image.lastCover_eq_some hcover).1.symm
  rw [hcover]
  constructor
  · rintro ⟨t, ht, hmem, -, hw⟩
    obtain rfl := Option.some.inj (hwalk.symm.trans ht)
    exact ⟨ph, page, rfl, hbyte.symm.trans hmem, fun h => h1.mp (hw h)⟩
  · rintro ⟨ph', page', heq, hmem, hw⟩
    obtain ⟨rfl, rfl⟩ := Prod.mk.inj (Option.some.inj heq)
    exact ⟨_, hwalk, hbyte.trans hmem, h2, fun h => h1.mpr (hw h)⟩

end

/-- What loading a page gives in the machine at hand, and loading keeps, a load with a page
gives. -/
theorem elfLoad_first {σ : Type} [FrameSource σ] {M : Mach σ} {img : Image} {I : Mach σ → Prop}
    (hkeep : ∀ ph n page, Keeps I (loadPages img ph n page))
    (hfirst : ∀ ph n page, I (loadPages img ph (n + 1) page M).2) (hacc : img.accepted = true)
    {i : Nat} (hi : img.Seg i) (hpages : 0 < (img.phdr i).pageCount) : I (elfLoad img M).2 := by
  rw [elfLoad_accepted hacc]
  -- the segments so far have no pages, or one has a first page
  refine (forLoop_induct _ (Q := fun j N => (N = M ∨ I N) ∧ (i < j → I N))
    ⟨.inl rfl, fun h => absurd h (Nat.not_lt_zero i)⟩ ?_).2 hi.1
  rintro j N hj ⟨hN, hpast⟩
  by_cases htype : (img.phdr j).type = ptLoad
  · simp only [htype, ne_eq, not_true_eq_false, if_false, loadSegment]
    rcases hN with rfl | hI
    · cases hcount : (img.phdr j).pageCount with
      | zero =>
          refine ⟨.inl rfl, fun hij => hpast ?_⟩
          rcases Nat.lt_succ_iff_lt_or_eq.mp hij with hlt | rfl
          · exact hlt
          · omega
      | succ n => exact ⟨.inr (hfirst _ n _), fun _ => hfirst _ n _⟩
    · exact ⟨.inr (hkeep _ _ _ N hI), fun _ => hkeep _ _ _ N hI⟩
  · simp only [ne_eq, htype, not_false_eq_true, if_true, Act.pure_apply]
    refine ⟨hN, fun hij => hpast ?_⟩
    rcases Nat.lt_succ_iff_lt_or_eq.mp hij with hlt | rfl
    · exact hlt
    · exact absurd hi.2 htype

/-- On its own page a byte of a segment is the segment's byte. -/
theorem Phdr.pageByte_frameOf {ph : Phdr} {img : Image} {k : Nat}
    (hvaddr : ph.vaddr + k + 4096 < 2 ^ 64) (hfile : ph.vaddr + ph.filesz < 2 ^ 64)
    (hoffset : ph.offset + ph.filesz < 2 ^ 64) :
    ph.pageByte img (frameOf (ph.vaddr + k)) ((ph.vaddr + k) % 4096) = ph.byte img k := by
  have hpage : frameOf (ph.vaddr + k) + (ph.vaddr + k) % 4096 = ph.vaddr + k := by
    simp only [frameOf]
    omega
  have hle : frameOf (ph.vaddr + k) ≤ ph.vaddr + k := by omega
  have hstart : ph.copyStart (frameOf (ph.vaddr + k)) ≤ ph.vaddr + k
      ∧ ph.vaddr ≤ ph.copyStart (frameOf (ph.vaddr + k)) := by
    unfold Phdr.copyStart
    split <;> omega
  have hend : ph.vaddr + k < ph.copyEnd (frameOf (ph.vaddr + k)) ↔ k < ph.filesz := by
    unfold Phdr.copyEnd
    rw [wrap64_of_lt (by omega), wrap64_of_lt hfile]
    simp only
    split <;> omega
  rw [Phdr.pageByte, hpage, Phdr.byte]
  simp only [hstart.1, true_and, hend]
  split
  case isTrue hk =>
      rw [Phdr.srcOffset, wrap64_of_lt (by omega)]
      congr 1
      omega
  case isFalse => rfl

/-- Images whose segments are below 2 ^ 48 and share no page compose. -/
theorem Image.composes_of_separate {img : Image} (hwf : img.WellFormed)
    (hcan : ∀ i, img.Seg i → (img.phdr i).vaddr + (img.phdr i).memsz ≤ 2 ^ 48)
    (hsep : ∀ i j n, img.Seg i → img.Seg j → (img.phdr i).Covers n → (img.phdr j).Covers n →
      i = j) : img.Composes := by
  intro i hi k hk
  have hwrap := hwf.nowrap i hi
  have hci := Phdr.covers_byte hk hwrap
  obtain ⟨⟨ph, page⟩, hcover⟩ := Option.isSome_iff_exists.mp
    (show (img.cover _).isSome = true from Image.lastCover_isSome.mpr ⟨i, hi.1, hi.2, hci⟩)
  obtain ⟨hpage, j, hj, rfl, htype, m, hm, rfl⟩ := Image.lastCover_eq_some hcover
  obtain rfl : i = j := hsep i j _ hi ⟨hj, htype⟩ hci ⟨m, hm, hpage.symm⟩
  refine ⟨_, _, hcover, ?_, ?_⟩
  · have hcan := hcan i hi
    have hfile := hwf.file i hi
    have hsize := hwf.size_lt
    have hle := hwf.filesz_le i hi
    have hstart : (img.phdr i).vaddrStart = (img.phdr i).vaddr / 4096 * 4096 :=
      pageMask_eq (by omega)
    have hend : (img.phdr i).vaddrEnd =
        ((img.phdr i).vaddr + (img.phdr i).memsz + 0xFFF) / 4096 * 4096 := by
      rw [(img.phdr i).vaddrEnd_eq, wrap64_of_lt hwrap]
    rw [Phdr.pageCount, hstart, hend] at hm
    have hframe : (img.phdr i).vaddrStart + 4096 * m = frameOf ((img.phdr i).vaddr + k) := by
      rw [hstart] at hpage ⊢
      simp only [frameOf, pageOf] at hpage ⊢
      omega
    rw [hframe]
    exact Phdr.pageByte_frameOf (by omega) (by omega) (by omega)
  · rintro ⟨j, hj, ⟨l, hl, heq⟩, hflags⟩
    have hcj := Phdr.covers_byte hl (hwf.nowrap j hj)
    rw [show pageOf ((img.phdr j).vaddr + l) = pageOf ((img.phdr i).vaddr + k) by
      rw [pageOf, heq, pageOf]] at hcj
    rwa [hsep i j _ hi hj hci hcj]

/-- With enough frames `elf_load` builds the whole memory image exactly if the
image composes. -/
theorem elfLoad_builds_iff {σ : Type} [FrameSource σ] {M : Mach σ} {img : Image}
    (hinv : VmInv (M.withBus .phys)) (hwf : img.WellFormed)
    (hexact : M.bus = .phys ∨ (elfLoad img M).2.stray = false)
    (hframes : (elfLoad img M).2.oom = false) :
    ImageBuilt img (elfLoad img M).2 ↔ img.Composes := by
  have hrun := (primitive_robust.elfLoad img).exact hexact
  have hM' : (elfLoad img (M.withBus .phys)).2 = (elfLoad img M).2.withBus .phys := by rw [hrun]
  have hiff := imageBuilt_iff hinv hwf hM' hframes
  exact hiff

/-! ## Three images -/

/-- A program of one page at `0x400000`. -/
def onePageImage : Image := elfFile 0x400000 [⟨1, 5, 0, 0x400000, 16, 16⟩]

/-- A program with a second page, of which the file has only the first half of the segment. -/
def twoPageImage : Image :=
  elfFile 0x400000 [⟨1, 5, 0, 0x400000, 16, 16⟩, ⟨1, 6, 16, 0x401000, 16, 32⟩]

/-- A program whose read-only segment follows its writable one in the same page. -/
def sharedPageImage : Image :=
  elfFile 0x400000 [⟨1, 6, 0, 0x400000, 16, 16⟩, ⟨1, 4, 0, 0x400800, 16, 16⟩]

/-- An image whose segments are one behind the other. -/
theorem Image.wellFormed_of_apart {img : Image} (hvalid : elfValidate img = true)
    (hsize : img.size < 2 ^ 64) (htable : img.phoff + img.phnum * img.phentsize ≤ img.size)
    (hsegs : ∀ i < img.phnum, (img.phdr i).offset + (img.phdr i).filesz ≤ img.size ∧
      (img.phdr i).filesz ≤ (img.phdr i).memsz ∧
      (img.phdr i).vaddr + (img.phdr i).memsz + 0xFFF < 2 ^ 64)
    (hapart : ∀ i < img.phnum, ∀ j < img.phnum, i ≠ j →
      (img.phdr i).vaddr + (img.phdr i).memsz ≤ (img.phdr j).vaddr ∨
      (img.phdr j).vaddr + (img.phdr j).memsz ≤ (img.phdr i).vaddr) : img.WellFormed where
  valid := hvalid
  size_lt := hsize
  table := htable
  file i hi := (hsegs i hi.1).1
  filesz_le i hi := (hsegs i hi.1).2.1
  nowrap i hi := (hsegs i hi.1).2.2
  disjoint i j hi hj hne k l hk hl := by
    have := hapart i hi.1 j hj.1 hne
    omega

/-- A machine before `vmm_init` that has nine frames. -/
def nineFrames : Mach FrameOracle := { sampleMach with
  frames := ⟨[0x1000, 0x2000, 0x3000, 0x4000, 0x5000, 0x6000, 0x7000, 0x8000, 0x9000],
    by decide, by decide⟩ }

theorem vmInv_nineFrames : VmInv (newPml4 nineFrames) := (newPml4_spec rfl (by decide) rfl).1

theorem plenty_nineFrames :
    Plenty (newPml4 nineFrames).frames 8 ∧ (newPml4 nineFrames).oom = false := by
  have hplenty : Plenty nineFrames.frames (8 + 1) := by
    simp [nineFrames, Plenty, FrameSource.alloc, FrameOracle.tail]
  obtain ⟨h8, hoom⟩ := Draws.allocTable.supply nineFrames 8 hplenty
  rw [newPml4_frames, newPml4_oom, hoom]
  exact ⟨h8, rfl⟩

/-- The nine frames are enough for two segments of a page. -/
theorem oom_nineFrames (img : Image) (hnum : img.phnum ≤ 2)
    (hpages : ∀ i, i < img.phnum → (img.phdr i).type = ptLoad → (img.phdr i).pageCount ≤ 1) :
    (elfLoad img (newPml4 nineFrames)).2.oom = false := by
  obtain ⟨h8, hoom⟩ := plenty_nineFrames
  exact (((Draws.elfLoad img hpages).mono (l := 8) (by omega)).supply _ 0 h8).2.trans hoom

theorem seg_onePageImage {i : Nat} (hi : onePageImage.Seg i) : i = 0 := by
  have hlt : i < 1 := hi.1
  omega

theorem wellFormed_onePageImage : onePageImage.WellFormed :=
  Image.wellFormed_of_apart (by decide +kernel) (by decide +kernel) (by decide +kernel)
    (by decide +kernel) (by decide +kernel)

theorem wellFormed_twoPageImage : twoPageImage.WellFormed :=
  Image.wellFormed_of_apart (by decide +kernel) (by decide +kernel) (by decide +kernel)
    (by decide +kernel) (by decide +kernel)

theorem wellFormed_sharedPageImage : sharedPageImage.WellFormed :=
  Image.wellFormed_of_apart (by decide +kernel) (by decide +kernel) (by decide +kernel)
    (by decide +kernel) (by decide +kernel)

theorem elfLoad_builds_twoPages :
    ImageBuilt twoPageImage (elfLoad twoPageImage (newPml4 nineFrames)).2 := by
  have hbus := vmInv_nineFrames.bus
  have htwo : ∀ i, twoPageImage.Seg i → i < 2 := fun i hi => hi.1
  have hpage : ∀ i < 2, (twoPageImage.phdr i).pageCount = 1 ∧
      (twoPageImage.phdr i).vaddrStart = 0x400000 + 4096 * i ∧
      (twoPageImage.phdr i).vaddr + (twoPageImage.phdr i).memsz ≤ 2 ^ 48 := by decide +kernel
  refine (elfLoad_builds_iff ?_ wellFormed_twoPageImage (Or.inl hbus)
    (oom_nineFrames _ (by decide) (by decide))).mpr ?_
  · rw [Mach.withBus_self hbus]
    exact vmInv_nineFrames
  · refine Image.composes_of_separate wellFormed_twoPageImage
      (fun i hi => (hpage i (htwo i hi)).2.2) fun i j n hi hj hci hcj => ?_
    have honly : ∀ i, twoPageImage.Seg i → (twoPageImage.phdr i).Covers n → n = 0x400 + i := by
      rintro i hi ⟨l, hl, rfl⟩
      have hlt := htwo i hi
      obtain ⟨hcount, hstart, -⟩ := hpage i hlt
      rw [hcount] at hl
      rw [hstart]
      simp only [pageOf]
      omega
    have := honly i hi hci
    have := honly j hj hcj
    omega

/-- A well-formed image whose first byte is not in memory after `elf_load`, and
whose writable segment is not writable. -/
theorem sharedPage_not_built :
    sharedPageImage.WellFormed ∧ VmInv (newPml4 nineFrames)
      ∧ (elfLoad sharedPageImage (newPml4 nineFrames)).2.oom = false
      ∧ ¬ ImageBuilt sharedPageImage (elfLoad sharedPageImage (newPml4 nineFrames)).2 := by
  have hoom := oom_nineFrames sharedPageImage (by decide) (by decide)
  refine ⟨wellFormed_sharedPageImage, vmInv_nineFrames, hoom, fun hbuilt => ?_⟩
  rw [imageBuilt_iff vmInv_nineFrames wellFormed_sharedPageImage rfl hoom] at hbuilt
  have hcover : sharedPageImage.cover 0x400 = some (sharedPageImage.phdr 1, 0x400000) := by decide
  obtain ⟨ph, page, hlast, hbyte, -⟩ := hbuilt 0 ⟨by decide, by decide⟩ 0 (by decide)
  obtain ⟨rfl, rfl⟩ := Prod.mk.inj (Option.some.inj (hcover.symm.trans hlast))
  exact absurd hbyte (by decide)

end TunaOs
