import TunaOs.Elf.Compose

/-!
# What the loader reads of an image

`elfLoadReads` is `elf_load` with a record of the offsets it reads: the ELF
header, each program header it examines, and each byte it copies for a
segment.  It does to the machine what `elf_load` does (`elfLoadReads_snd`).

The loader checks the end of the program header table, computed with wrapping
arithmetic, and nothing else.  `Image.ReadsWithin` says which images it reads
within their size.
-/

namespace TunaOs

open Word

/-! ## The loader with its reads -/

/-- `sizeof (Elf64_Phdr)`. -/
def phdrSize : Nat := 56

/-- The offset of a program header. -/
def Image.phdrOffset (img : Image) (i : Nat) : Nat := wrap64 (img.phoff + i * img.phentsize)

/-- The offsets copied for a page. -/
def Phdr.copyOffsets (ph : Phdr) (page : Nat) : List Nat :=
  List.range' (ph.srcOffset page) (ph.copyEnd page - ph.copyStart page)

section

variable {σ : Type} [FrameSource σ]

/-- The loop of `load_segment` with the offsets it reads. -/
def readPages (img : Image) (ph : Phdr) : Nat → Nat → Act σ (List Nat)
  | 0, _ => return []
  | n + 1, page => do
    let frame ← allocFrame
    if frame = 0 then return []
    else
      zeroFrame frame
      copyData img ph page frame
      vmmMapPage page frame ph.pageFlags
      event (.invlpg page)
      let rest ← readPages img ph n (page + 4096)
      return ph.copyOffsets page ++ rest

/-- `load_segment` with the offsets it reads. -/
def readSegment (img : Image) (ph : Phdr) : Act σ (List Nat) :=
  readPages img ph ph.pageCount ph.vaddrStart

/-- One turn of the loop of `elf_load` with the offsets it reads. -/
def readHeader (img : Image) (i : Nat) : Act σ (List Nat) := do
  if (img.phdr i).type ≠ ptLoad then return List.range' (img.phdrOffset i) phdrSize
  else
    let segment ← readSegment img (img.phdr i)
    return List.range' (img.phdrOffset i) phdrSize ++ segment

/-- The loop of `elf_load` over the first `n` program headers, with the offsets
it reads. -/
def readHeaders (img : Image) : Nat → Act σ (List Nat)
  | 0 => return []
  | n + 1 => do
    let before ← readHeaders img n
    let header ← readHeader img n
    return before ++ header

/-- `elf_load` with the offsets it reads. -/
def elfLoadReads (img : Image) : Act σ (List Nat) := do
  if img.size < ehdrSize then return []
  else if elfValidate img = false then return List.range' 0 ehdrSize
  else if img.phEnd > img.size then return List.range' 0 ehdrSize
  else
    let rest ← readHeaders img img.phnum
    return List.range' 0 ehdrSize ++ rest

/-! ## It is the loader -/

theorem readPages_snd (img : Image) (ph : Phdr) : ∀ (n page : Nat) (M : Mach σ),
    (readPages img ph n page M).2 = (loadPages img ph n page M).2
  | 0, _, _ => rfl
  | n + 1, page, M => by
      simp only [readPages, loadPages, Act.bind_apply]
      by_cases hf : (allocFrame M).1 = 0
      · simp only [if_pos hf, Act.pure_apply]
      · simp only [if_neg hf, Act.bind_apply, Act.pure_apply, readPages_snd img ph n]

/-- The body of the loop of `elf_load`. -/
def loadHeader (img : Image) (i : Nat) : Act σ Unit :=
  if (img.phdr i).type ≠ ptLoad then pure () else loadSegment img (img.phdr i)

theorem readHeader_snd (img : Image) (i : Nat) (M : Mach σ) :
    (readHeader img i M).2 = (loadHeader img i M).2 := by
  unfold readHeader loadHeader
  by_cases htype : (img.phdr i).type ≠ ptLoad
  · rw [if_pos htype, if_pos htype]
    rfl
  · rw [if_neg htype, if_neg htype]
    exact readPages_snd ..

theorem readHeaders_snd (img : Image) : ∀ (n : Nat) (M : Mach σ),
    (readHeaders img n M).2 = (forLoop n (loadHeader img) M).2
  | 0, _ => rfl
  | n + 1, M => by
      rw [forLoop_succ, readHeaders]
      simp only [Act.bind_apply, Act.pure_apply, readHeaders_snd img n, readHeader_snd]

/-- The reads are those of `elf_load`: the two do the same to the machine. -/
theorem elfLoadReads_snd (img : Image) (M : Mach σ) :
    (elfLoadReads img M).2 = (elfLoad img M).2 := by
  unfold elfLoadReads elfLoad
  by_cases hsize : img.size < ehdrSize
  · have hv : elfValidate img = false := by rw [elfValidate, if_pos hsize]
    simp only [hsize, hv, if_true, Act.pure_apply]
  · rw [if_neg hsize]
    by_cases hv : elfValidate img = false
    · simp only [hv, if_true, Act.pure_apply]
    · rw [if_neg hv, if_neg hv]
      by_cases hp : img.phEnd > img.size
      · simp only [hp, if_true, Act.pure_apply]
      · rw [if_neg hp, if_neg hp]
        exact readHeaders_snd img img.phnum M

/-! ## Which offsets are read -/

/-- What is read for pages is copied for one of them. -/
theorem mem_readPages {img : Image} {ph : Phdr} {o : Nat} : ∀ {n page : Nat} {M : Mach σ},
    o ∈ (readPages img ph n page M).1 → ∃ j, j < n ∧ o ∈ ph.copyOffsets (page + 4096 * j)
  | 0, _, _, h => absurd h List.not_mem_nil
  | n + 1, page, M, h => by
      simp only [readPages, Act.bind_apply] at h
      by_cases hf : (allocFrame M).1 = 0
      · simp only [if_pos hf, Act.pure_apply] at h
        exact absurd h List.not_mem_nil
      · simp only [if_neg hf, Act.bind_apply, Act.pure_apply] at h
        rcases List.mem_append.mp h with h | h
        · exact ⟨0, Nat.succ_pos n, h⟩
        · obtain ⟨j, hj, ho⟩ := mem_readPages h
          refine ⟨j + 1, Nat.succ_lt_succ hj, ?_⟩
          rwa [Nat.mul_succ, Nat.add_comm (4096 * j), ← Nat.add_assoc]

/-- With enough frames, what is copied for each page is read. -/
theorem readPages_all {img : Image} {ph : Phdr} {o : Nat} : ∀ {n page : Nat} {M : Mach σ},
    (loadPages img ph n page M).2.oom = false → ∀ j, j < n →
    o ∈ ph.copyOffsets (page + 4096 * j) → o ∈ (readPages img ph n page M).1
  | 0, _, _, _, j, hj, _ => absurd hj (Nat.not_lt_zero j)
  | n + 1, page, M, hoom, j, hj, ho => by
      simp only [loadPages, readPages, Act.bind_apply] at hoom ⊢
      by_cases hf : (allocFrame M).1 = 0
      · -- the allocator has failed
        simp only [if_pos hf, Act.pure_apply, allocFrame_oom hf] at hoom
        cases hoom
      · simp only [if_neg hf, Act.bind_apply, Act.pure_apply] at hoom ⊢
        cases j with
        | zero => exact List.mem_append_left _ ho
        | succ j =>
            refine List.mem_append_right _ (readPages_all hoom j (Nat.lt_of_succ_lt_succ hj) ?_)
            rwa [Nat.mul_succ, Nat.add_comm (4096 * j), ← Nat.add_assoc] at ho

/-- The offsets that the loop of `elf_load` reads for header `i` if it does not
run out of frames. -/
def Image.HeaderReads (img : Image) (i o : Nat) : Prop :=
  o ∈ List.range' (img.phdrOffset i) phdrSize ∨
    ((img.phdr i).type = ptLoad ∧ ∃ j, j < (img.phdr i).pageCount ∧
      o ∈ (img.phdr i).copyOffsets ((img.phdr i).vaddrStart + 4096 * j))

theorem mem_readHeader {img : Image} {i o : Nat} {M : Mach σ} (h : o ∈ (readHeader img i M).1) :
    img.HeaderReads i o := by
  unfold readHeader at h
  by_cases htype : (img.phdr i).type ≠ ptLoad
  · rw [if_pos htype] at h
    exact Or.inl h
  · rw [if_neg htype] at h
    simp only [Act.bind_apply, Act.pure_apply] at h
    rcases List.mem_append.mp h with h | h
    · exact Or.inl h
    · exact Or.inr ⟨not_not.mp htype, mem_readPages h⟩

theorem readHeader_all {img : Image} {i o : Nat} {M : Mach σ}
    (hoom : (loadHeader img i M).2.oom = false) (h : img.HeaderReads i o) :
    o ∈ (readHeader img i M).1 := by
  unfold readHeader
  unfold loadHeader at hoom
  by_cases htype : (img.phdr i).type ≠ ptLoad
  · rw [if_pos htype]
    exact h.resolve_right fun h => htype h.1
  · rw [if_neg htype] at hoom ⊢
    simp only [Act.bind_apply, Act.pure_apply]
    rcases h with h | ⟨-, j, hj, h⟩
    · exact List.mem_append_left _ h
    · exact List.mem_append_right _ (readPages_all hoom j hj h)

theorem mem_readHeaders {img : Image} {o : Nat} {M : Mach σ} : ∀ {n : Nat},
    o ∈ (readHeaders img n M).1 → ∃ i, i < n ∧ img.HeaderReads i o
  | 0, h => absurd h List.not_mem_nil
  | n + 1, h => by
      simp only [readHeaders, Act.bind_apply, Act.pure_apply] at h
      rcases List.mem_append.mp h with h | h
      · obtain ⟨i, hi, h⟩ := mem_readHeaders h
        exact ⟨i, Nat.lt_succ_of_lt hi, h⟩
      · exact ⟨n, Nat.lt_succ_self n, mem_readHeader h⟩

/-- A loop over headers that ends without having run out of frames. -/
theorem loadHeader_oom {img : Image} {i : Nat} {M : Mach σ}
    (h : (loadHeader img i M).2.oom = false) : M.oom = false := by
  have hkeeps : Keeps (fun M => M.oom = true) (loadHeader img i : Act σ Unit) := by
    unfold loadHeader
    split
    · exact fun _ h => h
    · exact (primitive_oom (σ := σ)).loadPages _ _ _ _
  cases hM : M.oom with
  | false => rfl
  | true => exact absurd (h.symm.trans (hkeeps M hM)) Bool.false_ne_true

theorem readHeaders_all {img : Image} {i o : Nat} {M : Mach σ} : ∀ {n : Nat},
    (forLoop n (loadHeader img) M).2.oom = false → i < n → img.HeaderReads i o →
    o ∈ (readHeaders img n M).1
  | 0, _, hi, _ => absurd hi (Nat.not_lt_zero i)
  | n + 1, hoom, hi, h => by
      rw [forLoop_succ] at hoom
      simp only [readHeaders, Act.bind_apply, Act.pure_apply] at hoom ⊢
      by_cases hin : i = n
      · refine List.mem_append_right _ (readHeader_all ?_ (hin ▸ h))
        rw [readHeaders_snd]
        exact hoom
      · exact List.mem_append_left _ (readHeaders_all (loadHeader_oom hoom) (by omega) h)

/-! ## Reads within the image -/

/-- The number of bytes that `load_segment` copies from the image. -/
def Phdr.copied (ph : Phdr) : Nat :=
  min ph.vaddrEnd (wrap64 (ph.vaddr + ph.filesz)) - ph.vaddr

/-- The program headers lie in the image, and so does what is copied for each
segment. -/
def Image.ReadsWithin (img : Image) : Prop :=
  img.accepted = true → ∀ i, i < img.phnum → img.phdrOffset i + phdrSize ≤ img.size ∧
    ((img.phdr i).type = ptLoad →
      (img.phdr i).copied = 0 ∨ (img.phdr i).offset + (img.phdr i).copied ≤ img.size)

/-- The bounds of what is copied for a page. -/
theorem Phdr.copy_bounds {ph : Phdr} (hv : ph.vaddr < 2 ^ 64) {j : Nat} (hj : j < ph.pageCount) :
    ph.vaddr ≤ ph.copyStart (ph.vaddrStart + 4096 * j) ∧
      ph.copyEnd (ph.vaddrStart + 4096 * j) ≤ ph.vaddrEnd ∧
      ph.copyEnd (ph.vaddrStart + 4096 * j) ≤ wrap64 (ph.vaddr + ph.filesz) := by
  have hlt := ph.page_lt hj
  have hend : ph.vaddrStart + 4096 * j + 4096 ≤ ph.vaddrEnd := by
    have h1 := ph.vaddrStart_mod hv
    have h2 := ph.vaddrEnd_eq
    rw [Phdr.pageCount] at hj
    omega
  refine ⟨?_, ?_, ?_⟩
  · unfold Phdr.copyStart
    split <;> omega
  · simp only [Phdr.copyEnd, wrap64_of_lt hlt]
    split <;> omega
  · simp only [Phdr.copyEnd, wrap64_of_lt hlt]
    split <;> omega

/-- What is copied for a page lies in what is copied for the segment. -/
theorem Phdr.copyOffsets_lt {ph : Phdr} (hv : ph.vaddr < 2 ^ 64) {j o : Nat}
    (hj : j < ph.pageCount) (ho : o ∈ ph.copyOffsets (ph.vaddrStart + 4096 * j)) :
    0 < ph.copied ∧ o < ph.offset + ph.copied := by
  obtain ⟨hstart, hend, hdata⟩ := ph.copy_bounds hv hj
  rw [Phdr.copyOffsets, List.mem_range'_1] at ho
  have hsrc : ph.srcOffset (ph.vaddrStart + 4096 * j)
      ≤ ph.offset + (ph.copyStart (ph.vaddrStart + 4096 * j) - ph.vaddr) := Nat.mod_le ..
  unfold Phdr.copied
  omega

/-- Every byte of the segment's file data is copied, unless an earlier one is at
the last offset there is. -/
theorem Phdr.copyOffsets_reach {ph : Phdr} (hv : ph.vaddr < 2 ^ 64) {k : Nat} (hk : k < ph.copied)
    (ho : ph.offset + k < 2 ^ 64) :
    ∃ j, j < ph.pageCount ∧ ph.offset + k ∈ ph.copyOffsets (ph.vaddrStart + 4096 * j) := by
  have h1 : ph.vaddrStart = ph.vaddr / 4096 * 4096 := pageMask_eq hv
  have h2 := ph.vaddrEnd_eq
  rw [Phdr.copied] at hk
  -- the page of the byte
  have hj : (ph.vaddr + k) / 4096 - ph.vaddr / 4096 < ph.pageCount := by
    rw [Phdr.pageCount]
    omega
  have hlt := ph.page_lt hj
  refine ⟨_, hj, ?_⟩
  generalize hpage : ph.vaddrStart + 4096 * ((ph.vaddr + k) / 4096 - ph.vaddr / 4096) = page at hlt
  have hin : page ≤ ph.vaddr + k ∧ ph.vaddr + k < page + 4096 := by omega
  have hstart : ph.vaddr ≤ ph.copyStart page ∧ ph.copyStart page ≤ ph.vaddr + k := by
    unfold Phdr.copyStart
    split <;> omega
  have hend : ph.vaddr + k < ph.copyEnd page := by
    simp only [Phdr.copyEnd, wrap64_of_lt hlt]
    split <;> omega
  have hsrc : ph.srcOffset page = ph.offset + (ph.copyStart page - ph.vaddr) :=
    wrap64_of_lt (by omega)
  rw [Phdr.copyOffsets, List.mem_range'_1, hsrc]
  omega

theorem Image.headerReads_lt {img : Image} {i o : Nat}
    (hphdr : img.phdrOffset i + phdrSize ≤ img.size)
    (hcopy : (img.phdr i).type = ptLoad →
      (img.phdr i).copied = 0 ∨ (img.phdr i).offset + (img.phdr i).copied ≤ img.size)
    (h : img.HeaderReads i o) : o < img.size := by
  rcases h with h | ⟨htype, j, hj, h⟩
  · rw [List.mem_range'_1] at h
    omega
  · obtain ⟨hpos, hlt⟩ := Phdr.copyOffsets_lt (img.phdr_vaddr_lt i) hj h
    have := hcopy htype
    omega

theorem Image.within_of_headerReads {img : Image} {i : Nat} (hsize : img.size < 2 ^ 64)
    (h : ∀ o, img.HeaderReads i o → o < img.size) :
    img.phdrOffset i + phdrSize ≤ img.size ∧ ((img.phdr i).type = ptLoad →
      (img.phdr i).copied = 0 ∨ (img.phdr i).offset + (img.phdr i).copied ≤ img.size) := by
  constructor
  · have := h (img.phdrOffset i + 55) (Or.inl (by
      rw [List.mem_range'_1, phdrSize]
      omega))
    simp only [phdrSize]
    omega
  · intro htype
    rcases Nat.eq_zero_or_pos (img.phdr i).copied with hzero | hpos
    · exact Or.inl hzero
    · right
      have hoff : (img.phdr i).offset < 2 ^ 64 := img.bytes.load_lt 8 _
      have hread : ∀ k, k < (img.phdr i).copied → (img.phdr i).offset + k < 2 ^ 64 →
          (img.phdr i).offset + k < img.size := fun k hk hlt => by
        obtain ⟨j, hj, hmem⟩ := Phdr.copyOffsets_reach (img.phdr_vaddr_lt i) hk hlt
        exact h _ (Or.inr ⟨htype, j, hj, hmem⟩)
      by_cases hwrap : (img.phdr i).offset + ((img.phdr i).copied - 1) < 2 ^ 64
      · have := hread _ (by omega) hwrap
        omega
      · -- the offset `2 ^ 64 - 1` would be read
        have := hread (2 ^ 64 - 1 - (img.phdr i).offset) (by omega) (by omega)
        omega

/-- Of an image that it rejects, the loader reads the header, if there is one. -/
theorem elfLoadReads_rejected {img : Image} (hacc : ¬ img.accepted = true) (M : Mach σ) {o : Nat}
    (ho : o ∈ (elfLoadReads img M).1) : o < img.size := by
  unfold elfLoadReads at ho
  by_cases hsmall : img.size < ehdrSize
  · rw [if_pos hsmall] at ho
    exact absurd ho List.not_mem_nil
  have hheader : o ∈ List.range' 0 ehdrSize → o < img.size := fun h => by
    rw [List.mem_range'_1] at h
    omega
  rw [if_neg hsmall] at ho
  by_cases hv : elfValidate img = false
  · rw [if_pos hv] at ho
    exact hheader ho
  · rw [if_neg hv, if_pos (by simpa [Image.accepted, hv] using hacc)] at ho
    exact hheader ho

/-- Of an image that it accepts, the loader reads the header and what the loop
over the program headers reads. -/
theorem elfLoadReads_accepted {img : Image} (hacc : img.accepted = true) (M : Mach σ) :
    ehdrSize ≤ img.size ∧
      (elfLoadReads img M).1 = List.range' 0 ehdrSize ++ (readHeaders img img.phnum M).1 := by
  simp only [Image.accepted, Bool.and_eq_true, decide_eq_true_eq] at hacc
  have hsmall : ¬ img.size < ehdrSize := fun hsmall => by
    have hv := hacc.1
    rw [elfValidate, if_pos hsmall] at hv
    cases hv
  refine ⟨Nat.le_of_not_lt hsmall, ?_⟩
  simp only [elfLoadReads, if_neg hsmall, hacc.1, Bool.true_eq_false, if_false,
    Nat.not_lt.mpr hacc.2, Act.bind_apply, Act.pure_apply]

/-- That a request failed earlier changes nothing in what is read. -/
theorem OomBlind.readPages (img : Image) (ph : Phdr) : ∀ n page,
    OomBlind (TunaOs.readPages img ph n page : Act σ (List Nat))
  | 0, _ => primitive_oomBlind.pure _
  | n + 1, page => by
      refine .bind primitive_oomBlind.allocFrame fun frame => Closed.ite
        (primitive_oomBlind.pure _) ?_
      refine .bind (primitive_oomBlind.zeroFrame frame) fun _ => ?_
      refine .bind (primitive_oomBlind.copyData img ph page frame) fun _ => ?_
      refine .bind (primitive_oomBlind.vmmMapPage page frame ph.pageFlags) fun _ => ?_
      refine .bind (primitive_oomBlind.invlpg page) fun _ => ?_
      exact .bind (OomBlind.readPages img ph n (page + 4096)) fun _ => primitive_oomBlind.pure _

theorem OomBlind.readHeaders (img : Image) : ∀ n,
    OomBlind (TunaOs.readHeaders img n : Act σ (List Nat))
  | 0 => primitive_oomBlind.pure _
  | n + 1 => by
      refine .bind (OomBlind.readHeaders img n) fun _ => ?_
      refine .bind (Closed.ite (primitive_oomBlind.pure _) ?_) fun _ =>
        primitive_oomBlind.pure _
      exact .bind (OomBlind.readPages img _ _ _) fun _ => primitive_oomBlind.pure _

theorem OomBlind.elfLoadReads (img : Image) :
    OomBlind (TunaOs.elfLoadReads img : Act σ (List Nat)) :=
  Closed.ite (primitive_oomBlind.pure _) <|
    Closed.ite (primitive_oomBlind.pure _) <|
      Closed.ite (primitive_oomBlind.pure _) <|
        .bind (OomBlind.readHeaders img _) fun _ => primitive_oomBlind.pure _

theorem readsWithin_of_reads {img : Image} (hsize : img.size < 2 ^ 64) {M : Mach σ}
    (hoom : (elfLoad img M).2.oom = false) (hreads : ∀ o ∈ (elfLoadReads img M).1, o < img.size) :
    img.ReadsWithin := by
  intro hacc i hi
  rw [elfLoad_accepted hacc] at hoom
  refine img.within_of_headerReads hsize fun o ho => hreads o ?_
  rw [(elfLoadReads_accepted hacc M).2]
  exact List.mem_append_right _ (readHeaders_all hoom hi ho)

theorem ReadsWithin.reads_lt {img : Image} (hwithin : img.ReadsWithin) (M : Mach σ) {o : Nat}
    (ho : o ∈ (elfLoadReads img M).1) : o < img.size := by
  by_cases hacc : img.accepted = true
  · obtain ⟨hlarge, hreads⟩ := elfLoadReads_accepted hacc M
    rw [hreads] at ho
    rcases List.mem_append.mp ho with ho | ho
    · rw [List.mem_range'_1] at ho
      omega
    · obtain ⟨i, hi, h⟩ := mem_readHeaders ho
      obtain ⟨hphdr, hcopy⟩ := hwithin hacc i hi
      exact img.headerReads_lt hphdr hcopy h
  · exact elfLoadReads_rejected hacc M ho

/-- The loader of an image reads within its size if the headers and the file ranges of the
segments do, and only then if it does not run out of frames: where the tables are in order, if
there are frames for its pages and the missing tables. -/
theorem elfLoad_reads_iff {img : Image} (hsize : img.size < 2 ^ 64) (M : Mach σ) :
    (img.ReadsWithin → ∀ o ∈ (elfLoadReads img M).1, o < img.size) ∧
      ((elfLoad img M).2.oom = false → (∀ o ∈ (elfLoadReads img M).1, o < img.size) →
        img.ReadsWithin) ∧
      (VmInv M → Plenty M.frames (img.loadCost M.tables) →
        ((∀ o ∈ (elfLoadReads img M).1, o < img.size) ↔ img.ReadsWithin)) := by
  refine ⟨fun h _ ho => ReadsWithin.reads_lt h M ho, readsWithin_of_reads hsize,
    fun hinv hplenty => ⟨fun hreads => ?_, fun h _ ho => ReadsWithin.reads_lt h M ho⟩⟩
  refine readsWithin_of_reads (M := M.withOom false) hsize
    ((elfLoad_oom_iff img hinv).mpr hplenty) ?_
  rwa [(OomBlind.elfLoadReads img).result M false]

end

/-- A file whose only segment lies in it. -/
theorem elfLoad_reads_onePage :
    onePageImage.accepted = true ∧
      ∀ o ∈ (elfLoadReads onePageImage (newPml4 nineFrames)).1, o < onePageImage.size := by
  have hacc := wellFormed_onePageImage.accepted
  refine ⟨hacc, (elfLoad_reads_iff (by decide +kernel) _).1 fun _ i hi => ?_⟩
  obtain rfl : i = 0 := Nat.lt_one_iff.mp hi
  exact ⟨by decide +kernel, fun _ => Or.inr (by decide +kernel)⟩

/-- A file of 120 bytes with a segment whose file data is said to be at offset
`0x1000`. -/
def farDataImage : Image := elfFile 0x400000 [⟨1, 5, 0x1000, 0x400000, 16, 16⟩]

/-- The loader accepts the file and copies bytes from far behind its end. -/
theorem farData_read :
    farDataImage.size = 120 ∧ farDataImage.accepted = true ∧
      0x1000 ∈ (elfLoadReads farDataImage (newPml4 nineFrames)).1 := by
  have hacc : farDataImage.accepted = true := by decide +kernel
  refine ⟨by decide +kernel, hacc, ?_⟩
  have hoom := oom_nineFrames farDataImage (by decide +kernel) (by decide +kernel)
  rw [elfLoad_accepted hacc] at hoom
  rw [(elfLoadReads_accepted hacc _).2]
  refine List.mem_append_right _ (readHeaders_all hoom (show 0 < 1 by decide) (Or.inr ?_))
  exact ⟨by decide +kernel, 0, by decide +kernel, by decide +kernel⟩

end TunaOs
