import TunaOs.Lib.Bytes
import TunaOs.Vmm.Model

/-!
# The ELF loader

The model of `elf.c`.  An `Image` is what `elf_load` gets: a pointer, here the
bytes from it on, and a size.  The loader checks the size for the header and the
program header table only, so `bytes` is defined beyond `size` as well.  Fields
of the headers that no code reads (`p_paddr`, `p_align`, the section table) are
left out, and so are the diagnostics.  The bytes of an image are not those of
`Mach.mem`: that `elf_load` could overwrite the image it reads, or the code and the
variables of the kernel, is not in the model.

The loop of `load_segment` over the pages is `loadPages`, with the number of
pages as its argument: `page` runs in steps of a page from one multiple of the
page size to another, so it does not wrap.
-/

namespace TunaOs

open Word

/-! ## Images -/

/-- An ELF image in memory. -/
structure Image where
  /-- The bytes from the image's address on. -/
  bytes : Mem
  /-- Its size. -/
  size : Nat

/-- The fields of `Elf64_Phdr` that the loader reads. -/
structure Phdr where
  /-- `p_type`. -/
  type : Nat
  /-- `p_flags`. -/
  flags : Nat
  /-- `p_offset`. -/
  offset : Nat
  /-- `p_vaddr`. -/
  vaddr : Nat
  /-- `p_filesz`. -/
  filesz : Nat
  /-- `p_memsz`. -/
  memsz : Nat
deriving DecidableEq, Repr

/-- `PT_LOAD`. -/
def ptLoad : Nat := 1

/-- `PF_W`. -/
def pfW : Nat := 0x2

/-- `sizeof (Elf64_Ehdr)`. -/
def ehdrSize : Nat := 64

/-- `e_ident[i]`. -/
def Image.ident (img : Image) (i : Nat) : Nat := (img.bytes i).toNat

/-- `e_type`. -/
def Image.type (img : Image) : Nat := img.bytes.load 16 2

/-- `e_machine`. -/
def Image.machine (img : Image) : Nat := img.bytes.load 18 2

/-- `e_entry`. -/
def Image.entry (img : Image) : Nat := img.bytes.load 24 8

/-- `e_phoff`. -/
def Image.phoff (img : Image) : Nat := img.bytes.load 32 8

/-- `e_phentsize`. -/
def Image.phentsize (img : Image) : Nat := img.bytes.load 54 2

/-- `e_phnum`. -/
def Image.phnum (img : Image) : Nat := img.bytes.load 56 2

/-- `(const Elf64_Phdr *)(img + ehdr->e_phoff + (uint64_t)i * ehdr->e_phentsize)`. -/
def Image.phdr (img : Image) (i : Nat) : Phdr :=
  let base := wrap64 (img.phoff + i * img.phentsize)
  { type := img.bytes.load base 4
    flags := img.bytes.load (base + 4) 4
    offset := img.bytes.load (base + 8) 8
    vaddr := img.bytes.load (base + 16) 8
    filesz := img.bytes.load (base + 32) 8
    memsz := img.bytes.load (base + 40) 8 }

/-- `elf_validate`. -/
def elfValidate (img : Image) : Bool :=
  if img.size < ehdrSize then false
  else if img.ident 0 ≠ 0x7f ∨ img.ident 1 ≠ 0x45 ∨ img.ident 2 ≠ 0x4c ∨ img.ident 3 ≠ 0x46 then
    false
  else if img.ident 4 ≠ 2 then false
  else if img.ident 5 ≠ 1 then false
  else if img.type ≠ 2 then false
  else if img.machine ≠ 62 then false
  else true

/-- `ph_end`. -/
def Image.phEnd (img : Image) : Nat := wrap64 (img.phoff + img.phnum * img.phentsize)

/-- The checks of `elf_load` before it loads a segment. -/
def Image.accepted (img : Image) : Bool := elfValidate img && decide (img.phEnd ≤ img.size)

/-! ## Segments -/

/-- `vaddr_start`. -/
def Phdr.vaddrStart (ph : Phdr) : Nat := ph.vaddr &&& pageMask

/-- `vaddr_end`. -/
def Phdr.vaddrEnd (ph : Phdr) : Nat := wrap64 (ph.vaddr + ph.memsz + 0xFFF) &&& pageMask

/-- The number of pages of the loop in `load_segment`. -/
def Phdr.pageCount (ph : Phdr) : Nat := (ph.vaddrEnd - ph.vaddrStart) / 4096

/-- The page flags of a segment. -/
def Phdr.pageFlags (ph : Phdr) : Nat :=
  if ph.flags &&& pfW ≠ 0 then vmmFlagPresent ||| vmmFlagUser ||| vmmFlagWrite
  else vmmFlagPresent ||| vmmFlagUser

/-- `copy_start` for a page. -/
def Phdr.copyStart (ph : Phdr) (page : Nat) : Nat := if page > ph.vaddr then page else ph.vaddr

/-- `copy_end` for a page. -/
def Phdr.copyEnd (ph : Phdr) (page : Nat) : Nat :=
  let pageEnd := wrap64 (page + 4096)
  let segDataEnd := wrap64 (ph.vaddr + ph.filesz)
  if pageEnd < segDataEnd then pageEnd else segDataEnd

/-- `src_offset` for a page. -/
def Phdr.srcOffset (ph : Phdr) (page : Nat) : Nat :=
  wrap64 (ph.offset + (ph.copyStart page - ph.vaddr))

section

variable {σ : Type} [FrameSource σ]

/-- Zeroing a frame. -/
def zeroFrame (frame : Nat) : Act σ Unit := forLoop 4096 fun i => store8 (frame + i) 0

/-- Copying the file data that falls within a page. -/
def copyData (img : Image) (ph : Phdr) (page frame : Nat) : Act σ Unit :=
  let copyStart := ph.copyStart page
  let copyEnd := ph.copyEnd page
  if copyStart < copyEnd then
    forLoop (copyEnd - copyStart) fun i =>
      store8 (frame + (copyStart - page) + i) (img.bytes (ph.srcOffset page + i))
  else pure ()

/-- The loop of `load_segment` with `n` pages to go.  It returns early when there
is no frame. -/
def loadPages (img : Image) (ph : Phdr) : Nat → Nat → Act σ Unit
  | 0, _ => pure ()
  | n + 1, page => do
    let frame ← allocFrame
    if frame = 0 then pure ()
    else
      zeroFrame frame
      copyData img ph page frame
      vmmMapPage page frame ph.pageFlags
      event (.invlpg page)
      loadPages img ph n (page + 4096)

/-- `load_segment`. -/
def loadSegment (img : Image) (ph : Phdr) : Act σ Unit :=
  loadPages img ph ph.pageCount ph.vaddrStart

/-- `elf_load`: the entry point, or 0. -/
def elfLoad (img : Image) : Act σ Nat := do
  if elfValidate img = false then return 0
  else if img.phEnd > img.size then return 0
  else
    forLoop img.phnum fun i =>
      if (img.phdr i).type ≠ ptLoad then pure () else loadSegment img (img.phdr i)
    return img.entry

/-! ## Properties of programs -/

section

variable {C : {β : Type} → Act σ β → Prop}

theorem Silent.zeroFrame (hC : Silent C) (frame : Nat) :
    C (TunaOs.zeroFrame frame : Act σ Unit) := hC.forLoop (fun _ => hC.store8 ..) _

theorem Silent.copyData (hC : Silent C) (img : Image) (ph : Phdr) (page frame : Nat) :
    C (TunaOs.copyData img ph page frame : Act σ Unit) :=
  Closed.ite (hC.forLoop (fun _ => hC.store8 ..) _) (hC.pure _)

theorem Access.loadPages (hC : Access C) (img : Image) (ph : Phdr) :
    ∀ n page, C (TunaOs.loadPages img ph n page : Act σ Unit)
  | 0, _ => hC.pure _
  | n + 1, page => by
      refine hC.bind hC.allocFrame fun frame => Closed.ite (hC.pure _) ?_
      refine hC.bind (hC.zeroFrame _) fun _ => hC.bind (hC.copyData ..) fun _ => ?_
      refine hC.bind (hC.vmmMapPage ..) fun _ => hC.bind (hC.invlpg _) fun _ => ?_
      exact Access.loadPages hC img ph n _

theorem Access.elfLoad (hC : Access C) (img : Image) : C (TunaOs.elfLoad img : Act σ Nat) := by
  refine Closed.ite (hC.pure _) (Closed.ite (hC.pure _) (hC.bind (hC.forLoop (fun i => ?_) _) ?_))
  · exact Closed.ite (hC.pure _) (hC.loadPages ..)
  · exact fun _ => hC.pure _

end

/-- What `elf_load` returns depends on the image only. -/
theorem elfLoad_fst (img : Image) (M : Mach σ) :
    (elfLoad img M).1 = if img.accepted then img.entry else 0 := by
  have hphEnd : ¬ img.phEnd > img.size ↔ img.phEnd ≤ img.size := Nat.not_lt
  unfold elfLoad Image.accepted
  by_cases hv : elfValidate img = false
  · simp [hv, Act.pure_apply]
  · rw [if_neg hv]
    simp only [Bool.not_eq_false] at hv
    by_cases hp : img.phEnd > img.size
    · simp [hp, Act.pure_apply, Nat.not_le.mpr hp]
    · simp only [hp, if_false, Act.bind_apply, Act.pure_apply, hv, hphEnd.mp hp, decide_true,
        Bool.and_self, if_true]

end

/-! ## Files made of headers -/

open Mem (leBytes)

/-- A program header as it stands in a file. -/
def Phdr.encode (ph : Phdr) : List UInt8 :=
  leBytes 4 ph.type ++ leBytes 4 ph.flags ++ leBytes 8 ph.offset ++
    leBytes 8 ph.vaddr ++ leBytes 8 ph.vaddr ++ leBytes 8 ph.filesz ++
    leBytes 8 ph.memsz ++ leBytes 8 0x1000

/-- An ELF file that consists of its headers. -/
def elfFile (entry : Nat) (phs : List Phdr) : Image :=
  let file := [0x7f, 0x45, 0x4c, 0x46, 2, 1, 1] ++ List.replicate 9 0 ++ leBytes 2 2 ++
    leBytes 2 62 ++ leBytes 4 1 ++ leBytes 8 entry ++ leBytes 8 64 ++
    leBytes 8 0 ++ leBytes 4 0 ++ leBytes 2 64 ++ leBytes 2 56 ++
    leBytes 2 phs.length ++ List.replicate 6 0 ++ phs.flatMap Phdr.encode
  ⟨fun i => file.getD i 0, file.length⟩

end TunaOs
