import TunaOs.Elf.Reads

/-!
# Copies of an image

A file is a copy of an image, with other bytes behind its end.  If the loader reads the image
within its size (`Image.ReadsWithin`), then it treats the copy as it treats the image: both
have the same headers, cover the same pages, and put the same bytes on them.
-/

namespace TunaOs

/-- `img'` has the size and the bytes of `img`. -/
structure Image.Copied (img img' : Image) : Prop where
  size : img'.size = img.size
  bytes : ∀ i, i < img.size → img'.bytes i = img.bytes i

theorem ehdrSize_le_of_elfValidate {img : Image} (h : elfValidate img = true) :
    ehdrSize ≤ img.size := by
  by_contra hsmall
  rw [elfValidate, if_pos (Nat.lt_of_not_le hsmall)] at h
  cases h

theorem ehdrSize_le_of_accepted {img : Image} (h : img.accepted = true) : ehdrSize ≤ img.size :=
  ehdrSize_le_of_elfValidate (Bool.and_eq_true_iff.mp h).1

namespace Image.Copied

variable {img img' : Image} (h : img.Copied img')

include h

theorem load {a n : Nat} (ha : a + n ≤ img.size) : img'.bytes.load a n = img.bytes.load a n :=
  Mem.load_congr fun x _ hx => h.bytes x (by omega)

/-! ## Headers -/

theorem ident (hsize : ehdrSize ≤ img.size) {i : Nat} (hi : i < ehdrSize) :
    img'.ident i = img.ident i :=
  congrArg UInt8.toNat (h.bytes i (Nat.lt_of_lt_of_le hi hsize))

/-- A field of the ELF header. -/
theorem field (hsize : ehdrSize ≤ img.size) {a n : Nat} (ha : a + n ≤ ehdrSize) :
    img'.bytes.load a n = img.bytes.load a n := h.load (Nat.le_trans ha hsize)

theorem elfValidate : TunaOs.elfValidate img' = TunaOs.elfValidate img := by
  rw [TunaOs.elfValidate, TunaOs.elfValidate, h.size]
  by_cases hsmall : img.size < ehdrSize
  · rw [if_pos hsmall, if_pos hsmall]
  · have hsize := Nat.le_of_not_lt hsmall
    have hid : ∀ i, i < 16 → img'.ident i = img.ident i := fun i hi =>
      h.ident hsize (Nat.lt_of_lt_of_le hi (by decide))
    have htype : img'.type = img.type := h.field hsize (by decide)
    have hmachine : img'.machine = img.machine := h.field hsize (by decide)
    rw [hid 0 (by decide), hid 1 (by decide), hid 2 (by decide), hid 3 (by decide),
      hid 4 (by decide), hid 5 (by decide), htype, hmachine]

theorem phEnd (hsize : ehdrSize ≤ img.size) : img'.phEnd = img.phEnd := by
  have hphoff : img'.phoff = img.phoff := h.field hsize (by decide)
  have hphnum : img'.phnum = img.phnum := h.field hsize (by decide)
  have hphentsize : img'.phentsize = img.phentsize := h.field hsize (by decide)
  rw [Image.phEnd, Image.phEnd, hphoff, hphnum, hphentsize]

theorem accepted : img'.accepted = img.accepted := by
  rw [Image.accepted, Image.accepted, h.elfValidate]
  cases hvalid : TunaOs.elfValidate img with
  | false => rfl
  | true => rw [h.phEnd (ehdrSize_le_of_elfValidate hvalid), h.size]

theorem entry (hacc : img.accepted = true) : img'.entry = img.entry :=
  h.field (ehdrSize_le_of_accepted hacc) (by decide)

theorem phnum (hacc : img.accepted = true) : img'.phnum = img.phnum :=
  h.field (ehdrSize_le_of_accepted hacc) (by decide)

/-! ## Segments -/

section

variable (hacc : img.accepted = true) (hreads : img.ReadsWithin)

include hacc hreads

theorem phdr {i : Nat} (hi : i < img.phnum) : img'.phdr i = img.phdr i := by
  have hsize := ehdrSize_le_of_accepted hacc
  have hphoff : img'.phoff = img.phoff := h.field hsize (by decide)
  have hphentsize : img'.phentsize = img.phentsize := h.field hsize (by decide)
  have hin : Word.wrap64 (img.phoff + i * img.phentsize) + 56 ≤ img.size := (hreads hacc i hi).1
  simp only [Image.phdr, hphoff, hphentsize]
  rw [h.load (n := 4) (by omega), h.load (n := 4) (by omega), h.load (n := 8) (by omega),
    h.load (n := 8) (by omega), h.load (n := 8) (by omega), h.load (n := 8) (by omega)]

theorem lastCover (n : Nat) : ∀ {i : Nat}, i ≤ img.phnum → img'.lastCover i n = img.lastCover i n
  | 0, _ => rfl
  | i + 1, hi => by
      rw [Image.lastCover, Image.lastCover, h.phdr hacc hreads hi,
        lastCover n (Nat.le_of_succ_le hi)]

/-- The copy covers the same pages. -/
theorem cover (n : Nat) : img'.cover n = img.cover n := by
  rw [Image.cover, Image.cover, h.phnum hacc]
  exact h.lastCover hacc hreads n (Nat.le_refl _)

/-- And has the same bytes for them. -/
theorem pageByte {n page : Nat} {ph : Phdr} (hc : img.cover n = some (ph, page)) (k : Nat) :
    ph.pageByte img' page k = ph.pageByte img page k := by
  obtain ⟨-, i, hi, rfl, htype, j, hj, rfl⟩ := Image.lastCover_eq_some hc
  rw [Phdr.pageByte, Phdr.pageByte]
  split
  case isTrue hin =>
    refine h.bytes _ ?_
    have hcopied := Phdr.copyOffsets_lt (img.phdr_vaddr_lt i) hj (List.mem_range'_1.mpr
      ⟨Nat.le_add_right _ _, Nat.add_lt_add_left (Nat.sub_lt_sub_right hin.1 hin.2) _⟩)
    rcases (hreads hacc i hi).2 htype with hzero | hend
    · omega
    · omega
  case isFalse => rfl

end

end Image.Copied

end TunaOs
