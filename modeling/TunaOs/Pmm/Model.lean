import TunaOs.Lib.Bitmap
import TunaOs.Lib.Loop
import TunaOs.Lib.Word

/-!
# The physical frame allocator

The model of `pmm.c`.  The state is the bitmap, one bit per 4 KiB frame with a
set bit for a frame in use, and the two counters.  The linker symbols
`_kernel_start` and `_kernel_end` are a `KernelImage`, and the memory map is a
list of `MmapRegion`s, as `multiboot2_get_mmap` returns it.

Frame numbers are `uint32_t` in the source, so every conversion to a frame
number goes through `wrap32`, and every sum of addresses through `wrap64`.
Counters wrap at 32 bits.  The diagnostics on the serial line are left out.
-/

namespace TunaOs

open Word

/-- `PMM_PAGE_SIZE`. -/
def pmmPageSize : Nat := 4096

/-- `PMM_MAX_FRAMES`: 128 MiB of frames. -/
def pmmMaxFrames : Nat := 32768

/-- `MULTIBOOT2_MMAP_TYPE_AVAILABLE`. -/
def mmapTypeAvailable : Nat := 1

/-- `struct mmap_region`. -/
structure MmapRegion where
  /-- First byte of the region. -/
  base : Nat
  /-- Its length in bytes. -/
  length : Nat
  /-- Its Multiboot2 type. -/
  type : Nat
deriving Repr, DecidableEq

/-- The addresses the linker gives to `_kernel_start` and `_kernel_end`.  The
32-bit entry code of `boot.S` loads addresses of the image into 32-bit
registers, so real images end far below the bound. -/
structure KernelImage where
  /-- `_kernel_start`. -/
  start : Nat
  /-- `_kernel_end`. -/
  stop : Nat
  /-- The image does not end before it starts. -/
  start_le_stop : start ≤ stop
  /-- The image ends where frame numbers still fit in 32 bits. -/
  stop_le : stop ≤ 2 ^ 44 - 4096

/-- The static state of `pmm.c`. -/
structure Pmm where
  /-- `bitmap`. -/
  bitmap : Bitmap
  /-- `total_frames`. -/
  totalFrames : Nat
  /-- `used_frames`. -/
  usedFrames : Nat

/-! ## Single frames -/

/-- `bitmap_set`. -/
def bitmapSet (s : Pmm) (frame : Nat) : Pmm := { s with bitmap := s.bitmap.set frame }

/-- `bitmap_clear`. -/
def bitmapClear (s : Pmm) (frame : Nat) : Pmm := { s with bitmap := s.bitmap.clear frame }

/-- `bitmap_test`. -/
def bitmapTest (s : Pmm) (frame : Nat) : Bool := s.bitmap.test frame

/-- `used_frames++`. -/
def Pmm.usedInc (s : Pmm) : Pmm := { s with usedFrames := wrap32 (s.usedFrames + 1) }

/-- `used_frames--`, which wraps at 0. -/
def Pmm.usedDec (s : Pmm) : Pmm :=
  { s with usedFrames := if s.usedFrames = 0 then 2 ^ 32 - 1 else s.usedFrames - 1 }

/-- `total_frames++`. -/
def Pmm.totalInc (s : Pmm) : Pmm := { s with totalFrames := wrap32 (s.totalFrames + 1) }

/-! ## `pmm_init` -/

/-- `frame_start` of a region: its first whole frame. -/
def MmapRegion.frameStart (r : MmapRegion) : Nat :=
  wrap32 (wrap64 (r.base + pmmPageSize - 1) / pmmPageSize)

/-- `frame_end` of a region, cut at `PMM_MAX_FRAMES`. -/
def MmapRegion.frameEnd (r : MmapRegion) : Nat :=
  let frameEnd := wrap32 (wrap64 (r.base + r.length) / pmmPageSize)
  if frameEnd > pmmMaxFrames then pmmMaxFrames else frameEnd

/-- The body of the loop over the regions. -/
def freeRegion (s : Pmm) (r : MmapRegion) : Pmm :=
  if r.type ≠ mmapTypeAvailable then s
  else Loop.forRange r.frameStart r.frameEnd (fun f s => (bitmapClear s f).totalInc.usedDec) s

/-- The body shared by the two loops that mark frames as used again. -/
def reserveFrame (f : Nat) (s : Pmm) : Pmm :=
  if bitmapTest s f then s else (bitmapSet s f).usedInc

/-- `low_end`: the first frame at or above 1 MiB. -/
def lowEnd : Nat := 1024 * 1024 / pmmPageSize

/-- `kf_start`. -/
def KernelImage.frameStart (img : KernelImage) : Nat := wrap32 (img.start / pmmPageSize)

/-- `kf_end`, cut at `PMM_MAX_FRAMES`. -/
def KernelImage.frameEnd (img : KernelImage) : Nat :=
  let frameEnd := wrap32 (wrap64 (img.stop + pmmPageSize - 1) / pmmPageSize)
  if frameEnd > pmmMaxFrames then pmmMaxFrames else frameEnd

/-- The first loop of `pmm_init`, which marks every frame as used. -/
def markAllUsed (s : Pmm) : Pmm :=
  { bitmap := Loop.forRange 0 (pmmMaxFrames / 8)
      (fun i b => Function.update b i 0xFF#8) s.bitmap
    totalFrames := 0
    usedFrames := pmmMaxFrames }

/-- `pmm_init`.  `s` is the state of the static variables before the call. -/
def pmmInit (img : KernelImage) (regions : List MmapRegion) (s : Pmm) : Pmm :=
  let s := regions.foldl freeRegion (markAllUsed s)
  -- `f < low_end && f < PMM_MAX_FRAMES`
  let s := Loop.forRange 0 (min lowEnd pmmMaxFrames) reserveFrame s
  Loop.forRange img.frameStart img.frameEnd reserveFrame s

/-! ## Allocation -/

/-- The inner loop of `pmm_alloc_frame` over the bits of byte `i`.  `none`: the
loop ends and the outer loop goes on.  `some none`: `return 0`.  `some (some f)`:
frame `f` is free. -/
def scanByte (s : Pmm) (i : Nat) : Option (Option Nat) :=
  Loop.search (fun bit =>
    let frame := i * 8 + bit
    if frame ≥ pmmMaxFrames then some none
    else if bitmapTest s frame then none
    else some (some frame)) 0 8

/-- The two loops of `pmm_alloc_frame`, with the shortcut for full bytes. -/
def scanFrames (s : Pmm) : Option (Option Nat) :=
  Loop.search (fun i => if s.bitmap i = 0xFF#8 then none else scanByte s i) 0 (pmmMaxFrames / 8)

/-- `pmm_alloc_frame`: the address of the frame taken, or 0. -/
def pmmAllocFrame (s : Pmm) : Pmm × Nat :=
  match scanFrames s with
  | some (some frame) => ((bitmapSet s frame).usedInc, frame * pmmPageSize)
  | _ => (s, 0)

/-- `pmm_free_frame`. -/
def pmmFreeFrame (s : Pmm) (addr : Nat) : Pmm :=
  let frame := wrap32 (addr / pmmPageSize)
  if frame ≥ pmmMaxFrames then s
  else if bitmapTest s frame then (bitmapClear s frame).usedDec
  else s

/-- `pmm_get_free_count`. -/
def pmmGetFreeCount (s : Pmm) : Nat := wrap32 (s.totalFrames + 2 ^ 32 - s.usedFrames)

/-- `pmm_get_total_count`. -/
def pmmGetTotalCount (s : Pmm) : Nat := s.totalFrames

/-! ## Free frames

A frame is free when its number is in range and its bit is clear.  The specs
of the four functions say what they do to this predicate. -/

/-- Frame `f` is free. -/
def Pmm.Free (s : Pmm) (f : Nat) : Prop := f < pmmMaxFrames ∧ bitmapTest s f = false

instance (s : Pmm) (f : Nat) : Decidable (s.Free f) := inferInstanceAs (Decidable (_ ∧ _))

@[simp] theorem bitmapTest_usedInc (s : Pmm) (f : Nat) :
    bitmapTest s.usedInc f = bitmapTest s f := by
  simp only [bitmapTest, Pmm.usedInc]

@[simp] theorem bitmapTest_usedDec (s : Pmm) (f : Nat) :
    bitmapTest s.usedDec f = bitmapTest s f := by
  simp only [bitmapTest, Pmm.usedDec]

@[simp] theorem bitmapTest_totalInc (s : Pmm) (f : Nat) :
    bitmapTest s.totalInc f = bitmapTest s f := by
  simp only [bitmapTest, Pmm.totalInc]

@[simp] theorem bitmapTest_bitmapSet (s : Pmm) (f g : Nat) :
    bitmapTest (bitmapSet s f) g = (decide (g = f) || bitmapTest s g) :=
  Bitmap.test_set s.bitmap f g

@[simp] theorem bitmapTest_bitmapClear (s : Pmm) (f g : Nat) :
    bitmapTest (bitmapClear s f) g = (!decide (g = f) && bitmapTest s g) :=
  Bitmap.test_clear s.bitmap f g

/-- What the scan of one byte finds: the lowest clear bit of the byte. -/
theorem scanByte_spec {s : Pmm} {i : Nat} (hi : i < pmmMaxFrames / 8) :
    (scanByte s i = none ∧ ∀ k, k < 8 → bitmapTest s (i * 8 + k) = true) ∨
    (∃ k, k < 8 ∧ scanByte s i = some (some (i * 8 + k)) ∧ s.Free (i * 8 + k) ∧
      ∀ j, j < k → bitmapTest s (i * 8 + j) = true) := by
  have hrange : ∀ k, k < 8 → i * 8 + k < pmmMaxFrames := by
    intro k hk
    simp only [pmmMaxFrames] at hi ⊢
    omega
  cases hscan : scanByte s i with
  | none =>
      refine Or.inl ⟨rfl, fun k hk => ?_⟩
      have hnone := Loop.search_eq_none.mp hscan k (Nat.zero_le k) (by omega)
      have := hrange k hk
      simp only [ge_iff_le, Nat.not_le.mpr this, if_false] at hnone
      by_contra hbit
      simp [hbit] at hnone
  | some r =>
      obtain ⟨k, -, hk, hfound, hbelow⟩ := Loop.search_eq_some hscan
      have hk8 : k < 8 := by omega
      have hkr := hrange k hk8
      simp only [ge_iff_le, Nat.not_le.mpr hkr, if_false] at hfound
      cases hbit : bitmapTest s (i * 8 + k) with
      | true => simp [hbit] at hfound
      | false =>
          simp only [hbit, Bool.false_eq_true, if_false, Option.some.injEq] at hfound
          refine Or.inr ⟨k, hk8, by rw [hfound], ⟨hkr, hbit⟩, fun j hj => ?_⟩
          have hnone := hbelow j (Nat.zero_le j) hj
          have hjr := hrange j (by omega)
          simp only [ge_iff_le, Nat.not_le.mpr hjr, if_false] at hnone
          by_contra hb
          simp [hb] at hnone

/-- What the whole scan finds: the lowest free frame. -/
theorem scanFrames_spec (s : Pmm) :
    (scanFrames s = none ∧ ∀ f, ¬ s.Free f) ∨
    (∃ f, scanFrames s = some (some f) ∧ s.Free f ∧ ∀ g, s.Free g → f ≤ g) := by
  -- a byte on which the loop goes on has no clear bit
  have hskip : ∀ i, i < pmmMaxFrames / 8 →
      (if s.bitmap i = 0xFF#8 then none else scanByte s i) = none →
      ∀ k, k < 8 → bitmapTest s (i * 8 + k) = true := by
    intro i hi hnone
    by_cases hfull : s.bitmap i = 0xFF#8
    · exact (Bitmap.full_iff s.bitmap i).mp hfull
    · rw [if_neg hfull] at hnone
      rcases scanByte_spec hi with ⟨-, h⟩ | ⟨k, -, hsome, -⟩
      · exact h
      · rw [hnone] at hsome
        cases hsome
  have hsplit : ∀ g, g / 8 * 8 + g % 8 = g := fun g => by omega
  cases hscan : scanFrames s with
  | none =>
      refine Or.inl ⟨rfl, fun f hf => ?_⟩
      have hlt : f / 8 < pmmMaxFrames / 8 := by
        have := hf.1
        simp only [pmmMaxFrames] at this ⊢
        omega
      have hset := hskip (f / 8) hlt
        (Loop.search_eq_none.mp hscan (f / 8) (Nat.zero_le _) (by omega)) (f % 8) (by omega)
      rw [hsplit, hf.2] at hset
      cases hset
  | some r =>
      obtain ⟨i, -, hi, hfound, hbelow⟩ := Loop.search_eq_some hscan
      have hi8 : i < pmmMaxFrames / 8 := by omega
      by_cases hfull : s.bitmap i = 0xFF#8
      · simp [hfull] at hfound
      · rw [if_neg hfull] at hfound
        rcases scanByte_spec (s := s) hi8 with ⟨hnone, -⟩ | ⟨k, hk, hsome, hfree, hlow⟩
        · rw [hnone] at hfound
          cases hfound
        · rw [hfound] at hsome
          refine Or.inr ⟨i * 8 + k, hsome, hfree, fun g hg => ?_⟩
          by_contra hlt
          -- a free frame below lies in an earlier byte or at an earlier bit
          rcases Nat.lt_or_ge (g / 8) i with hbyte | hbyte
          · have hset := hskip (g / 8) (by omega) (hbelow (g / 8) (Nat.zero_le _) hbyte)
              (g % 8) (by omega)
            rw [hsplit, hg.2] at hset
            cases hset
          · have hset := hlow (g % 8) (by omega)
            have heq : i * 8 + g % 8 = g := by omega
            rw [heq, hg.2] at hset
            cases hset

/-- What `pmm_alloc_frame` does.  Either no frame is free and nothing changes, or
the lowest free frame is taken. -/
theorem pmmAllocFrame_cases (s : Pmm) :
    (pmmAllocFrame s = (s, 0) ∧ ∀ f, ¬ s.Free f) ∨
    (∃ f, s.Free f ∧ (∀ g, s.Free g → f ≤ g) ∧
      pmmAllocFrame s = ((bitmapSet s f).usedInc, f * pmmPageSize)) := by
  rcases scanFrames_spec s with ⟨hscan, hnone⟩ | ⟨f, hscan, hfree, hlow⟩
  · exact Or.inl ⟨by rw [pmmAllocFrame, hscan], hnone⟩
  · exact Or.inr ⟨f, hfree, hlow, by rw [pmmAllocFrame, hscan]⟩

/-- Taking a frame removes exactly that frame from the free ones. -/
theorem free_bitmapSet_usedInc (s : Pmm) (f g : Nat) :
    ((bitmapSet s f).usedInc).Free g ↔ s.Free g ∧ g ≠ f := by
  simp only [Pmm.Free, bitmapTest_usedInc, bitmapTest_bitmapSet, Bool.or_eq_false_iff,
    decide_eq_false_iff_not]
  tauto

/-- What `pmm_free_frame` does to an address of a frame in range that is in use. -/
theorem free_pmmFreeFrame {s : Pmm} {f : Nat} (hf : f < pmmMaxFrames)
    (hused : bitmapTest s f = true) (g : Nat) :
    (pmmFreeFrame s (f * pmmPageSize)).Free g ↔ s.Free g ∨ g = f := by
  have hframe : wrap32 (f * pmmPageSize / pmmPageSize) = f := by
    simp only [pmmMaxFrames, pmmPageSize] at *
    rw [Nat.mul_div_cancel _ (by decide), wrap32_of_lt (by omega)]
  simp only [pmmFreeFrame, hframe, ge_iff_le, Nat.not_le.mpr hf, if_false, hused, if_true,
    Pmm.Free, bitmapTest_usedDec, bitmapTest_bitmapClear, Bool.and_eq_false_iff,
    Bool.not_eq_false', decide_eq_true_eq]
  constructor
  · rintro ⟨hg, heq | hclear⟩
    · exact Or.inr heq
    · exact Or.inl ⟨hg, hclear⟩
  · rintro (⟨hg, hclear⟩ | heq)
    · exact ⟨hg, Or.inr hclear⟩
    · exact ⟨heq ▸ hf, Or.inl heq⟩

end TunaOs
