import TunaOs.Multiboot2.Parse
import TunaOs.Pmm.Exclusive

/-!
# The memory map and the free frames

What `pmm_init` frees, read off the memory map.

*Exactness.*  With regions below 2^44 the bits `pmm_init` leaves clear are those of the whole
pages of available regions, less the first MiB and the kernel image, in whatever order the
regions come (`pmmInit_frees_exactly`).

*Reserved regions.*  The region loop looks at available regions only.  A page of an available
region that another region overlaps is freed all the same, so reserved memory stays reserved
exactly for the maps in which no usable page has a byte of another region
(`reservedWins_iff`).

*Truncation.*  Frame numbers are cut to 32 bits before they are compared with the size of the
bitmap.  An available region that starts above 2^44 frees the frames its truncated bounds
name, and `pmm_free_frame` of such an address the frame of its truncated number
(`frameNumbers_own_iff`).  The sums that wrap at 64 bits do no harm of their own, because 2^52
frames are a multiple of 2^32 (`wrap_frame`).
-/

namespace TunaOs

open Run (Reachable)
open Word

/-! ## The order of the regions -/

theorem clearFrame_comm (f g : Nat) (s : Pmm) :
    clearFrame f (clearFrame g s) = clearFrame g (clearFrame f s) :=
  congrArg (fun b => (⟨b, s.totalFrames, s.usedFrames⟩ : Pmm).totalInc.usedDec.totalInc.usedDec)
    (Bitmap.clear_comm s.bitmap g f)

/-- A region commutes with a frame. -/
theorem freeRegion_clearFrame (f : Nat) (r : MmapRegion) (s : Pmm) :
    freeRegion (clearFrame f s) r = clearFrame f (freeRegion s r) := by
  by_cases hr : r.Available
  · rw [freeRegion_available hr, freeRegion_available hr]
    exact Loop.forRange_comm (fun i x => clearFrame_comm i f x) _ _ s
  · rw [freeRegion_reserved hr, freeRegion_reserved hr]

theorem freeRegion_comm (s : Pmm) (r r' : MmapRegion) :
    freeRegion (freeRegion s r) r' = freeRegion (freeRegion s r') r := by
  by_cases hr' : r'.Available
  · rw [freeRegion_available hr', freeRegion_available hr']
    exact Loop.forRange_comm (g := (freeRegion · r))
      (fun i x => (freeRegion_clearFrame i r x).symm) _ _ s
  · rw [freeRegion_reserved hr', freeRegion_reserved hr']

/-- `pmm_init` ends in the same state for every order of the regions. -/
theorem pmmInit_perm (img : KernelImage) {regions regions' : List MmapRegion}
    (h : regions.Perm regions') (s₀ : Pmm) : pmmInit img regions s₀ = pmmInit img regions' s₀ := by
  have hfold := h.foldl_eq' (fun r _ r' _ s => freeRegion_comm s r r') (markAllUsed s₀)
  rw [pmmInit, pmmInit, hfold]

/-- `pmm_init` frees exactly the usable frames, in whatever order the regions come. -/
theorem pmmInit_frees_exactly (img : KernelImage) {regions : List MmapRegion}
    (hb : Bounded regions) (s₀ : Pmm) :
    (∀ f, f < 32768 → (bitmapTest (pmmInit img regions s₀) f = false ↔
      256 ≤ f ∧ ¬ (img.start / 4096 ≤ f ∧ f < (img.stop + 4095) / 4096)
        ∧ ∃ r ∈ regions, r.Available ∧ r.Contains f)) ∧
      ∀ regions', regions.Perm regions' → pmmInit img regions' s₀ = pmmInit img regions s₀ := by
  refine ⟨fun f hf => ?_, fun regions' h => (pmmInit_perm img h s₀).symm⟩
  have hfree : bitmapTest (pmmInit img regions s₀) f = false
      ↔ (pmmInit img regions s₀).Free f := ⟨fun h => ⟨hf, h⟩, fun h => h.2⟩
  rw [hfree, free_pmmInit_iff, usable_iff hb]
  have hlow : lowEnd = 256 := rfl
  constructor
  · rintro ⟨-, h256, hkernel, r, hr, htype, hstart, hend⟩
    exact ⟨hlow ▸ h256, by omega, r, hr, htype, hstart, by omega⟩
  · rintro ⟨h256, hkernel, r, hr, htype, hstart, hend⟩
    exact ⟨hf, hlow ▸ h256, by omega, r, hr, htype, hstart, by omega⟩

/-- The free frames of a small machine. -/
theorem pmmInit_frees_exactly_sample :
    bitmapTest (pmmInit sampleImage sampleMap ⟨fun _ => 0, 0, 0⟩) 0x10D = false := by
  refine ((pmmInit_frees_exactly sampleImage (show Bounded sampleMap by decide) _).1 0x10D
    (by decide)).mpr ?_
  decide

/-! ## Reserved regions -/

/-- No frame with a byte of a region of another type than available is free or handed out,
after `pmm_init` and any sequence of allocations and of frees of live frames. -/
def ReservedWins (img : KernelImage) (regions : List MmapRegion) (s₀ : Pmm) : Prop :=
  ∀ h, Reachable (PmmHistory.Start img regions s₀) PmmStep h →
    ∀ r ∈ regions, ¬ r.Available → ∀ a, r.HasByte a →
      ¬ h.state.Free (a / 4096) ∧
        ((pmmAllocFrame h.state).2 ≠ 0 → (pmmAllocFrame h.state).2 / 4096 ≠ a / 4096)

/-- If reserved memory stays reserved, no usable frame has a byte of it. -/
theorem ReservedWins.not_usable {img : KernelImage} {regions : List MmapRegion} {s₀ : Pmm}
    (hwins : ReservedWins img regions s₀) {r : MmapRegion} (hr : r ∈ regions)
    (hres : ¬ r.Available) {a : Nat} (ha : r.HasByte a) : ¬ Usable img regions (a / 4096) :=
  fun husable => (hwins _ (.init rfl) r hr hres a ha).1
    ((free_pmmInit_iff img regions s₀ _).mpr husable)

/-- Reserved memory is never free exactly if every page of an available region that has a
byte of another region is out of reach for other reasons: it lies in the first MiB, above
128 MiB or in the kernel image. -/
theorem reservedWins_iff (img : KernelImage) {regions : List MmapRegion} (hb : Bounded regions)
    (s₀ : Pmm) :
    ReservedWins img regions s₀ ↔
      ∀ r ∈ regions, ¬ r.Available → ∀ r' ∈ regions, r'.Available →
        ∀ a, r.HasByte a → r'.Contains (a / 4096) →
          a < 1024 * 1024 ∨ 128 * 1024 * 1024 ≤ a ∨
            img.start / 4096 ≤ a / 4096 ∧ a / 4096 < (img.stop + 4095) / 4096 := by
  have hlow : lowEnd = 256 := rfl
  have hmax : pmmMaxFrames = 32768 := rfl
  constructor
  · intro hwins r hr hres r' hr' havail a ha hcont
    by_contra hreach
    -- such a page is free as soon as `pmm_init` is done
    refine hwins.not_usable hr hres ha ((usable_iff hb _).mpr ?_)
    have hpage := hcont.2
    exact ⟨by omega, by omega, by omega, r', hr', havail, hcont.1, by omega⟩
  · intro hcond h hreach r hr hres a ha
    have hinv := PmmHistory.inv_of_reachable hreach
    have hnot : ¬ h.state.Free (a / 4096) := by
      intro hfree
      obtain ⟨hlt, hge, hkernel, r', hr', havail, hstart, hend⟩ :=
        (usable_iff hb _).mp ((free_pmmInit_iff img regions s₀ _).mp ((hinv.free_iff _).mp hfree).1)
      have := hcond r hr hres r' hr' havail a ha ⟨hstart, by omega⟩
      omega
    refine ⟨hnot, fun hne heq => ?_⟩
    rcases pmmAllocFrame_cases h.state with ⟨hzero, -⟩ | ⟨f, hf, -, hsome⟩
    · exact hne (by rw [hzero])
    · rw [hsome] at heq
      have hfa : f = a / 4096 := by
        rw [← heq]
        exact (Nat.mul_div_cancel f (by decide)).symm
      exact hnot (hfa ▸ hf)

/-- On a small machine the reserved hole below 1 MiB stays reserved. -/
theorem reservedWins_sample : ReservedWins sampleImage sampleMap ⟨fun _ => 0, 0, 0⟩ := by
  refine (reservedWins_iff sampleImage (by decide) _).mpr fun r hr hres r' _ _ a ha _ => Or.inl ?_
  have hlow : ∀ r ∈ sampleMap, ¬ r.Available → r.base + r.length ≤ 1024 * 1024 := by decide
  exact Nat.lt_of_lt_of_le ha.2 (hlow r hr hres)

/-- A memory map in which a reserved page lies inside the RAM. -/
def overlappingMap : List MmapRegion := [⟨0x100000, 0x7EE0000, 1⟩, ⟨0x200000, 0x1000, 2⟩]

/-- The information block of that map. -/
def overlappingBlock : InfoBlock where
  header := List.replicate 8 0
  tags := [
    ⟨.mmap ⟨24, 0, [⟨0x100000, 0x7EE0000, 1, [0, 0, 0, 0]⟩, ⟨0x200000, 0x1000, 2, [0, 0, 0, 0]⟩],
      entrySize_mmapEntry, by decide, by decide⟩, [], rfl, length_noPadding⟩]
  endSize := 8
  header_length := length_zeroHeader

/-- Where a reserved region lies inside an available one, its frames are free. -/
theorem reserved_page_free :
    multiboot2ParseMmap (Mem.ofBytes 0x8000 overlappingBlock.bytes) 2 0x8000 = some overlappingMap
      ∧ Bounded overlappingMap
      ∧ ¬ ReservedWins sampleImage overlappingMap ⟨fun _ => 0, 0, 0⟩ := by
  refine ⟨?_, by decide, fun hwins => ?_⟩
  · have hm := Mem.holds_ofBytes 0x8000 overlappingBlock.bytes
    rw [InfoBlock.bytes, Mem.holds_append, overlappingBlock.header_length] at hm
    rw [multiboot2ParseMmap]
    exact parseTags_eq hm.2 (by decide) (by decide)
  · have husable : Usable sampleImage overlappingMap (0x200000 / 4096) := by decide
    have hreserved : (⟨0x200000, 0x1000, 2⟩ : MmapRegion) ∈ overlappingMap := by decide
    exact hwins.not_usable hreserved (by decide) ⟨by decide, by decide⟩ husable

/-! ## Truncated frame numbers -/

/-- The frame number of a sum that wraps at 64 bits is the one of the true sum. -/
theorem wrap_frame (x : Nat) : wrap32 (wrap64 x / pmmPageSize) = x / 4096 % 2 ^ 32 := by
  simp only [wrap32, wrap64, pmmPageSize]
  omega

theorem frameStart_eq (r : MmapRegion) : r.frameStart = (r.base + 4095) / 4096 % 2 ^ 32 := by
  have hsum : r.base + pmmPageSize - 1 = r.base + 4095 := by
    simp only [pmmPageSize]
    omega
  rw [MmapRegion.frameStart, wrap_frame, hsum]

theorem lt_frameEnd {r : MmapRegion} {f : Nat} :
    f < r.frameEnd ↔ f < pmmMaxFrames ∧ f < (r.base + r.length) / 4096 % 2 ^ 32 := by
  simp only [MmapRegion.frameEnd, wrap_frame]
  split <;> omega

/-- The region loop clears the bits of no other frames than those of available regions. -/
def InitClearsOwn (regions : List MmapRegion) (s₀ : Pmm) : Prop :=
  ∀ f, f < pmmMaxFrames → bitmapTest (regions.foldl freeRegion (markAllUsed s₀)) f = false →
    ∃ r ∈ regions, r.Available ∧ r.Contains f

/-- `pmm_free_frame` clears no other bit than that of the frame of its argument, and does
nothing above 128 MiB. -/
def FreeClearsOwn (s : Pmm) (addr : Nat) : Prop :=
  (∀ f, bitmapTest s f = true → bitmapTest (pmmFreeFrame s addr) f = false → f = addr / 4096) ∧
    (128 * 1024 * 1024 ≤ addr → pmmFreeFrame s addr = s)

/-- A region whose first frame number fits in 32 bits frees its own frames only. -/
theorem MmapRegion.contains_of_fits {r : MmapRegion} {f : Nat}
    (hfits : (r.base + 4095) / 4096 < 2 ^ 32) (hstart : r.frameStart ≤ f) (hend : f < r.frameEnd) :
    r.Contains f := by
  rw [frameStart_eq, Nat.mod_eq_of_lt hfits] at hstart
  have hlt := (lt_frameEnd.mp hend).2
  have hle := Nat.mod_le ((r.base + r.length) / 4096) (2 ^ 32)
  exact ⟨by omega, by omega⟩

theorem initClearsOwn_iff (regions : List MmapRegion) (s₀ : Pmm) :
    InitClearsOwn regions s₀ ↔
      ∀ r ∈ regions, r.Available → 2 ^ 32 ≤ (r.base + 4095) / 4096 →
        ∀ f, f < 32768 → (r.base + 4095) / 4096 % 2 ^ 32 ≤ f →
          f < (r.base + r.length) / 4096 % 2 ^ 32 →
            ∃ r' ∈ regions, r'.Available ∧ r'.Contains f := by
  have hmax : pmmMaxFrames = 32768 := rfl
  constructor
  · intro hown r hr havail _ f hf hstart hend
    refine hown f (hmax ▸ hf) ?_
    rw [bitmapTest_foldl_freeRegion]
    exact Or.inr ⟨r, hr, havail, by rwa [frameStart_eq], lt_frameEnd.mpr ⟨hmax ▸ hf, hend⟩⟩
  · intro hcond f hf hclear
    rw [bitmapTest_foldl_freeRegion, bitmapTest_markAllUsed s₀ hf] at hclear
    obtain ⟨r, hr, havail, hstart, hend⟩ := hclear.resolve_left nofun
    by_cases hfits : (r.base + 4095) / 4096 < 2 ^ 32
    · exact ⟨r, hr, havail, r.contains_of_fits hfits hstart hend⟩
    · refine hcond r hr havail (by omega) f (hmax ▸ hf) ?_ (lt_frameEnd.mp hend).2
      rwa [← frameStart_eq]

theorem freeClearsOwn_iff (s : Pmm) (addr : Nat) :
    FreeClearsOwn s addr ↔ addr < 2 ^ 44 ∨ 32768 ≤ addr / 4096 % 2 ^ 32
      ∨ bitmapTest s (addr / 4096 % 2 ^ 32) = false := by
  have hframe : wrap32 (addr / pmmPageSize) = addr / 4096 % 2 ^ 32 := rfl
  have hmax : pmmMaxFrames = 32768 := rfl
  simp only [FreeClearsOwn, pmmFreeFrame, hframe, hmax, ge_iff_le]
  by_cases hrange : 32768 ≤ addr / 4096 % 2 ^ 32
  · simp only [if_pos hrange]
    refine iff_of_true ⟨fun f h1 h0 => ?_, fun _ => trivial⟩ (Or.inr (Or.inl hrange))
    rw [h1] at h0
    cases h0
  · simp only [if_neg hrange]
    cases hbit : bitmapTest s (addr / 4096 % 2 ^ 32) with
    | false =>
        simp only [Bool.false_eq_true, if_false]
        refine iff_of_true ⟨fun f h1 h0 => ?_, fun _ => trivial⟩ (Or.inr (Or.inr trivial))
        rw [h1] at h0
        cases h0
    | true =>
        simp only [if_true, bitmapTest_usedDec, bitmapTest_bitmapClear, Bool.and_eq_false_iff,
          Bool.not_eq_false', decide_eq_true_eq]
        constructor
        · -- the bit that is cleared shows that the state has changed
          rintro ⟨-, hsame⟩
          by_contra hbig
          have hchanged := bitmapTest_bitmapClear s (addr / 4096 % 2 ^ 32) (addr / 4096 % 2 ^ 32)
          rw [← bitmapTest_usedDec, hsame (by omega), hbit] at hchanged
          simp at hchanged
        · rintro (hlow | hout | hbit')
          · have hmod : addr / 4096 % 2 ^ 32 = addr / 4096 := Nat.mod_eq_of_lt (by omega)
            rw [hmod] at hrange ⊢
            refine ⟨fun f h1 h0 => h0.resolve_right ?_, fun h128 => absurd h128 (by omega)⟩
            rw [h1]
            decide
          · exact absurd hout hrange
          · cases hbit'

/-- Which bits `pmm_init` and `pmm_free_frame` clear, for all 64-bit addresses.  `pmm_init`
clears its own frames only exactly if the truncated bounds of every available region that
starts above 2^44 name frames of available regions or none.  `pmm_free_frame` does exactly
for the addresses below 2^44 and those whose truncated number names no used frame. -/
theorem frameNumbers_own_iff (regions : List MmapRegion) (s₀ s : Pmm) (addr : Nat) :
    (∀ r ∈ regions, r.base + r.length ≤ 2 ^ 64) → addr < 2 ^ 64 →
      (InitClearsOwn regions s₀ ↔
        ∀ r ∈ regions, r.Available → 2 ^ 32 ≤ (r.base + 4095) / 4096 →
          ∀ f, f < 32768 → (r.base + 4095) / 4096 % 2 ^ 32 ≤ f →
            f < (r.base + r.length) / 4096 % 2 ^ 32 →
              ∃ r' ∈ regions, r'.Available ∧ r'.Contains f) ∧
      (FreeClearsOwn s addr ↔ addr < 2 ^ 44 ∨ 32768 ≤ addr / 4096 % 2 ^ 32
        ∨ bitmapTest s (addr / 4096 % 2 ^ 32) = false) :=
  fun _ _ => ⟨initClearsOwn_iff regions s₀, freeClearsOwn_iff s addr⟩

/-- On a small machine both hold, of the map and of the last page of RAM. -/
theorem frameNumbers_own_sample :
    InitClearsOwn sampleMap ⟨fun _ => 0, 0, 0⟩ ∧
      FreeClearsOwn (pmmInit sampleImage sampleMap ⟨fun _ => 0, 0, 0⟩) 0x7FDF000 := by
  obtain ⟨hinit, hfree⟩ := frameNumbers_own_iff sampleMap ⟨fun _ => 0, 0, 0⟩
    (pmmInit sampleImage sampleMap ⟨fun _ => 0, 0, 0⟩) 0x7FDF000 (by decide) (by decide)
  refine ⟨hinit.mpr fun r hr _ hbig => ?_, hfree.mpr (Or.inl (by decide))⟩
  have hsmall : ∀ r ∈ sampleMap, (r.base + 4095) / 4096 < 2 ^ 32 := by decide
  exact absurd hbig (by have := hsmall r hr; omega)

/-- A machine with 2 MiB at 2^44: frame 256 is freed for it, although no memory lies there,
and giving back an address of that memory frees a frame of the kernel. -/
theorem truncated_frames_freed :
    (∀ r ∈ [(⟨2 ^ 44, 0x200000, 1⟩ : MmapRegion)], r.base + r.length ≤ 2 ^ 64)
      ∧ ¬ InitClearsOwn [⟨2 ^ 44, 0x200000, 1⟩] ⟨fun _ => 0, 0, 0⟩
      ∧ (pmmInit sampleImage [⟨2 ^ 44, 0x200000, 1⟩] ⟨fun _ => 0, 0, 0⟩).Free 0x10D
      ∧ ¬ FreeClearsOwn (pmmInit sampleImage sampleMap ⟨fun _ => 0, 0, 0⟩) (2 ^ 44 + 0x100000) := by
  refine ⟨by decide, fun hown => ?_, (free_pmmInit_iff ..).mpr (by decide), fun hown => ?_⟩
  · obtain ⟨r, hr, -, hcont⟩ := (initClearsOwn_iff ..).mp hown ⟨2 ^ 44, 0x200000, 1⟩
      (by decide) (by decide) (by decide) 256 (by decide) (by decide) (by decide)
    rw [List.mem_singleton.mp hr] at hcont
    exact absurd hcont (by decide)
  · rcases (freeClearsOwn_iff ..).mp hown with h | h | h
    · exact absurd h (by decide)
    · exact absurd h (by decide)
    · have hnot : ¬ (pmmInit sampleImage sampleMap ⟨fun _ => 0, 0, 0⟩).Free 0x100 := by
        rw [free_pmmInit_iff]
        decide
      exact hnot ⟨by decide, h⟩

end TunaOs
