import TunaOs.Pmm.Model

/-!
# What `pmm_init` leaves free

`Usable img regions f` says which frames `pmm_init` hands to the allocator, in
terms of the frame bounds the code itself computes.  `free_pmmInit_iff` is
exact for every memory map, also one whose sums wrap.  When no sum wraps and no
frame number is cut to 32 bits, `Usable` has its intended meaning
(`usable_iff`): the whole page lies in an available region, at or above 1 MiB
and outside the pages of the kernel image.
-/

namespace TunaOs

open Word

/-! ## Regions -/

/-- The page of frame `f` lies in the region. -/
def MmapRegion.Contains (r : MmapRegion) (f : Nat) : Prop :=
  r.base ≤ 4096 * f ∧ 4096 * (f + 1) ≤ r.base + r.length

instance (r : MmapRegion) (f : Nat) : Decidable (r.Contains f) :=
  inferInstanceAs (Decidable (_ ∧ _))

/-- Address `a` is a byte of the region. -/
def MmapRegion.HasByte (r : MmapRegion) (a : Nat) : Prop := r.base ≤ a ∧ a < r.base + r.length

/-- The region has the type of usable memory. -/
def MmapRegion.Available (r : MmapRegion) : Prop := r.type = mmapTypeAvailable

instance (r : MmapRegion) : Decidable r.Available := inferInstanceAs (Decidable (_ = _))

/-! ## The loops -/

/-- The first loop sets every bit in range. -/
theorem bitmapTest_markAllUsed (s : Pmm) {f : Nat} (hf : f < pmmMaxFrames) :
    bitmapTest (markAllUsed s) f = true := by
  -- after `i` turns the first `i` bytes are full
  have hinv := Loop.forRange_induct (fun i b => Function.update b i 0xFF#8)
    (P := fun i (b : Bitmap) => ∀ j, j < i → b j = 0xFF#8) (x := s.bitmap)
    (Nat.zero_le (pmmMaxFrames / 8)) (fun j hj => absurd hj (Nat.not_lt_zero j))
    (fun i b _ _ hb j hj => by
      by_cases hji : j = i
      · subst hji
        rw [Function.update_self]
      · rw [Function.update_of_ne hji]
        exact hb j (by omega))
  have hbyte := hinv (f / 8) (by simp only [pmmMaxFrames] at hf ⊢; omega)
  have hset := (Bitmap.full_iff _ _).mp hbyte (f % 8) (by omega)
  have hsplit : f / 8 * 8 + f % 8 = f := by omega
  rw [hsplit] at hset
  exact hset

/-- The body of the loop over the frames of a region. -/
def clearFrame (f : Nat) (s : Pmm) : Pmm := (bitmapClear s f).totalInc.usedDec

theorem freeRegion_available {r : MmapRegion} (hr : r.Available) (s : Pmm) :
    freeRegion s r = Loop.forRange r.frameStart r.frameEnd clearFrame s := if_neg (not_not.mpr hr)

theorem freeRegion_reserved {r : MmapRegion} (hr : ¬ r.Available) (s : Pmm) :
    freeRegion s r = s := if_pos hr

/-- Clearing the frames from `a` to `b`. -/
theorem bitmapTest_clearFrames (s : Pmm) (a b f : Nat) :
    bitmapTest (Loop.forRange a b clearFrame s) f = false ↔
      bitmapTest s f = false ∨ (a ≤ f ∧ f < b) := by
  rcases Nat.le_total a b with hle | hle
  · refine Loop.forRange_induct _
      (P := fun i t => bitmapTest t f = false ↔ bitmapTest s f = false ∨ (a ≤ f ∧ f < i)) hle ?_ ?_
    · constructor
      · exact Or.inl
      · rintro (h | h)
        · exact h
        · omega
    · intro i t hi _ ih
      rw [clearFrame, bitmapTest_usedDec, bitmapTest_totalInc, bitmapTest_bitmapClear,
        Bool.and_eq_false_iff, ih, Bool.not_eq_false', decide_eq_true_eq]
      constructor
      · rintro (rfl | h | h)
        · exact Or.inr ⟨hi, by omega⟩
        · exact Or.inl h
        · exact Or.inr ⟨h.1, by omega⟩
      · rintro (h | h)
        · exact Or.inr (Or.inl h)
        · rcases Nat.lt_or_ge f i with hlt | hge
          · exact Or.inr (Or.inr ⟨h.1, hlt⟩)
          · exact Or.inl (by omega)
  · rw [Loop.forRange_of_le hle]
    constructor
    · exact Or.inl
    · rintro (h | h)
      · exact h
      · omega

/-- The region loop clears exactly the frames of an available region. -/
theorem bitmapTest_freeRegion (s : Pmm) (r : MmapRegion) (f : Nat) :
    bitmapTest (freeRegion s r) f = false ↔
      bitmapTest s f = false ∨
        (r.type = mmapTypeAvailable ∧ r.frameStart ≤ f ∧ f < r.frameEnd) := by
  by_cases hr : r.Available
  · rw [freeRegion_available hr, bitmapTest_clearFrames]
    exact or_congr_right ⟨fun h => ⟨hr, h⟩, fun h => h.2⟩
  · rw [freeRegion_reserved hr]
    exact ⟨Or.inl, fun h => h.resolve_right fun h => hr h.1⟩

/-- A frame is clear after all regions exactly when it was before or some
available region covers it. -/
theorem bitmapTest_foldl_freeRegion (f : Nat) : ∀ (regions : List MmapRegion) (s : Pmm),
    bitmapTest (regions.foldl freeRegion s) f = false ↔
      bitmapTest s f = false ∨
        ∃ r ∈ regions, r.type = mmapTypeAvailable ∧ r.frameStart ≤ f ∧ f < r.frameEnd
  | [], s => by simp
  | r :: rs, s => by
      rw [List.foldl_cons, bitmapTest_foldl_freeRegion f rs, bitmapTest_freeRegion]
      simp only [List.mem_cons, exists_eq_or_imp]
      exact or_assoc

/-- The reserving loops set exactly the frames of their range. -/
theorem bitmapTest_reserve (s : Pmm) (a b f : Nat) :
    bitmapTest (Loop.forRange a b reserveFrame s) f = false ↔
      bitmapTest s f = false ∧ ¬ (a ≤ f ∧ f < b) := by
  rcases Nat.le_total a b with hab | hba
  · refine Loop.forRange_induct _
      (P := fun i t => bitmapTest t f = false ↔ bitmapTest s f = false ∧ ¬ (a ≤ f ∧ f < i))
      hab ?_ ?_
    · constructor
      · exact fun h => ⟨h, by omega⟩
      · exact fun h => h.1
    · intro i t hi _ ih
      by_cases hbit : bitmapTest t i = true
      · -- the frame is in use already: only frame `i` can be newly excluded
        rw [reserveFrame, if_pos hbit, ih]
        constructor
        · rintro ⟨hs, hr⟩
          refine ⟨hs, fun h => ?_⟩
          have hfi : f = i := by omega
          rw [hfi] at ih hs
          have := ih.mpr ⟨hs, by omega⟩
          rw [hbit] at this
          cases this
        · rintro ⟨hs, hr⟩
          exact ⟨hs, by omega⟩
      · rw [reserveFrame, if_neg hbit, bitmapTest_usedInc, bitmapTest_bitmapSet,
          Bool.or_eq_false_iff, ih, decide_eq_false_iff_not]
        constructor
        · rintro ⟨hne, hs, hr⟩
          exact ⟨hs, by omega⟩
        · rintro ⟨hs, hr⟩
          exact ⟨by omega, hs, by omega⟩
  · rw [Loop.forRange_of_le hba]
    constructor
    · exact fun h => ⟨h, by omega⟩
    · exact fun h => h.1

/-! ## The frames left free -/

/-- The frames `pmm_init` leaves free, by the bounds it computes: not below
1 MiB, not in the frame range of the kernel image, and in the frame range of an
available region. -/
def Usable (img : KernelImage) (regions : List MmapRegion) (f : Nat) : Prop :=
  f < pmmMaxFrames ∧ lowEnd ≤ f ∧ ¬ (img.frameStart ≤ f ∧ f < img.frameEnd) ∧
    ∃ r ∈ regions, r.type = mmapTypeAvailable ∧ r.frameStart ≤ f ∧ f < r.frameEnd

instance (img : KernelImage) (regions : List MmapRegion) (f : Nat) :
    Decidable (Usable img regions f) :=
  inferInstanceAs (Decidable (_ ∧ _ ∧ _ ∧ _))

theorem free_pmmInit_iff (img : KernelImage) (regions : List MmapRegion) (s : Pmm) (f : Nat) :
    (pmmInit img regions s).Free f ↔ Usable img regions f := by
  have hlow : min lowEnd pmmMaxFrames = lowEnd := by decide
  constructor
  · rintro ⟨hmax, hclear⟩
    rw [pmmInit, bitmapTest_reserve, hlow, bitmapTest_reserve,
      bitmapTest_foldl_freeRegion, bitmapTest_markAllUsed s hmax] at hclear
    obtain ⟨⟨hregion, hlow'⟩, hkernel⟩ := hclear
    refine ⟨hmax, by omega, hkernel, ?_⟩
    rcases hregion with h | h
    · cases h
    · exact h
  · rintro ⟨hmax, hlow', hkernel, hregion⟩
    refine ⟨hmax, ?_⟩
    rw [pmmInit, bitmapTest_reserve, hlow, bitmapTest_reserve, bitmapTest_foldl_freeRegion]
    exact ⟨⟨Or.inr hregion, by omega⟩, hkernel⟩

/-- A memory map all of whose regions end where frame numbers fit in 32 bits. -/
def Bounded (regions : List MmapRegion) : Prop :=
  ∀ r ∈ regions, r.base + r.length ≤ 2 ^ 44 - 4096

instance (regions : List MmapRegion) : Decidable (Bounded regions) :=
  inferInstanceAs (Decidable (∀ r ∈ regions, _))

theorem frameStart_le_iff {r : MmapRegion} (hr : r.base + r.length ≤ 2 ^ 44 - 4096) (f : Nat) :
    r.frameStart ≤ f ↔ r.base ≤ 4096 * f := by
  simp only [MmapRegion.frameStart, pmmPageSize]
  rw [wrap64_of_lt (by omega), wrap32_of_lt (by omega)]
  omega

theorem lt_frameEnd_iff {r : MmapRegion} (hr : r.base + r.length ≤ 2 ^ 44 - 4096) {f : Nat}
    (hf : f < pmmMaxFrames) : f < r.frameEnd ↔ 4096 * f + 4096 ≤ r.base + r.length := by
  have hend : wrap32 (wrap64 (r.base + r.length) / pmmPageSize) = (r.base + r.length) / 4096 := by
    rw [wrap64_of_lt (by omega), pmmPageSize, wrap32_of_lt (by omega)]
  simp only [MmapRegion.frameEnd, hend]
  split <;> simp only [pmmMaxFrames] at * <;> omega

theorem image_frameStart_le_iff (img : KernelImage) (f : Nat) :
    img.frameStart ≤ f ↔ img.start < 4096 * f + 4096 := by
  have h1 := img.start_le_stop
  have h2 := img.stop_le
  simp only [KernelImage.frameStart, pmmPageSize]
  rw [wrap32_of_lt (by omega)]
  omega

theorem lt_image_frameEnd_iff (img : KernelImage) {f : Nat} (hf : f < pmmMaxFrames) :
    f < img.frameEnd ↔ 4096 * f < img.stop := by
  have h2 := img.stop_le
  have hend : wrap32 (wrap64 (img.stop + pmmPageSize - 1) / pmmPageSize)
      = (img.stop + 4095) / 4096 := by
    rw [pmmPageSize, wrap64_of_lt (by omega), wrap32_of_lt (by omega)]
    rfl
  simp only [KernelImage.frameEnd, hend]
  split <;> simp only [pmmMaxFrames] at * <;> omega

/-- A frame with a byte of the image is not free. -/
theorem not_usable_image {img : KernelImage} {regions : List MmapRegion} {x : Nat}
    (h1 : img.start ≤ x) (h2 : x < img.stop) : ¬ Usable img regions (x / 4096) := by
  rintro ⟨hmax, -, himage, -⟩
  exact himage ⟨(image_frameStart_le_iff img _).mpr (by omega),
    (lt_image_frameEnd_iff img hmax).mpr (by omega)⟩

/-- In a bounded memory map the usable frames are the whole pages of available
regions at or above 1 MiB that do not meet the pages of the kernel image. -/
theorem usable_iff {img : KernelImage} {regions : List MmapRegion} (hb : Bounded regions)
    (f : Nat) :
    Usable img regions f ↔ f < pmmMaxFrames ∧ lowEnd ≤ f ∧
      (4096 * f + 4096 ≤ img.start ∨ img.stop ≤ 4096 * f) ∧
      ∃ r ∈ regions, r.type = mmapTypeAvailable ∧ r.base ≤ 4096 * f ∧
        4096 * f + 4096 ≤ r.base + r.length := by
  constructor
  · rintro ⟨hmax, hlow, hkernel, r, hr, htype, hstart, hend⟩
    rw [image_frameStart_le_iff, lt_image_frameEnd_iff img hmax] at hkernel
    exact ⟨hmax, hlow, by omega, r, hr, htype, (frameStart_le_iff (hb r hr) f).mp hstart,
      (lt_frameEnd_iff (hb r hr) hmax).mp hend⟩
  · rintro ⟨hmax, hlow, hkernel, r, hr, htype, hstart, hend⟩
    refine ⟨hmax, hlow, ?_, r, hr, htype, (frameStart_le_iff (hb r hr) f).mpr hstart,
      (lt_frameEnd_iff (hb r hr) hmax).mpr hend⟩
    rw [image_frameStart_le_iff, lt_image_frameEnd_iff img hmax]
    omega

end TunaOs
