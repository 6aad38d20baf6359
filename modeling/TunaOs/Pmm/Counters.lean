import TunaOs.Pmm.Regions

/-!
# The counters of the allocator

`used_frames` starts at 32768 and goes down by one for every frame the region loop clears,
however often it clears it; after that it follows the set bits one by one.  So the counter and
the number of set bits keep the distance they have at the end of the region loop (`Balanced`).

*The used frames.*  If the available regions are disjoint and lie below 2^44, the distance is 0
and no update of a counter wraps (`usedFrames_exact`).

*The free frames.*  `pmm_get_free_count` subtracts `used_frames`, which counts from 32768, from
`total_frames`, which counts the frames of available regions.  The difference is the number of
clear bits only if the two baselines agree, that is if all of the first 128 MiB is available
(`freeCountTruthful_iff`).
-/

namespace TunaOs

open Run (Reachable)
open Word

/-! ## Set bits and clear bits -/

/-- The number of set bits. -/
def Pmm.ones (s : Pmm) : Nat := s.bitmap.ones 32768

/-- The number of clear bits. -/
def Pmm.zeros (s : Pmm) : Nat := s.bitmap.zeros 32768

theorem Pmm.ones_add_zeros (s : Pmm) : s.ones + s.zeros = 32768 := Bitmap.ones_add_zeros ..

theorem Pmm.zeros_eq_zero_iff (s : Pmm) : s.zeros = 0 ↔ ∀ f, ¬ s.Free f := by
  rw [Pmm.zeros, Bitmap.zeros, Nat.count_iff_forall_not]
  exact ⟨fun h f hf => h f hf.1 hf.2, fun h f hf hclear => h f ⟨hf, hclear⟩⟩

theorem ones_bitmapSet {s : Pmm} {f : Nat} (hf : s.Free f) :
    (bitmapSet s f).ones = s.ones + 1 := Bitmap.ones_set hf.1 hf.2

theorem ones_bitmapClear {s : Pmm} {f : Nat} (hf : f < pmmMaxFrames)
    (hset : bitmapTest s f = true) :
    s.ones = (bitmapClear s f).ones + 1 := Bitmap.ones_clear hf hset

/-- All bits are set when `pmm_init` begins to free. -/
theorem ones_markAllUsed (s₀ : Pmm) : (markAllUsed s₀).ones = 32768 :=
  Nat.count_iff_forall.mpr fun _ hf => bitmapTest_markAllUsed s₀ hf

/-! ## The distance between the counter and the set bits -/

/-- The counter and the set bits are as far apart as `freed` and `cleared`, modulo 2^32. -/
structure Balanced (freed cleared : Nat) (s : Pmm) : Prop where
  used_lt : s.usedFrames < 2 ^ 32
  balance : (s.usedFrames + freed) % 2 ^ 32 = (s.ones + cleared) % 2 ^ 32

section

variable {freed cleared : Nat} {s : Pmm}

/-- Taking a free frame. -/
theorem Balanced.take (h : Balanced freed cleared s) {f : Nat} (hf : s.Free f) :
    Balanced freed cleared (bitmapSet s f).usedInc := by
  have hones : (bitmapSet s f).usedInc.ones = s.ones + 1 := ones_bitmapSet hf
  have hused : (bitmapSet s f).usedInc.usedFrames = (s.usedFrames + 1) % 2 ^ 32 := rfl
  have hlt := h.used_lt
  have hbal := h.balance
  exact ⟨by omega, by omega⟩

/-- Giving a used frame back. -/
theorem Balanced.give (h : Balanced freed cleared s) {f : Nat} (hf : f < pmmMaxFrames)
    (hset : bitmapTest s f = true) : Balanced freed cleared (bitmapClear s f).usedDec := by
  have hones : s.ones = (bitmapClear s f).usedDec.ones + 1 := ones_bitmapClear hf hset
  have hused : (bitmapClear s f).usedDec.usedFrames
      = if s.usedFrames = 0 then 2 ^ 32 - 1 else s.usedFrames - 1 := rfl
  have hlt := h.used_lt
  have hbal := h.balance
  split at hused
  · exact ⟨by omega, by omega⟩
  · exact ⟨by omega, by omega⟩

theorem Balanced.reserve (h : Balanced freed cleared s) {f : Nat} (hf : f < pmmMaxFrames) :
    Balanced freed cleared (reserveFrame f s) := by
  cases hbit : bitmapTest s f with
  | true => rwa [reserveFrame, if_pos hbit]
  | false =>
      rw [reserveFrame, if_neg (by simp [hbit])]
      exact h.take ⟨hf, hbit⟩

theorem Balanced.alloc (h : Balanced freed cleared s) :
    Balanced freed cleared (pmmAllocFrame s).1 := by
  rcases pmmAllocFrame_cases s with ⟨hzero, -⟩ | ⟨f, hf, -, hsome⟩
  · rwa [hzero]
  · rw [hsome]
    exact h.take hf

/-- `pmm_free_frame` of any address. -/
theorem Balanced.free (h : Balanced freed cleared s) (addr : Nat) :
    Balanced freed cleared (pmmFreeFrame s addr) := by
  simp only [pmmFreeFrame]
  split
  · exact h
  · split
    case isTrue hrange hset => exact h.give (Nat.lt_of_not_le hrange) hset
    case isFalse => exact h

end

/-! ## The region loop -/

/-- `pmm_init` up to the end of the region loop. -/
def clearRegions (regions : List MmapRegion) (s₀ : Pmm) : Pmm :=
  regions.foldl freeRegion (markAllUsed s₀)

/-- The turns of the inner loop for a region. -/
def MmapRegion.freed (r : MmapRegion) : Nat :=
  if r.Available then r.frameEnd - r.frameStart else 0

/-- The turns of the inner loop for all regions. -/
def freedTotal (regions : List MmapRegion) : Nat := (regions.map MmapRegion.freed).sum

/-- A frame that the region loop clears. -/
def Cleared (regions : List MmapRegion) (f : Nat) : Prop :=
  ∃ r ∈ regions, r.Available ∧ r.frameStart ≤ f ∧ f < r.frameEnd

instance (regions : List MmapRegion) : DecidablePred (Cleared regions) := fun _ =>
  inferInstanceAs (Decidable (∃ r ∈ regions, _))

theorem bitmapTest_clearRegions {regions : List MmapRegion} {s₀ : Pmm} {f : Nat}
    (hf : f < pmmMaxFrames) :
    bitmapTest (clearRegions regions s₀) f = false ↔ Cleared regions f := by
  rw [clearRegions, bitmapTest_foldl_freeRegion, bitmapTest_markAllUsed s₀ hf]
  exact ⟨fun h => h.resolve_left nofun, Or.inr⟩

/-- What the loop over the frames of a region does to the counters. -/
theorem counters_clearFrames (a b : Nat) {s : Pmm} (hused : s.usedFrames < 2 ^ 32)
    (htotal : s.totalFrames < 2 ^ 32) :
    let t := Loop.forRange a b clearFrame s
    t.usedFrames < 2 ^ 32 ∧ t.totalFrames < 2 ^ 32
      ∧ (t.usedFrames + (b - a)) % 2 ^ 32 = s.usedFrames
      ∧ t.totalFrames = (s.totalFrames + (b - a)) % 2 ^ 32 := by
  rcases Nat.le_total a b with hle | hle
  · refine Loop.forRange_induct _
      (P := fun i (t : Pmm) => t.usedFrames < 2 ^ 32 ∧ t.totalFrames < 2 ^ 32
        ∧ (t.usedFrames + (i - a)) % 2 ^ 32 = s.usedFrames
        ∧ t.totalFrames = (s.totalFrames + (i - a)) % 2 ^ 32) hle ?_ ?_
    · refine ⟨hused, htotal, ?_, ?_⟩
      · rw [Nat.sub_self, Nat.add_zero, Nat.mod_eq_of_lt hused]
      · rw [Nat.sub_self, Nat.add_zero, Nat.mod_eq_of_lt htotal]
    · rintro i t hi - ⟨hu, ht, husum, htsum⟩
      have hused' : (clearFrame i t).usedFrames
          = if t.usedFrames = 0 then 2 ^ 32 - 1 else t.usedFrames - 1 := rfl
      have htotal' : (clearFrame i t).totalFrames = (t.totalFrames + 1) % 2 ^ 32 := rfl
      have hsub : i + 1 - a = i - a + 1 := by omega
      rw [hused', htotal', hsub]
      generalize i - a = n at husum htsum
      split
      · exact ⟨by omega, by omega, by omega, by omega⟩
      · exact ⟨by omega, by omega, by omega, by omega⟩
  · rw [Loop.forRange_of_le hle, Nat.sub_eq_zero_of_le hle]
    exact ⟨hused, htotal, Nat.mod_eq_of_lt hused, (Nat.mod_eq_of_lt htotal).symm⟩

theorem counters_freeRegion (r : MmapRegion) {s : Pmm} (hused : s.usedFrames < 2 ^ 32)
    (htotal : s.totalFrames < 2 ^ 32) :
    (freeRegion s r).usedFrames < 2 ^ 32 ∧ (freeRegion s r).totalFrames < 2 ^ 32
      ∧ ((freeRegion s r).usedFrames + r.freed) % 2 ^ 32 = s.usedFrames
      ∧ (freeRegion s r).totalFrames = (s.totalFrames + r.freed) % 2 ^ 32 := by
  by_cases hr : r.Available
  · rw [freeRegion_available hr, MmapRegion.freed, if_pos hr]
    exact counters_clearFrames _ _ hused htotal
  · rw [freeRegion_reserved hr, MmapRegion.freed, if_neg hr]
    exact ⟨hused, htotal, Nat.mod_eq_of_lt hused, (Nat.mod_eq_of_lt htotal).symm⟩

theorem counters_foldl : ∀ (regions : List MmapRegion) {s : Pmm}, s.usedFrames < 2 ^ 32 →
    s.totalFrames < 2 ^ 32 →
    (regions.foldl freeRegion s).usedFrames < 2 ^ 32
      ∧ ((regions.foldl freeRegion s).usedFrames + freedTotal regions) % 2 ^ 32 = s.usedFrames
      ∧ (regions.foldl freeRegion s).totalFrames
        = (s.totalFrames + freedTotal regions) % 2 ^ 32
  | [], s, hused, htotal =>
      ⟨hused, Nat.mod_eq_of_lt hused, (Nat.mod_eq_of_lt htotal).symm⟩
  | r :: rs, s, hused, htotal => by
      obtain ⟨hu, ht, husum, htsum⟩ := counters_freeRegion r hused htotal
      obtain ⟨hu', husum', htsum'⟩ := counters_foldl rs hu ht
      have htotal_eq : freedTotal (r :: rs) = r.freed + freedTotal rs := by
        simp [freedTotal]
      rw [List.foldl_cons, htotal_eq]
      exact ⟨hu', by omega, by omega⟩

/-- At the end of the region loop the counters tell the turns of the inner loop. -/
theorem counters_clearRegions (regions : List MmapRegion) (s₀ : Pmm) :
    Balanced (freedTotal regions) (Nat.count (Cleared regions) 32768) (clearRegions regions s₀)
      ∧ (clearRegions regions s₀).totalFrames = freedTotal regions % 2 ^ 32 := by
  have hstart : (markAllUsed s₀).usedFrames = 32768 := rfl
  have hzero : (markAllUsed s₀).totalFrames = 0 := rfl
  obtain ⟨hlt, hused, htotal⟩ := counters_foldl regions
    (show (markAllUsed s₀).usedFrames < 2 ^ 32 by rw [hstart]; decide)
    (show (markAllUsed s₀).totalFrames < 2 ^ 32 by rw [hzero]; decide)
  rw [hstart] at hused
  rw [hzero, Nat.zero_add] at htotal
  have hzeros : (clearRegions regions s₀).zeros = Nat.count (Cleared regions) 32768 :=
    Bitmap.count_congr fun f hf => bitmapTest_clearRegions hf
  have hsum := (clearRegions regions s₀).ones_add_zeros
  refine ⟨⟨hlt, ?_⟩, htotal⟩
  rw [← hzeros, hsum]
  exact hused

/-! ## The rest of `pmm_init` -/

/-- `pmm_init` up to the loop that marks the kernel image. -/
def reserveLow (regions : List MmapRegion) (s₀ : Pmm) : Pmm :=
  Loop.forRange 0 (min lowEnd pmmMaxFrames) reserveFrame (clearRegions regions s₀)

/-- The reserving loops keep what a turn on a frame in range keeps. -/
theorem reserve_keeps {P : Pmm → Prop}
    (hstep : ∀ f s, f < pmmMaxFrames → P s → P (reserveFrame f s))
    {a b : Nat} (hb : b ≤ pmmMaxFrames) {s : Pmm} (h : P s) :
    P (Loop.forRange a b reserveFrame s) :=
  Loop.forRange_preserves h fun i _ _ hi => hstep i _ (Nat.lt_of_lt_of_le hi hb)

theorem image_frameEnd_le (img : KernelImage) : img.frameEnd ≤ pmmMaxFrames := by
  simp only [KernelImage.frameEnd]
  split <;> omega

/-- What the region loop establishes and reserving a frame keeps holds after `pmm_init`. -/
theorem pmmInit_keeps {P : Pmm → Prop}
    (hstep : ∀ f s, f < pmmMaxFrames → P s → P (reserveFrame f s)) (img : KernelImage)
    {regions : List MmapRegion} {s₀ : Pmm} (h : P (clearRegions regions s₀)) :
    P (pmmInit img regions s₀) :=
  reserve_keeps hstep (image_frameEnd_le img)
    (reserve_keeps hstep (Nat.min_le_right ..) h)

theorem reserveFrame_total (f : Nat) (s : Pmm) :
    (reserveFrame f s).totalFrames = s.totalFrames := by
  rw [reserveFrame]
  split <;> rfl

/-- The counters after `pmm_init`. -/
theorem counters_pmmInit (img : KernelImage) (regions : List MmapRegion) (s₀ : Pmm) :
    Balanced (freedTotal regions) (Nat.count (Cleared regions) 32768) (pmmInit img regions s₀)
      ∧ (pmmInit img regions s₀).totalFrames = freedTotal regions % 2 ^ 32 := by
  obtain ⟨hbal, htotal⟩ := counters_clearRegions regions s₀
  exact ⟨pmmInit_keeps (fun _ _ hf h => h.reserve hf) img hbal,
    pmmInit_keeps (P := fun s => s.totalFrames = freedTotal regions % 2 ^ 32)
      (fun f s _ h => (reserveFrame_total f s).trans h) img htotal⟩

/-! ## Disjoint regions -/

/-- No two available regions share a byte. -/
def AvailableDisjoint (regions : List MmapRegion) : Prop :=
  regions.Pairwise fun r r' => r.Available → r'.Available → ∀ a, r.HasByte a → ¬ r'.HasByte a

/-- The available regions end where frame numbers fit in 32 bits. -/
def AvailableBounded (regions : List MmapRegion) : Prop :=
  ∀ r ∈ regions, r.Available → r.base + r.length ≤ 2 ^ 44 - 4096

/-- The frames of a bounded region lie in it. -/
theorem MmapRegion.contains_iff {r : MmapRegion} (hr : r.base + r.length ≤ 2 ^ 44 - 4096) {f : Nat}
    (hf : f < pmmMaxFrames) : r.Contains f ↔ r.frameStart ≤ f ∧ f < r.frameEnd := by
  rw [frameStart_le_iff hr, lt_frameEnd_iff hr hf]
  exact Iff.rfl

theorem frameEnd_le (r : MmapRegion) : r.frameEnd ≤ pmmMaxFrames := by
  simp only [MmapRegion.frameEnd]
  split <;> omega

theorem cleared_iff_contains {regions : List MmapRegion} (hb : AvailableBounded regions) {f : Nat}
    (hf : f < pmmMaxFrames) : Cleared regions f ↔ ∃ r ∈ regions, r.Available ∧ r.Contains f := by
  constructor
  · rintro ⟨r, hr, havail, hrange⟩
    exact ⟨r, hr, havail, (r.contains_iff (hb r hr havail) hf).mpr hrange⟩
  · rintro ⟨r, hr, havail, hcont⟩
    exact ⟨r, hr, havail, (r.contains_iff (hb r hr havail) hf).mp hcont⟩

/-- The counters agree with the bits: all frames that are not used have been counted. -/
structure Pmm.Tallied (s : Pmm) : Prop where
  used_eq : s.usedFrames = s.ones
  total_eq : s.totalFrames + s.ones = 32768

/-- Clearing a bit that is set. -/
theorem Pmm.Tallied.clear {s : Pmm} (h : s.Tallied) {f : Nat} (hf : f < pmmMaxFrames)
    (hset : bitmapTest s f = true) : (clearFrame f s).Tallied := by
  have hones : s.ones = (clearFrame f s).ones + 1 := ones_bitmapClear hf hset
  have hused : (clearFrame f s).usedFrames
      = if s.usedFrames = 0 then 2 ^ 32 - 1 else s.usedFrames - 1 := rfl
  have htotal : (clearFrame f s).totalFrames = (s.totalFrames + 1) % 2 ^ 32 := rfl
  have h1 := h.used_eq
  have h2 := h.total_eq
  rw [if_neg (by omega)] at hused
  rw [Nat.mod_eq_of_lt (by omega)] at htotal
  exact ⟨by omega, by omega⟩

/-- The loop over frames whose bits are all set. -/
theorem Pmm.Tallied.clearFrames {s : Pmm} (h : s.Tallied) {a b : Nat} (hb : b ≤ pmmMaxFrames)
    (hset : ∀ f, a ≤ f → f < b → bitmapTest s f = true) :
    (Loop.forRange a b clearFrame s).Tallied := by
  rcases Nat.le_total a b with hle | hle
  · -- the bits ahead are still set
    refine (Loop.forRange_induct clearFrame
      (P := fun i t => t.Tallied ∧ ∀ f, i ≤ f → f < b → bitmapTest t f = true) hle
      ⟨h, hset⟩ ?_).1
    rintro i t - hib ⟨ht, hahead⟩
    refine ⟨ht.clear (by omega) (hahead i (Nat.le_refl i) hib), fun f hf hfb => ?_⟩
    rw [clearFrame, bitmapTest_usedDec, bitmapTest_totalInc, bitmapTest_bitmapClear,
      hahead f (by omega) hfb]
    simp only [Bool.and_true, Bool.not_eq_true', decide_eq_false_iff_not]
    omega
  · rwa [Loop.forRange_of_le hle]

/-- A frame of an available region is still set when the region's turn comes. -/
theorem set_of_disjoint {rs : List MmapRegion} {r : MmapRegion} {s₀ : Pmm}
    (hdisj : AvailableDisjoint (rs ++ [r])) (hb : AvailableBounded (rs ++ [r]))
    (hr : r.Available) {f : Nat} (hstart : r.frameStart ≤ f) (hend : f < r.frameEnd) :
    bitmapTest (clearRegions rs s₀) f = true := by
  have hf : f < pmmMaxFrames := Nat.lt_of_lt_of_le hend (frameEnd_le r)
  by_contra hclear
  have hbs : AvailableBounded rs := fun r' hr' => hb r' (List.mem_append_left _ hr')
  obtain ⟨r', hr', havail, hcont⟩ := (cleared_iff_contains hbs hf).mp
    ((bitmapTest_clearRegions hf).mp (Bool.eq_false_iff.mpr hclear))
  obtain ⟨h1, h2⟩ := (r.contains_iff (hb r (by simp) hr) hf).mpr ⟨hstart, hend⟩
  obtain ⟨h1', h2'⟩ := hcont
  -- the first byte of the page lies in both regions
  exact (List.pairwise_append.mp hdisj).2.2 r' hr' r (by simp) havail hr (4096 * f)
    ⟨h1', by omega⟩ ⟨h1, by omega⟩

/-- The counters in the middle of the region loop. -/
theorem tallied_clearRegions {s₀ : Pmm} : ∀ {rs : List MmapRegion}, AvailableDisjoint rs →
    AvailableBounded rs → (clearRegions rs s₀).Tallied := by
  intro rs
  induction rs using List.reverseRecOn with
  | nil =>
      intro _ _
      have hones := ones_markAllUsed s₀
      have hused : (markAllUsed s₀).usedFrames = 32768 := rfl
      have htotal : (markAllUsed s₀).totalFrames = 0 := rfl
      exact ⟨hused.trans hones.symm, by rw [clearRegions, List.foldl_nil, hones, htotal]⟩
  | append_singleton rs r ih =>
      intro hdisj hb
      have htallied := ih (List.pairwise_append.mp hdisj).1
        fun r' hr' => hb r' (List.mem_append_left _ hr')
      have happend : clearRegions (rs ++ [r]) s₀ = freeRegion (clearRegions rs s₀) r :=
        List.foldl_append
      rw [happend]
      by_cases hr : r.Available
      · rw [freeRegion_available hr]
        exact htallied.clearFrames (frameEnd_le r) fun f h1 h2 => set_of_disjoint hdisj hb hr h1 h2
      · rwa [freeRegion_reserved hr]

/-! ## Updates of the counters -/

/-- The updates of the two counters. -/
inductive CounterUpdate
  | totalInc
  | usedInc
  | usedDec

/-- The update wraps in this state. -/
def CounterUpdate.Wraps : CounterUpdate → Pmm → Prop
  | .totalInc, s => 2 ^ 32 ≤ s.totalFrames + 1
  | .usedInc, s => 2 ^ 32 ≤ s.usedFrames + 1
  | .usedDec, s => s.usedFrames = 0

/-- `pmm_init` makes this update in this state: in the region loop at frame `f` of a region,
and in the two loops that mark frames as used again. -/
inductive InitUpdate (img : KernelImage) (regions : List MmapRegion) (s₀ : Pmm) :
    Pmm → CounterUpdate → Prop
  | total {rs rest : List MmapRegion} {r : MmapRegion} {f : Nat}
      (hsplit : regions = rs ++ r :: rest) (hr : r.Available) (hstart : r.frameStart ≤ f)
      (hend : f < r.frameEnd) : InitUpdate img regions s₀
        (bitmapClear (Loop.forRange r.frameStart f clearFrame (clearRegions rs s₀)) f) .totalInc
  | used {rs rest : List MmapRegion} {r : MmapRegion} {f : Nat}
      (hsplit : regions = rs ++ r :: rest) (hr : r.Available) (hstart : r.frameStart ≤ f)
      (hend : f < r.frameEnd) : InitUpdate img regions s₀
        (bitmapClear (Loop.forRange r.frameStart f clearFrame (clearRegions rs s₀)) f).totalInc
        .usedDec
  | low {f : Nat} {s : Pmm} (hf : f < min lowEnd pmmMaxFrames)
      (hs : s = Loop.forRange 0 f reserveFrame (clearRegions regions s₀))
      (hclear : bitmapTest s f = false) : InitUpdate img regions s₀ (bitmapSet s f) .usedInc
  | kernel {f : Nat} {s : Pmm} (hstart : img.frameStart ≤ f) (hend : f < img.frameEnd)
      (hs : s = Loop.forRange img.frameStart f reserveFrame (reserveLow regions s₀))
      (hclear : bitmapTest s f = false) : InitUpdate img regions s₀ (bitmapSet s f) .usedInc

/-- A call in state `s` makes this update in this state. -/
inductive CallUpdate (s : Pmm) : Pmm → CounterUpdate → Prop
  | alloc {f : Nat} (hscan : scanFrames s = some (some f)) : CallUpdate s (bitmapSet s f) .usedInc
  | free {addr : Nat} (hrange : wrap32 (addr / pmmPageSize) < pmmMaxFrames)
      (hset : bitmapTest s (wrap32 (addr / pmmPageSize)) = true) :
      CallUpdate s (bitmapClear s (wrap32 (addr / pmmPageSize))) .usedDec

/-- Calls of the two operations, `pmm_free_frame` with any 64-bit address. -/
inductive PmmCall : Pmm → Pmm → Prop
  | alloc {s : Pmm} : PmmCall s (pmmAllocFrame s).1
  | free {s : Pmm} {addr : Nat} : addr < 2 ^ 64 → PmmCall s (pmmFreeFrame s addr)

/-- The counter is the number of set bits. -/
theorem Balanced.exact {s : Pmm} (h : Balanced 0 0 s) : s.usedFrames = s.ones := by
  have hlt := h.used_lt
  have hbal := h.balance
  have hsum := s.ones_add_zeros
  omega

theorem Pmm.Tallied.balanced {s : Pmm} (h : s.Tallied) : Balanced 0 0 s := by
  have hsum := s.ones_add_zeros
  exact ⟨by rw [h.used_eq]; omega, by rw [h.used_eq]⟩

/-- Counting a frame that has just been taken does not wrap. -/
theorem Balanced.not_wraps_take {s : Pmm} (h : Balanced 0 0 s) {f : Nat} (hf : s.Free f) :
    ¬ CounterUpdate.usedInc.Wraps (bitmapSet s f) := by
  intro hwraps
  have hused : 2 ^ 32 ≤ s.usedFrames + 1 := hwraps
  have hones := ones_bitmapSet hf
  have hsum := (bitmapSet s f).ones_add_zeros
  have hexact := h.exact
  omega

/-- Nor does discounting one that has just been given back. -/
theorem Balanced.not_wraps_give {s : Pmm} (h : Balanced 0 0 s) {f : Nat} (hf : f < pmmMaxFrames)
    (hset : bitmapTest s f = true) : ¬ CounterUpdate.usedDec.Wraps (bitmapClear s f) := by
  intro hwraps
  have hused : s.usedFrames = 0 := hwraps
  have hones := ones_bitmapClear hf hset
  have hexact := h.exact
  omega

/-- The region loop meets only frames that are set. -/
theorem tallied_turn {regions rs rest : List MmapRegion} {r : MmapRegion} {f : Nat} (s₀ : Pmm)
    (hdisj : AvailableDisjoint regions) (hb : AvailableBounded regions)
    (hsplit : regions = rs ++ r :: rest) (hr : r.Available) (hstart : r.frameStart ≤ f)
    (hend : f < r.frameEnd) :
    (Loop.forRange r.frameStart f clearFrame (clearRegions rs s₀)).Tallied
      ∧ bitmapTest (Loop.forRange r.frameStart f clearFrame (clearRegions rs s₀)) f = true := by
  have hsub : (rs ++ [r]).Sublist regions := by
    rw [hsplit]
    exact (List.Sublist.refl rs).append (List.singleton_sublist.mpr List.mem_cons_self)
  have hdisj' : AvailableDisjoint (rs ++ [r]) := List.Pairwise.sublist hsub hdisj
  have hb' : AvailableBounded (rs ++ [r]) := fun r' hr' => hb r' (hsub.subset hr')
  have hset : ∀ g, r.frameStart ≤ g → g < r.frameEnd → bitmapTest (clearRegions rs s₀) g = true :=
    fun g h1 h2 => set_of_disjoint hdisj' hb' hr h1 h2
  have hle := frameEnd_le r
  constructor
  · refine (tallied_clearRegions (List.pairwise_append.mp hdisj').1 fun r' hr' =>
      hb' r' (List.mem_append_left _ hr')).clearFrames (by omega) fun g h1 h2 => ?_
    exact hset g h1 (by omega)
  · by_contra hclear
    rcases (bitmapTest_clearFrames ..).mp (Bool.eq_false_iff.mpr hclear) with h | h
    · rw [hset f hstart hend] at h
      cases h
    · omega

/-- `used_frames` is the number of set bits after `pmm_init` and any calls, and no update of a
counter wraps, if the available regions are disjoint and lie below 2^44. -/
theorem usedFrames_exact (img : KernelImage) {regions : List MmapRegion} (s₀ : Pmm)
    (hdisj : AvailableDisjoint regions) (hb : AvailableBounded regions) :
    (∀ t u, InitUpdate img regions s₀ t u → ¬ u.Wraps t) ∧
      ∀ s, Reachable (fun s => s = pmmInit img regions s₀) PmmCall s →
        s.usedFrames = s.ones ∧ ∀ t u, CallUpdate s t u → ¬ u.Wraps t := by
  have hkeep : ∀ f s, f < pmmMaxFrames → Balanced 0 0 s → Balanced 0 0 (reserveFrame f s) :=
    fun _ _ hf h => h.reserve hf
  have hclear : Balanced 0 0 (clearRegions regions s₀) := (tallied_clearRegions hdisj hb).balanced
  have hlow : Balanced 0 0 (reserveLow regions s₀) :=
    reserve_keeps hkeep (Nat.min_le_right ..) hclear
  constructor
  · intro t u hu
    cases hu with
    | total hsplit hr hstart hend =>
        obtain ⟨htallied, hset⟩ := tallied_turn s₀ hdisj hb hsplit hr hstart hend
        intro hwraps
        have htotal : 2 ^ 32 ≤ Pmm.totalFrames _ + 1 := hwraps
        have heq := htallied.total_eq
        simp only [bitmapClear] at htotal
        omega
    | @used _ _ r f hsplit hr hstart hend =>
        obtain ⟨htallied, hset⟩ := tallied_turn s₀ hdisj hb hsplit hr hstart hend
        exact htallied.balanced.not_wraps_give (Nat.lt_of_lt_of_le hend (frameEnd_le r)) hset
    | @low f s hf hs hbit =>
        have hmax : f < pmmMaxFrames := Nat.lt_of_lt_of_le hf (Nat.min_le_right ..)
        have hbal : Balanced 0 0 s := hs ▸ reserve_keeps hkeep (Nat.le_of_lt hmax) hclear
        exact hbal.not_wraps_take ⟨hmax, hbit⟩
    | @kernel f s hstart hend hs hbit =>
        have hmax : f < pmmMaxFrames := Nat.lt_of_lt_of_le hend (image_frameEnd_le img)
        have hbal : Balanced 0 0 s := hs ▸ reserve_keeps hkeep (Nat.le_of_lt hmax) hlow
        exact hbal.not_wraps_take ⟨hmax, hbit⟩
  · intro s hs
    have hbal : Balanced 0 0 s := by
      refine hs.invariant (fun s h => h ▸ pmmInit_keeps hkeep img hclear) ?_
      intro s t h hcall
      cases hcall with
      | alloc => exact h.alloc
      | free _ => exact h.free _
    refine ⟨hbal.exact, fun t u hu => ?_⟩
    cases hu with
    | alloc hscan =>
        rcases scanFrames_spec s with ⟨hnone, -⟩ | ⟨g, hsome, hg, -⟩
        · rw [hscan] at hnone
          cases hnone
        · rw [hscan] at hsome
          cases hsome
          exact hbal.not_wraps_take hg
    | free hrange hset => exact hbal.not_wraps_give hrange hset

theorem Bounded.available {regions : List MmapRegion} (h : Bounded regions) :
    AvailableBounded regions := fun r hr _ => h r hr

theorem availableDisjoint_sampleMap : AvailableDisjoint sampleMap := by
  simp only [AvailableDisjoint, sampleMap, List.pairwise_cons, List.mem_cons, MmapRegion.HasByte]
  refine ⟨?_, ?_, by simp, List.Pairwise.nil⟩
  · rintro r (rfl | rfl | h) - havail a ha
    · exact absurd havail (by decide)
    · dsimp only at ha ⊢
      omega
    · cases h
  · rintro r (rfl | h) havail
    · exact absurd havail (by decide)
    · cases h

/-- A used frame may be given back twice, and an address above 2^44 may be given back, without
harm to the counter of a small machine. -/
theorem usedFrames_exact_sample :
    let s := pmmFreeFrame (pmmFreeFrame (pmmInit sampleImage sampleMap ⟨fun _ => 0, 0, 0⟩) 0x100000)
      (2 ^ 44 + 0x100000)
    s.usedFrames = s.ones := by
  have hb : Bounded sampleMap := by decide
  refine ((usedFrames_exact sampleImage ⟨fun _ => 0, 0, 0⟩ availableDisjoint_sampleMap
    hb.available).2 _ ?_).1
  exact .step (.step (.init rfl) (.free (by decide))) (.free (by decide))

/-! ## The free count -/

/-- The state after `n` calls of `pmm_alloc_frame`. -/
def allocs : Nat → Pmm → Pmm
  | 0, s => s
  | n + 1, s => allocs n (pmmAllocFrame s).1

/-- Successive calls of `pmm_alloc_frame` return `n` frames and then 0. -/
def Returns (s : Pmm) (n : Nat) : Prop :=
  (∀ i, i < n → (pmmAllocFrame (allocs i s)).2 ≠ 0) ∧ (pmmAllocFrame (allocs n s)).2 = 0

/-- The number of frames returned is one number. -/
theorem Returns.unique {s : Pmm} {m n : Nat} (hm : Returns s m) (hn : Returns s n) : m = n := by
  rcases Nat.lt_trichotomy m n with h | h | h
  · exact absurd hm.2 (hn.1 m h)
  · exact h
  · exact absurd hn.2 (hm.1 n h)

/-- As many frames are returned as bits are clear, if frame 0 is not free. -/
theorem returns_zeros : ∀ {n : Nat} {s : Pmm}, s.zeros = n →
    (∀ f, s.Free f → f * pmmPageSize ≠ 0) → Returns s n := by
  intro n
  induction n with
  | zero =>
      intro s hzeros _
      refine ⟨fun i hi => absurd hi (Nat.not_lt_zero i), ?_⟩
      rcases pmmAllocFrame_cases s with ⟨hzero, -⟩ | ⟨f, hf, -⟩
      · exact congrArg Prod.snd hzero
      · exact absurd hf (s.zeros_eq_zero_iff.mp hzeros f)
  | succ n ih =>
      intro s hzeros hpos
      rcases pmmAllocFrame_cases s with ⟨-, hnone⟩ | ⟨f, hf, -, hsome⟩
      · have := s.zeros_eq_zero_iff.mpr hnone
        omega
      · have hones : (bitmapSet s f).usedInc.ones = s.ones + 1 := ones_bitmapSet hf
        have hsum := s.ones_add_zeros
        have hsum' := (bitmapSet s f).usedInc.ones_add_zeros
        obtain ⟨hrest, hend⟩ := ih (show (bitmapSet s f).usedInc.zeros = n by omega) fun g hg =>
          hpos g ((free_bitmapSet_usedInc s f g).mp hg).1
        have hnext : ∀ i, allocs (i + 1) s = allocs i (bitmapSet s f).usedInc := fun i => by
          rw [allocs, hsome]
        refine ⟨fun i hi => ?_, by rw [hnext]; exact hend⟩
        cases i with
        | zero =>
            rw [allocs, hsome]
            exact hpos f hf
        | succ i =>
            rw [hnext]
            exact hrest i (Nat.lt_of_succ_lt_succ hi)

/-- `pmm_get_free_count` is the number of frames still to be had, after `pmm_init` and any
allocations and frees of live frames, and at most `pmm_get_total_count`. -/
def FreeCountTruthful (img : KernelImage) (regions : List MmapRegion) (s₀ : Pmm) : Prop :=
  ∀ h, Reachable (PmmHistory.Start img regions s₀) PmmStep h →
    Returns h.state (pmmGetFreeCount h.state) ∧ pmmGetFreeCount h.state = h.state.zeros
      ∧ pmmGetFreeCount h.state ≤ pmmGetTotalCount h.state

/-- The counters along a history. -/
theorem counters_history {img : KernelImage} {regions : List MmapRegion} {s₀ : Pmm}
    {h : PmmHistory} (hr : Reachable (PmmHistory.Start img regions s₀) PmmStep h) :
    Balanced (freedTotal regions) (Nat.count (Cleared regions) 32768) h.state
      ∧ h.state.totalFrames = freedTotal regions % 2 ^ 32 := by
  refine Reachable.invariant (P := fun h => Balanced (freedTotal regions)
      (Nat.count (Cleared regions) 32768) h.state
    ∧ h.state.totalFrames = freedTotal regions % 2 ^ 32) (fun h hstart => ?_)
    (fun h h' hinv hstep => ?_) hr
  · rw [hstart]
    exact counters_pmmInit img regions s₀
  · have htotal : ∀ s : Pmm, (pmmAllocFrame s).1.totalFrames = s.totalFrames := by
      intro s
      rcases pmmAllocFrame_cases s with ⟨hzero, -⟩ | ⟨f, -, -, hsome⟩
      · rw [hzero]
      · rw [hsome]
        rfl
    obtain ⟨hbal, heq⟩ := hinv
    cases hstep with
    | @allocNone s s' live halloc =>
        have hfst : (pmmAllocFrame s).1 = s' := congrArg Prod.fst halloc
        exact hfst ▸ ⟨hbal.alloc, (htotal s).trans heq⟩
    | @allocSome s s' live a halloc _ =>
        have hfst : (pmmAllocFrame s).1 = s' := congrArg Prod.fst halloc
        exact hfst ▸ ⟨hbal.alloc, (htotal s).trans heq⟩
    | @free s live a _ =>
        refine ⟨hbal.free a, Eq.trans ?_ heq⟩
        simp only [pmmFreeFrame]
        split
        · rfl
        · split <;> rfl

/-- What `pmm_get_free_count` returns is right exactly if the two baselines agree. -/
theorem pmmGetFreeCount_eq_iff {freed cleared : Nat} {s : Pmm} (h : Balanced freed cleared s)
    (htotal : s.totalFrames = freed % 2 ^ 32) :
    pmmGetFreeCount s = s.zeros ↔ 2 * freed % 2 ^ 32 = (32768 + cleared) % 2 ^ 32 := by
  have hsum := s.ones_add_zeros
  have hlt := h.used_lt
  have hbal := h.balance
  have hcount : pmmGetFreeCount s = (s.totalFrames + 2 ^ 32 - s.usedFrames) % 2 ^ 32 := rfl
  rw [hcount, htotal]
  constructor
  · intro heq
    omega
  · intro heq
    omega

/-- The free frames of a history were free at the start. -/
theorem zeros_le_usable {img : KernelImage} {regions : List MmapRegion} {s₀ : Pmm}
    {h : PmmHistory} (hr : Reachable (PmmHistory.Start img regions s₀) PmmStep h) :
    h.state.zeros ≤ Nat.count (Usable img regions) 32768 :=
  Nat.count_mono_left fun f hf hclear => (free_pmmInit_iff img regions s₀ f).mp
    (((PmmHistory.inv_of_reachable hr).free_iff f).mp ⟨hf, hclear⟩).1

theorem zeros_pmmInit (img : KernelImage) (regions : List MmapRegion) (s₀ : Pmm) :
    (pmmInit img regions s₀).zeros = Nat.count (Usable img regions) 32768 :=
  Bitmap.count_congr fun f hf => ⟨fun h => (free_pmmInit_iff img regions s₀ f).mp ⟨hf, h⟩,
    fun h => ((free_pmmInit_iff img regions s₀ f).mpr h).2⟩

/-- The free count for any list of regions.  Overlapping regions and truncated bounds are
counted as often as the loop meets them. -/
theorem freeCountTruthful_iff_counts (img : KernelImage) (regions : List MmapRegion) (s₀ : Pmm) :
    FreeCountTruthful img regions s₀ ↔
      2 * freedTotal regions % 2 ^ 32 = (32768 + Nat.count (Cleared regions) 32768) % 2 ^ 32
        ∧ Nat.count (Usable img regions) 32768 ≤ freedTotal regions % 2 ^ 32 := by
  constructor
  · intro htrue
    obtain ⟨-, hcount, hle⟩ := htrue _ (.init rfl)
    obtain ⟨hbal, htotal⟩ := counters_pmmInit img regions s₀
    refine ⟨(pmmGetFreeCount_eq_iff hbal htotal).mp hcount, ?_⟩
    rw [hcount] at hle
    rw [← zeros_pmmInit img regions s₀, ← htotal]
    exact hle
  · rintro ⟨hbase, hle⟩ h hr
    obtain ⟨hbal, htotal⟩ := counters_history hr
    have hcount := (pmmGetFreeCount_eq_iff hbal htotal).mpr hbase
    refine ⟨returns_zeros hcount.symm fun f hf => ?_, hcount, ?_⟩
    · exact free_pmmInit_pos (((PmmHistory.inv_of_reachable hr).free_iff f).mp hf).1
    · rw [hcount, pmmGetTotalCount, htotal]
      exact Nat.le_trans (zeros_le_usable hr) hle

/-- The free count for disjoint regions below 2^44. -/
theorem freeCountTruthful_iff_full (img : KernelImage) {regions : List MmapRegion} (s₀ : Pmm)
    (hdisj : AvailableDisjoint regions) (hb : AvailableBounded regions) :
    FreeCountTruthful img regions s₀ ↔
      ∀ f, f < 32768 → ∃ r ∈ regions, r.Available ∧ r.Contains f := by
  -- every frame is cleared once
  have htallied : (clearRegions regions s₀).Tallied := tallied_clearRegions hdisj hb
  obtain ⟨hbal, htotal⟩ := counters_clearRegions regions s₀
  have hused := htallied.used_eq
  have hsum := htallied.total_eq
  have hbalance := hbal.balance
  have hle : Nat.count (Cleared regions) 32768 ≤ 32768 := Nat.count_le _
  have husable : Nat.count (Usable img regions) 32768 ≤ Nat.count (Cleared regions) 32768 :=
    Nat.count_mono_left fun f _ hf => hf.2.2.2
  have hall : Nat.count (Cleared regions) 32768 = 32768
      ↔ ∀ f, f < 32768 → ∃ r ∈ regions, r.Available ∧ r.Contains f := by
    rw [Nat.count_iff_forall]
    exact forall_congr' fun f => forall_congr' fun hf => cleared_iff_contains hb hf
  rw [freeCountTruthful_iff_counts, ← hall]
  rw [hused] at hbalance
  rw [htotal] at hsum
  constructor
  · rintro ⟨hbase, -⟩
    omega
  · intro hfull
    exact ⟨by omega, by omega⟩

/-- When the free count is right: for any list of regions, if the turns of the region loop and
the frames it clears fit together, and for disjoint regions below 2^44 exactly if all of the
first 128 MiB is available. -/
theorem freeCountTruthful_iff (img : KernelImage) (regions : List MmapRegion) (s₀ : Pmm) :
    (FreeCountTruthful img regions s₀ ↔
      2 * freedTotal regions % 2 ^ 32 = (32768 + Nat.count (Cleared regions) 32768) % 2 ^ 32
        ∧ Nat.count (Usable img regions) 32768 ≤ freedTotal regions % 2 ^ 32) ∧
      (AvailableDisjoint regions → AvailableBounded regions →
        (FreeCountTruthful img regions s₀ ↔
          ∀ f, f < 32768 → ∃ r ∈ regions, r.Available ∧ r.Contains f)) :=
  ⟨freeCountTruthful_iff_counts img regions s₀, freeCountTruthful_iff_full img s₀⟩

/-- The free count is right if the map is one region of 128 MiB. -/
theorem freeCountTruthful_full :
    FreeCountTruthful sampleImage [⟨0, 0x8000000, 1⟩] ⟨fun _ => 0, 0, 0⟩ := by
  refine ((freeCountTruthful_iff sampleImage _ _).2 (List.pairwise_singleton _ _) ?_).mpr ?_
  · intro r hr _
    rw [List.mem_singleton.mp hr]
    decide
  · intro f hf
    refine ⟨_, List.mem_singleton_self _, rfl, ?_⟩
    simp only [MmapRegion.Contains]
    omega

/-- On a small machine it is not: the hole below 1 MiB is not counted in the total. -/
theorem freeCount_wrong : ¬ FreeCountTruthful sampleImage sampleMap ⟨fun _ => 0, 0, 0⟩ := by
  have hb : Bounded sampleMap := by decide
  rw [freeCountTruthful_iff_full sampleImage _ availableDisjoint_sampleMap hb.available]
  intro hall
  have hhole : ¬ ∃ r ∈ sampleMap, r.Available ∧ r.Contains 0x9F := by decide
  exact hhole (hall 0x9F (by decide))

end TunaOs
