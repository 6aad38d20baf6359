import TunaOs.Pmm.Exclusive

/-!
# The ring-0 entry stack

`kernel_main` gives the TSS a stack of 16 KiB that ends at
`(_kernel_end + 0x4000) & ~0xF`.  The comment there calls it the boot stack, but
the boot stack lies in `.bss`, below `_kernel_end`, and `pmm_init` reserves
nothing above `_kernel_end`.  `entryStackSafe_iff` says for which memory maps no
frame of that stack is ever handed out: those in which no frame that meets it
is usable.  The proof needs that every free frame is handed out by some
history (`exists_history_returning`).
-/

namespace TunaOs

open Run (Reachable)
open Word

/-- `struct tss`, the fields `tss_init` sets. -/
structure Tss where
  /-- `rsp0`. -/
  rsp0 : Nat
  /-- `iopb_offset`. -/
  iopbOffset : Nat

/-- `tss_init`: everything zero but `rsp0` and `iopb_offset`, which is
`sizeof(struct tss)`. -/
def tssInit (kernelStack : Nat) : Tss := ⟨kernelStack, 104⟩

/-- `kernel_stack_top` of `kernel_main`. -/
def kernelStackTop (img : KernelImage) : Nat := wrap64 (img.stop + 0x4000) &&& highMask 4

/-- The TSS `kernel_main` installs. -/
def kernelTss (img : KernelImage) : Tss := tssInit (kernelStackTop img)

/-- The page at `a` meets the 16 KiB below `rsp0`. -/
def MeetsEntryStack (img : KernelImage) (a : Nat) : Prop :=
  a < (kernelTss img).rsp0 ∧ (kernelTss img).rsp0 - 0x4000 < a + 4096

instance (img : KernelImage) (a : Nat) : Decidable (MeetsEntryStack img a) :=
  inferInstanceAs (Decidable (_ ∧ _))

/-- No history of the allocator returns a frame that meets the entry stack. -/
def EntryStackSafe (img : KernelImage) (regions : List MmapRegion) (s₀ : Pmm) : Prop :=
  ∀ h, Reachable (PmmHistory.Start img regions s₀) PmmStep h →
    (pmmAllocFrame h.state).2 ≠ 0 → ¬ MeetsEntryStack img (pmmAllocFrame h.state).2

/-! ## Every free frame is handed out by some history -/

/-- If no frame below `f - k` is free, at most `k` more allocations reach `f`. -/
theorem exists_history_within {img : KernelImage} {regions : List MmapRegion} {s₀ : Pmm}
    {f : Nat} : ∀ (k : Nat) {h : PmmHistory},
      Reachable (PmmHistory.Start img regions s₀) PmmStep h → h.state.Free f →
      (∀ g, h.state.Free g → f ≤ g + k) →
      ∃ h', Reachable (PmmHistory.Start img regions s₀) PmmStep h' ∧
        (pmmAllocFrame h'.state).2 = f * pmmPageSize := by
  intro k
  induction k with
  | zero =>
      intro h hr hf hbelow
      rcases pmmAllocFrame_cases h.state with ⟨-, hnone⟩ | ⟨g, hg, hlow, heq⟩
      · exact absurd hf (hnone f)
      · have hgf : g = f := Nat.le_antisymm (hlow f hf) (hbelow g hg)
        exact ⟨h, hr, by rw [heq, hgf]⟩
  | succ k ih =>
      intro h hr hf hbelow
      rcases pmmAllocFrame_cases h.state with ⟨-, hnone⟩ | ⟨g, hg, hlow, heq⟩
      · exact absurd hf (hnone f)
      · by_cases hgf : g = f
        · exact ⟨h, hr, by rw [heq, hgf]⟩
        · -- take the lower frame `g`, after which every free frame is above it
          have hne : g * pmmPageSize ≠ 0 :=
            free_pmmInit_pos (((PmmHistory.inv_of_reachable hr).free_iff g).mp hg).1
          refine ih (.step hr (PmmStep.allocSome heq hne)) ?_ ?_
          · exact (free_bitmapSet_usedInc _ _ _).mpr ⟨hf, fun h => hgf h.symm⟩
          · intro g' hg'
            obtain ⟨hfree, hne'⟩ := (free_bitmapSet_usedInc _ _ _).mp hg'
            have hle := hlow g' hfree
            have := hbelow g hg
            omega

theorem exists_history_returning {img : KernelImage} {regions : List MmapRegion} (s₀ : Pmm)
    {f : Nat} (hf : Usable img regions f) :
    ∃ h, Reachable (PmmHistory.Start img regions s₀) PmmStep h ∧
      (pmmAllocFrame h.state).2 = f * pmmPageSize :=
  exists_history_within f (.init rfl) ((free_pmmInit_iff img regions s₀ f).mpr hf)
    (fun g _ => Nat.le_add_left f g)

/-! ## The exact condition -/

/-- The entry stack is safe exactly for the memory maps in which no frame that
meets it is usable.  Every memory map and every kernel image are covered, also
maps whose sums wrap. -/
theorem entryStackSafe_iff (img : KernelImage) (regions : List MmapRegion) (s₀ : Pmm) :
    EntryStackSafe img regions s₀ ↔
      ∀ f, MeetsEntryStack img (f * pmmPageSize) → ¬ Usable img regions f := by
  constructor
  · intro hsafe f hmeets husable
    obtain ⟨h, hr, heq⟩ := exists_history_returning s₀ husable
    have hne : f * pmmPageSize ≠ 0 :=
      free_pmmInit_pos ((free_pmmInit_iff img regions s₀ f).mpr husable)
    exact hsafe h hr (by rwa [heq]) (by rwa [heq])
  · intro hcond h hr hne hmeets
    rcases pmmAllocFrame_cases h.state with ⟨heq, -⟩ | ⟨f, hf, -, heq⟩
    · exact hne (by rw [heq])
    · have hinit := (((PmmHistory.inv_of_reachable hr).free_iff f).mp hf).1
      rw [heq] at hmeets
      exact hcond f hmeets ((free_pmmInit_iff img regions s₀ f).mp hinit)

/-- On a small machine the frame right after the kernel image is handed out, and
the entry stack lies in it. -/
theorem entryStack_handed_out : ¬ EntryStackSafe sampleImage sampleMap ⟨fun _ => 0, 0, 0⟩ := by
  intro hsafe
  have husable : Usable sampleImage sampleMap 0x10D := by decide
  obtain ⟨h, hr, heq⟩ := exists_history_returning ⟨fun _ => 0, 0, 0⟩ husable
  have hmeets : MeetsEntryStack sampleImage (0x10D * pmmPageSize) := by decide
  exact hsafe h hr (by rw [heq]; decide) (by rwa [heq])

end TunaOs
