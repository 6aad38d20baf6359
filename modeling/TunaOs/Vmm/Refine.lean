import Mathlib.Logic.Function.Basic
import TunaOs.Lib.Run
import TunaOs.Vmm.Map

/-!
# Page tables refine a partial map

The abstract state of the virtual memory manager is a partial map from pages to
translations.  `MapStep` runs the code and the abstract operations side by side:
`vmm_map_page` updates the map if `alloc_table` has a frame for every level of tables
that the page lacks (`Mach.Obtains`, on the state before the call), and
`vmm_unmap_page` removes the page.  In between, other code may write to frames
that are not tables and draw or give back such frames.  In every reachable state
the walk of the hardware is the abstract map.
-/

namespace TunaOs

open FrameSource (avail)

variable {σ : Type} [FrameSource σ]

/-- A machine, and the map its tables should stand for. -/
structure MapHistory (σ : Type) where
  /-- The machine. -/
  mach : Mach σ
  /-- What is mapped at each page. -/
  mapped : Nat → Option Translation

/-- A map of the address will have its three levels of tables: for each one that is
not there the next call of `alloc_table` gets a frame. -/
def Mach.Obtains (M : Mach σ) (virt : Nat) : Prop := Plenty M.frames (M.missing virt)

instance (M : Mach σ) (virt : Nat) : Decidable (M.Obtains virt) :=
  inferInstanceAs (Decidable (Plenty _ _))

/-- The frame and the rights of a mapping. -/
def mapping (phys flags : Nat) : Translation :=
  ⟨phys &&& pageMask, flags &&& vmmFlagWrite ≠ 0, flags &&& vmmFlagUser ≠ 0⟩

/-- The state right after `vmm_init` has allocated the PML4. -/
def MapHistory.Initial (H : MapHistory σ) : Prop :=
  ∃ M : Mach σ, M.bus = .phys ∧ (allocTable M).1 ≠ 0 ∧ H.mach = newPml4 M
    ∧ H.mapped = fun _ => none

/-- One call, or a step of other code. -/
inductive MapStep : MapHistory σ → MapHistory σ → Prop
  /-- `vmm_map_page (virt, phys, flags)`. -/
  | map {H : MapHistory σ} {virt phys flags : Nat} (hvirt : virt < 2 ^ 48) (hphys : phys < 2 ^ 64)
      (hpresent : flags &&& vmmFlagPresent ≠ 0)
      (hflags : flags ≤ vmmFlagPresent + vmmFlagWrite + vmmFlagUser) :
      MapStep H ⟨(vmmMapPage virt phys flags H.mach).2,
        if H.mach.Obtains virt then
          Function.update H.mapped (pageOf virt) (some (mapping phys flags))
        else H.mapped⟩
  /-- `vmm_unmap_page (virt)`. -/
  | unmap {H : MapHistory σ} {virt : Nat} (hvirt : virt < 2 ^ 48) :
      MapStep H ⟨(vmmUnmapPage virt H.mach).2, Function.update H.mapped (pageOf virt) none⟩
  /-- Other code leaves the tables alone, and the allocator holds none of them. -/
  | other {H : MapHistory σ} {m : Mem} {s : σ}
      (hmem : ∀ x, H.mach.IsTable (frameOf x) → m x = H.mach.mem x)
      (hfrees : ∀ f, avail s f → ¬ H.mach.IsTable f) :
      MapStep H ⟨{ H.mach with mem := m, frames := s }, H.mapped⟩

/-- The tables stand for the map. -/
structure MapHistory.Refines (H : MapHistory σ) : Prop where
  inv : VmInv H.mach
  leaf : ∀ a, decode (H.mach.leaf a) = H.mapped (pageOf a)

theorem decode_mapping {flags : Nat} (phys : Nat)
    (hpresent : flags &&& vmmFlagPresent ≠ 0) (hflags : flags < 8) :
    decode ((phys &&& pageMask) ||| flags) = some (mapping phys flags) := by
  have hp := present_iff.mp hpresent
  have hw : (flags &&& vmmFlagWrite ≠ 0) = (flags.testBit 1 = true) :=
    propext (Word.and_bit_ne_zero (i := 1))
  have hu : (flags &&& vmmFlagUser ≠ 0) = (flags.testBit 2 = true) :=
    propext (Word.and_bit_ne_zero (i := 2))
  have hbase : (phys &&& pageMask) &&& pageMask = phys &&& pageMask := by
    rw [Nat.and_assoc, Nat.and_self]
  rw [decode, if_pos (testBit_or_right hp), or_flags_and_pageMask hflags, hbase, mapping]
  simp only [Nat.testBit_or, testBit_and_pageMask (show 1 < 12 by decide),
    testBit_and_pageMask (show 2 < 12 by decide), Bool.false_or, hw, hu, Bool.decide_eq_true]

theorem MapHistory.Refines.initial {H : MapHistory σ} (h : H.Initial) : H.Refines := by
  obtain ⟨M, hbus, h0, hmach, hmapped⟩ := h
  obtain ⟨hinv, -, -, -, hleaf, -⟩ := newPml4_spec hbus h0 hmach.symm
  refine ⟨hinv, fun a => ?_⟩
  rw [hleaf a, hmapped]
  rfl

theorem MapHistory.Refines.step {H H' : MapHistory σ} (h : H.Refines) (hs : MapStep H H') :
    H'.Refines := by
  cases hs with
  | @map virt phys flags _ hphys hpresent hflags =>
      have hf : flags < 8 := by
        simp only [vmmFlagPresent, vmmFlagWrite, vmmFlagUser] at hflags
        omega
      by_cases hget : H.mach.Obtains virt
      · obtain ⟨-, -, -, hleaf⟩ := vmmMapPage_enough h.inv hf hphys hget rfl
        refine ⟨(vmmMapPage_spec h.inv hf hphys rfl).1, fun a => ?_⟩
        simp only [if_pos hget, hleaf a, Function.update_apply]
        split
        · exact decode_mapping phys hpresent hf
        · exact h.leaf a
      · obtain ⟨-, hdesc⟩ := vmmMapPage_dry h.inv hget rfl
        refine ⟨hdesc.inv, fun a => ?_⟩
        simp only [if_neg hget, hdesc.grows.leaf a id]
        exact h.leaf a
  | unmap =>
      obtain ⟨hinv, -, -, -, hleaf⟩ := vmmUnmapPage_spec h.inv rfl
      refine ⟨hinv, fun a => ?_⟩
      simp only [hleaf a, Function.update_apply]
      split
      · rfl
      · exact h.leaf a
  | @other m s hmem hfree =>
      have hentry : ∀ t, H.mach.IsTable t → ∀ i, entry m t i = entry H.mach.mem t i := by
        intro t ht i
        refine Mem.load_congr fun x h1 h2 => hmem x ?_
        have h0 := h.inv.aligned ht
        have hi := i.isLt
        rwa [show frameOf x = t by simp only [frameOf]; omega]
      obtain ⟨hg, hleaf⟩ := h.inv.tables.congr (N := fun _ => False) hentry
      refine ⟨⟨h.inv.bus, hg.tables, fun f hf ht => ?_⟩, fun a => ?_⟩
      · exact hfree f hf ((hg.new f ht).resolve_right id)
      · rw [← h.leaf a]
        exact congrArg decode (hleaf a)

theorem MapHistory.refines_of_reachable {H : MapHistory σ}
    (h : Run.Reachable MapHistory.Initial MapStep H) : H.Refines :=
  h.invariant (fun _ => .initial) fun _ _ h hs => h.step hs

theorem MapHistory.Refines.walk_eq {H : MapHistory σ} (h : H.Refines) (a : Nat) :
    walk H.mach.mem H.mach.pml4 a = H.mapped (pageOf a) :=
  (h.inv.walk_eq a).trans (h.leaf a)

/-- The walk of the hardware is the abstract map.  A map that obtains its tables gives the
page its frame and its rights, and no request for a frame fails; one that does not changes
no translation.  Mapping or unmapping a page changes no other page. -/
theorem pageTables_refine {H : MapHistory σ}
    (h : Run.Reachable MapHistory.Initial MapStep H) :
    (∀ a, walk H.mach.mem H.mach.pml4 a = H.mapped (pageOf a))
    ∧ (∀ virt phys flags, virt < 2 ^ 48 → phys < 2 ^ 64 → flags &&& vmmFlagPresent ≠ 0 →
        flags ≤ vmmFlagPresent + vmmFlagWrite + vmmFlagUser →
        let M' := (vmmMapPage virt phys flags H.mach).2
        (H.mach.Obtains virt → M'.oom = H.mach.oom
          ∧ ∀ a, pageOf a = pageOf virt → walk M'.mem M'.pml4 a = some (mapping phys flags))
        ∧ (¬ H.mach.Obtains virt → M'.oom = true
          ∧ ∀ a, walk M'.mem M'.pml4 a = walk H.mach.mem H.mach.pml4 a)
        ∧ ∀ a, pageOf a ≠ pageOf virt → walk M'.mem M'.pml4 a = walk H.mach.mem H.mach.pml4 a)
    ∧ (∀ virt, virt < 2 ^ 48 →
        let M' := (vmmUnmapPage virt H.mach).2
        (∀ a, pageOf a = pageOf virt → walk M'.mem M'.pml4 a = none)
        ∧ ∀ a, pageOf a ≠ pageOf virt →
          walk M'.mem M'.pml4 a = walk H.mach.mem H.mach.pml4 a) := by
  have href := MapHistory.refines_of_reachable h
  refine ⟨href.walk_eq, ?_, ?_⟩
  · intro virt phys flags hvirt hphys hpresent hflags M'
    have hwalk : ∀ a, walk M'.mem M'.pml4 a = _ :=
      (href.step (.map hvirt hphys hpresent hflags)).walk_eq
    have hf : flags < 8 := by
      simp only [vmmFlagPresent, vmmFlagWrite, vmmFlagUser] at hflags
      omega
    by_cases hget : H.mach.Obtains virt
    · simp only [if_pos hget] at hwalk
      refine ⟨fun _ => ⟨(vmmMapPage_enough href.inv hf hphys hget rfl).2.1, fun a ha => ?_⟩,
        fun hno => absurd hget hno, fun a ha => ?_⟩
      · rw [hwalk, ha, Function.update_self]
      · rw [hwalk, href.walk_eq, Function.update_of_ne ha]
    · simp only [if_neg hget] at hwalk
      have hsame : ∀ a, walk M'.mem M'.pml4 a = walk H.mach.mem H.mach.pml4 a := fun a => by
        rw [hwalk, href.walk_eq]
      exact ⟨fun hyes => absurd hyes hget,
        fun _ => ⟨(vmmMapPage_dry href.inv hget rfl).1, hsame⟩, fun a _ => hsame a⟩
  · intro virt hvirt M'
    have hwalk : ∀ a, walk M'.mem M'.pml4 a =
        Function.update H.mapped (pageOf virt) none (pageOf a) :=
      (href.step (.unmap hvirt)).walk_eq
    refine ⟨fun a ha => ?_, fun a ha => ?_⟩
    · rw [hwalk, ha, Function.update_self]
    · rw [hwalk, href.walk_eq, Function.update_of_ne ha]

/-! ## Frames from a list -/

/-- A frame source that returns the addresses of a list, where 0 is a failure.
Once the list is used up it always fails. -/
structure FrameOracle where
  /-- The results to come. -/
  results : List Nat
  /-- No frame comes twice. -/
  nodup : (results.filter (· ≠ 0)).Nodup
  /-- They are frames. -/
  frame : ∀ f ∈ results, f % 4096 = 0 ∧ f + 4096 ≤ 2 ^ 64

/-- The oracle after one call. -/
def FrameOracle.tail (s : FrameOracle) : FrameOracle where
  results := s.results.tail
  nodup := s.nodup.sublist (s.results.tail_sublist.filter _)
  frame f hf := s.frame f (List.mem_of_mem_tail hf)

instance : FrameSource FrameOracle where
  alloc s := (s.tail, s.results.headD 0)
  avail s f := f ∈ s.results ∧ f ≠ 0
  avail_frame h := ⟨(FrameOracle.frame _ _ h.1).1, Nat.pos_of_ne_zero h.2,
    (FrameOracle.frame _ _ h.1).2⟩
  alloc_avail s := by
    cases hs : s.results with
    | nil => exact Or.inl rfl
    | cons f fs =>
        by_cases hf : f = 0
        · exact Or.inl hf
        · exact Or.inr ⟨by simp, hf⟩
  avail_alloc := by
    rintro s f ⟨hf, hne⟩
    refine ⟨⟨List.mem_of_mem_tail hf, hne⟩, ?_⟩
    have hnodup := s.nodup
    simp only [FrameOracle.tail] at hf
    cases hs : s.results with
    | nil =>
        rw [hs] at hf
        cases hf
    | cons g fs =>
        rw [hs] at hf hnodup
        rintro rfl
        have hg : decide (f ≠ 0) = true := decide_eq_true hne
        rw [List.filter_cons, if_pos hg, List.nodup_cons] at hnodup
        exact hnodup.1 (List.mem_filter.mpr ⟨hf, hg⟩)

/-- A machine with five frames, of which the third allocation gets none. -/
def sampleMach : Mach FrameOracle where
  mem := fun _ => 0xAA
  frames := ⟨[0x1000, 0x2000, 0, 0x3000, 0x4000], by decide, by decide⟩
  bus := .phys
  cr3 := none
  pml4 := 0
  heapFrames := []
  events := []
  stray := false
  fault := false
  oom := false

/-- A map that fails halfway changes nothing.  The next one maps the page, and an unmap
removes it. -/
theorem pageTables_refine_sample :
    let M := newPml4 sampleMach
    let M₁ := (vmmMapPage 0x400000 0x5000 7 M).2
    let M₂ := (vmmMapPage 0x400000 0x7000 7 M₁).2
    let M₃ := (vmmUnmapPage 0x400000 M₂).2
    (∀ a, walk M₁.mem M₁.pml4 a = none)
      ∧ walk M₂.mem M₂.pml4 0x400ABC = some ⟨0x7000, true, true⟩
      ∧ (∀ a, pageOf a ≠ pageOf 0x400000 → walk M₂.mem M₂.pml4 a = none)
      ∧ ∀ a, walk M₃.mem M₃.pml4 a = none := by
  -- the states of the run by name, so that nothing more is computed
  have hmap : ∀ {H : MapHistory FrameOracle} (phys : Nat), phys < 2 ^ 64 →
      Run.Reachable MapHistory.Initial MapStep H → ∃ H', H'.mach = (vmmMapPage 0x400000 phys 7
        H.mach).2 ∧ Run.Reachable MapHistory.Initial MapStep H' := fun phys hphys h =>
    ⟨_, rfl, h.step (.map (by decide) hphys (by decide) (by decide))⟩
  obtain ⟨H, hH, h⟩ : ∃ H : MapHistory FrameOracle, H.mach = newPml4 sampleMach ∧
      (∀ n, H.mapped n = none) ∧ Run.Reachable MapHistory.Initial MapStep H :=
    ⟨⟨_, fun _ => none⟩, rfl, fun _ => rfl, .init ⟨sampleMach, rfl, by decide, rfl, rfl⟩⟩
  obtain ⟨H₁, hH₁, h₁⟩ := hmap 0x5000 (by decide) h.2
  obtain ⟨H₂, hH₂, h₂⟩ := hmap 0x7000 (by decide) h₁
  have hfails : ¬ H.mach.Obtains 0x400000 := by
    rw [hH]
    decide +kernel
  have hobtains : H₁.mach.Obtains 0x400000 := by
    rw [hH₁, hH]
    decide +kernel
  simp only [← hH, ← hH₁, ← hH₂]
  obtain ⟨hnone, hfirst, -⟩ := pageTables_refine h.2
  obtain ⟨-, hsecond, -⟩ := pageTables_refine h₁
  obtain ⟨-, -, hunmap⟩ := pageTables_refine h₂
  obtain ⟨-, hfail, -⟩ := hfirst 0x400000 0x5000 7 (by decide) (by decide) (by decide) (by decide)
  obtain ⟨hok, -, hother⟩ :=
    hsecond 0x400000 0x7000 7 (by decide) (by decide) (by decide) (by decide)
  obtain ⟨hgone, hkept⟩ := hunmap 0x400000 (by decide)
  rw [← hH₁] at hfail
  rw [← hH₂] at hok hother
  have hM₁ : ∀ a, walk H₁.mach.mem H₁.mach.pml4 a = none := fun a =>
    ((hfail hfails).2 a).trans ((hnone a).trans (h.1 _))
  have hM₂ : ∀ a, pageOf a ≠ pageOf 0x400000 → walk H₂.mach.mem H₂.mach.pml4 a = none := fun a ha =>
    (hother a ha).trans (hM₁ a)
  refine ⟨hM₁, (hok hobtains).2 0x400ABC (by decide), hM₂, fun a => ?_⟩
  by_cases ha : pageOf a = pageOf 0x400000
  · exact hgone a ha
  · exact (hkept a ha).trans (hM₂ a ha)

end TunaOs
