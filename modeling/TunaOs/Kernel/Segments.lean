import TunaOs.Elf.Reach
import TunaOs.Kernel.Identity
import TunaOs.Kernel.LoadResult

/-!
# Where `load_segment` puts the bytes

`SegmentPlaced` is what one call of `load_segment` is for: it returns, every byte of the
segment's pages is the file's or 0, the pages have the rights of the segment and frames of their
own, and no other page is touched.  The loop fills each frame and changes each table through
its physical address, so this is right when the active tables map those frames to themselves,
each when its turn comes (`View.Reaches`).  If the first frame for which they do not is not
mapped at all, the call ends in an exception (`View.Halts`).  Both are read off the state
before the call: `loadSegment_placed`.
-/

namespace TunaOs

open Word

open FrameSource (avail)

/-! ## Segments -/

/-- The headers that `load_segment` should be able to handle. -/
structure Phdr.Loadable (ph : Phdr) (img : Image) : Prop where
  filesz_le : ph.filesz ≤ ph.memsz
  end_lt : ph.vaddr + ph.memsz + 0xFFF < 2 ^ 64
  end_le : ph.vaddr + ph.memsz ≤ 2 ^ 48
  file : ph.offset + ph.filesz ≤ img.size
  size_lt : img.size < 2 ^ 64

/-- The byte that belongs at an address. -/
def Phdr.byteAt (ph : Phdr) (img : Image) (a : Nat) : UInt8 :=
  if ph.vaddr ≤ a ∧ a < ph.vaddr + ph.filesz then img.bytes (ph.offset + (a - ph.vaddr)) else 0

/-- Before the start of the segment its first page is zero. -/
theorem Phdr.pageByte_before {ph : Phdr} {img : Image} {page k : Nat} (h : page + k < ph.vaddr) :
    ph.pageByte img page k = 0 := by
  refine if_neg fun hin => ?_
  have hstart : ph.vaddr ≤ ph.copyStart page := by
    unfold Phdr.copyStart
    split <;> omega
  omega

namespace Phdr.Loadable

variable {ph : Phdr} {img : Image} (h : ph.Loadable img)

include h

/-- The pages that the loop builds have the right bytes. -/
theorem pageByte_eq {a : Nat} (ha : ph.Spans a) :
    ph.pageByte img (frameOf a) (a % 4096) = ph.byteAt img a := by
  obtain ⟨hle, hend, hend48, hfile, hsize⟩ := h
  have hsplit : frameOf a + a % 4096 = a := by
    simp only [frameOf]
    omega
  have hpage := ha.page_lt
  by_cases hlow : ph.vaddr ≤ a
  · obtain ⟨k, rfl⟩ := Nat.exists_eq_add_of_le hlow
    rw [Phdr.pageByte_frameOf (by omega) (by omega) (by omega), Phdr.byte, Phdr.byteAt,
      Nat.add_sub_cancel_left]
    simp only [Nat.le_add_right, true_and, Nat.add_lt_add_iff_left]
  · rw [Phdr.pageByte_before (by omega), Phdr.byteAt, if_neg (by omega)]

/-- No two pages of the segment have one number. -/
theorem pages_ne {i j : Nat} (hi : i < ph.pageCount) (hj : j < ph.pageCount)
    (heq : pageOf (ph.vaddrStart + 4096 * i) = pageOf (ph.vaddrStart + 4096 * j)) : i = j := by
  have hend := h.end_le
  rw [Phdr.pageCount_eq h.end_lt] at hi hj
  rw [Phdr.vaddrStart_eq h.end_lt] at heq
  simp only [pageOf] at heq
  omega

/-- Addresses outside the segment have other page numbers. -/
theorem not_covers {a : Nat} (ha : a < 2 ^ 48) (hout : ¬ ph.Spans a) : ¬ ph.Covers (pageOf a) := by
  rintro ⟨j, hj, hpage⟩
  have hs := Phdr.page_spans h.end_lt hj
  have hend := h.end_le
  rw [Phdr.pageCount_eq h.end_lt] at hj
  rw [Phdr.vaddrStart_eq h.end_lt] at hpage hs
  simp only [pageOf] at hpage
  rw [Phdr.Spans] at hout hs
  omega

end Phdr.Loadable

section

variable {σ : Type} [FrameSource σ] {M M' : Mach σ} {img : Image} {ph : Phdr}

/-! ## Frames of their own -/

/-- The pages of a segment have different frames. -/
theorem loadPages_distinct (img : Image) (ph : Phdr) : ∀ (n page : Nat) {N N' : Mach σ}, VmInv N →
    page % 4096 = 0 → page + 4096 * n < 2 ^ 64 →
    (∀ i j, i < n → j < n → pageOf (page + 4096 * i) = pageOf (page + 4096 * j) → i = j) →
    (loadPages img ph n page N).2 = N' → N'.oom = false → ∀ i j, i < j → j < n →
      N'.leafFrame (page + 4096 * i) ≠ N'.leafFrame (page + 4096 * j) := by
  intro n
  induction n with
  | zero => exact fun _ _ _ _ _ _ _ _ _ i j _ hj => absurd hj (Nat.not_lt_zero j)
  | succ n ih =>
      intro page N N' hinv hpage hlt hne hN' hoom i j hij hj
      rw [Nat.mul_succ, ← Nat.add_assoc] at hlt
      have hnext : ∀ j, page + 4096 + 4096 * j = page + 4096 * (j + 1) := fun j => by omega
      simp only [loadPages, Act.bind_apply] at hN'
      obtain ⟨-, ⟨h0, -, -, -, ho⟩ | ⟨h0, hhand⟩⟩ := allocFrame_spec (fun m => m = pageOf page) hinv
      · -- no frame
        simp only [h0, if_true, Act.pure_apply] at hN'
        subst hN'
        rw [ho] at hoom
        cases hoom
      · simp only [h0, if_false, Act.bind_apply] at hN'
        generalize (allocFrame N).1 = f at hhand hN'
        generalize (allocFrame N).2 = N1 at hhand hN'
        generalize hN2 : (copyData img ph page f (zeroFrame f N1).2).2 = N2 at hN'
        obtain ⟨hload, -, hbytes⟩ := hhand.load img ph page (by omega) hN2
        generalize hN3 : (vmmMapPage page f ph.pageFlags N2).2 = N3 at hN'
        obtain ⟨hi3, -, -, hhas⟩ := hload.map ph.pageFlags_lt hbytes hN3
        have hi4 := hi3.event (.invlpg page)
        obtain ⟨j, rfl⟩ := Nat.exists_eq_add_of_le' (Nat.lt_of_le_of_lt (Nat.zero_le i) hij)
        cases i with
        | succ i =>
            rw [← hnext, ← hnext]
            refine ih (page + 4096) hi4 (by omega) (by omega) (fun i j hi hj heq => ?_) hN' hoom i j
              (by omega) (by omega)
            rw [hnext, hnext] at heq
            exact Nat.succ.inj (hne _ _ (by omega) (by omega) heq)
        | zero =>
            -- the frame of the first page is taken, that of a later one was still free
            obtain ⟨-, hg, -⟩ := loadPages_spec img ph n (page + 4096) hi4 (by omega) (by omega) hN'
            obtain ⟨g, hleaf, hg0, hg64, -, htaken, -⟩ := hhas (hg.oom hoom)
            have hfirst : N'.leafFrame (page + 4096 * 0) = g := by
              have hsame : N'.leaf (page + 4096 * 0) = N3.leaf (page + 4096 * 0) := by
                refine hg.leaf _ ?_
                rintro ⟨l, hl, heq⟩
                rw [hnext] at heq
                exact absurd (hne 0 (l + 1) (by omega) (by omega) heq) (by omega)
              rw [Mach.leafFrame, hsame, Nat.mul_zero, Nat.add_zero, hleaf,
                or_flags_and_pageMask ph.pageFlags_lt, and_pageMask_of_aligned hg0 hg64]
            have hfresh := (loadPages_fresh (M := N3) img ph n (page + 4096) hi4 (by omega)
                (by omega)
              (fun _ h => h) hN').2 hoom j (by omega) (page + 4096 * (j + 1)) (by rw [hnext])
            rw [hfirst]
            exact fun heq => htaken (heq ▸ hfresh.free)

/-! ## One call -/

/-- `M'` is `M` with the segment placed. -/
structure SegmentPlaced (img : Image) (ph : Phdr) (M M' : Mach σ) : Prop where
  /-- The call has not ended in an exception. -/
  returns : M'.fault = false
  /-- Each page is there with its rights and bytes. -/
  placed : ∀ a, ph.Spans a → ∃ t, walk M'.mem M'.pml4 a = some t ∧ t.user = true
    ∧ (t.write = true ↔ ph.flags &&& pfW ≠ 0) ∧ M'.mem (t.frame + a % 4096) = ph.byteAt img a
  /-- The pages have different frames. -/
  distinct : ∀ a b t u, ph.Spans a → ph.Spans b → walk M'.mem M'.pml4 a = some t →
    walk M'.mem M'.pml4 b = some u → t.frame = u.frame → a / 4096 = b / 4096
  /-- Other pages are mapped as before. -/
  others : ∀ a, a < 2 ^ 48 → ¬ ph.Spans a → walk M'.mem M'.pml4 a = walk M.mem M.pml4 a

/-- `load_segment` on the bus `phys`. -/
theorem Phdr.Loadable.placed (h : ph.Loadable img) (hinv : VmInv M) (hfault : M.fault = false)
    (hM' : (loadSegment img ph M).2 = M') (hoom : M'.oom = false) : SegmentPlaced img ph M M' := by
  have hv : ph.vaddr < 2 ^ 64 := by have := h.end_lt; omega
  obtain ⟨hinv', hg, -, -⟩ := loadSegment_spec img hv hinv hM'
  obtain ⟨-, -, -, hpages⟩ := loadPages_spec img ph ph.pageCount ph.vaddrStart hinv
    (ph.vaddrStart_mod hv) (Phdr.span_lt hv) hM'
  have hpage : ∀ a, ph.Spans a → ∃ f, walk M'.mem M'.pml4 a
      = some ⟨f, ph.pageFlags.testBit 1, ph.pageFlags.testBit 2⟩
        ∧ M'.mem (f + a % 4096) = ph.byteAt img a := by
    intro a ha
    obtain ⟨j, hj, hframe⟩ := ha.turn h.end_lt
    have hhas := hpages hoom j hj fun i hji hi heq => absurd (h.pages_ne hi hj heq) (by omega)
    rw [← hframe] at hhas
    obtain ⟨f, hwalk, hbyte⟩ := hhas.walk hinv' ph.pageFlags_lt ph.pageFlags_bits.1
      (pageOf_frameOf a).symm
    exact ⟨f, hwalk, hbyte.trans (h.pageByte_eq ha)⟩
  obtain ⟨-, huser, hwrite⟩ := ph.pageFlags_bits
  refine ⟨?_, fun a ha => ?_, fun a b t u ha hb ht hu heq => ?_, fun a ha hout => ?_⟩
  · rw [← hM']
    exact (primitive_faultless.loadPages img ph _ _ M ⟨hinv.bus, hfault⟩).2
  · obtain ⟨f, hwalk, hbyte⟩ := hpage a ha
    exact ⟨_, hwalk, huser, hwrite, hbyte⟩
  · -- equal frames are frames of one turn of the loop
    obtain ⟨i, hi, hai⟩ := ha.turn h.end_lt
    obtain ⟨j, hj, hbj⟩ := hb.turn h.end_lt
    have hframe : ∀ c v, walk M'.mem M'.pml4 c = some v → M'.leafFrame (frameOf c) = v.frame := by
      intro c v hc
      rw [eq_of_decode ((hinv'.walk_eq c).symm.trans hc), Mach.leafFrame, M'.leaf_frameOf]
    have hsame : M'.leafFrame (frameOf a) = M'.leafFrame (frameOf b) := by
      rw [hframe a t ht, hframe b u hu, heq]
    rw [hai, hbj] at hsame
    have hdist := loadPages_distinct img ph ph.pageCount ph.vaddrStart hinv (ph.vaddrStart_mod hv)
      (Phdr.span_lt hv) (fun i j hi hj => h.pages_ne hi hj) hM' hoom
    rcases Nat.lt_trichotomy i j with hij | rfl | hij
    · exact absurd hsame (hdist i j hij hj)
    · simp only [frameOf] at hai hbj
      omega
    · exact absurd hsame.symm (hdist j i hij hi)
  · rw [hinv'.walk_eq, hinv.walk_eq, hg.leaf a (h.not_covers ha hout)]

/-! ## Frames that are not reached -/

/-- A page whose leaf entry is not present. -/
theorem VmInv.translate_absent {t a : Nat} (hinv : VmInv M) (hcr3 : M.cr3 = some M.pml4)
    (ht : (M.leaf t).testBit 0 = false) (ha : frameOf a = t) :
    (M.withBus .mmu).translate a = none := by
  have hcr3' : (M.withBus .mmu).cr3 = some M.pml4 := hcr3
  have hmem : (M.withBus .mmu).mem = M.mem := rfl
  have hleaf : M.leaf a = M.leaf t := by rw [← ha, M.leaf_frameOf]
  simp only [Mach.translate, hcr3', hmem, hinv.walk_eq, hleaf, decode, ht]
  rfl

/-- Making a table of a frame that is not mapped. -/
theorem allocTable_unmapped (hbus : M.bus = .mmu) (h0 : (allocFrame M).1 ≠ 0)
    (hf : M.translate (allocFrame M).1 = none) : (allocTable M).2.Crashed := by
  have hf' : (allocFrame M).2.translate (allocFrame M).1 = none := hf
  have hbus' : (allocFrame M).2.bus = .mmu := hbus
  have hloop : (forLoop 512 (fun i => store64 ((allocFrame M).1 + 8 * i) 0)
      (allocFrame M).2).2.Crashed :=
    forLoop_unmapped (by decide) (fun _ => access_crashed.store64 _ _)
      (Mach.store64_unmapped hbus' hf' 0)
  simp only [allocTable, Act.bind_apply, h0, if_false, Act.pure_apply]
  exact hloop

section

variable {leaf : Nat → Nat} {shift virt phys flags t u : Nat} {ts : List Nat}

/-- A step down from a table that is not mapped, or to a new one that is not, crashes.
Otherwise nothing has strayed. -/
theorem LeadsTo.stuck {p : List (Fin 512)}
    (hl : LeadsTo M M' flags p (p ++ [tableIndex shift virt]) u) (hinv : VmInv M)
    (hcr3 : M.cr3 = some M.pml4) (hleaf : ∀ a, M.leaf a = leaf a) (hcalm : M.stray = false)
    (hp : p.length < 3) (ht : M.tableAt p = some t) (hstuck : Stuck leaf (t :: u :: ts)) :
    (descend shift virt flags t (M.withBus .mmu)).2.Crashed
      ∨ (M'.stray = false ∧ Stuck leaf (u :: ts)) := by
  have hslot := frameOf_slot (hinv.aligned ⟨p, by omega, ht⟩) (tableIndex shift virt)
  rcases hstuck with habsent | ⟨hself, hrest⟩
  · -- the table is read first
    rw [← hleaf] at habsent
    have hload : (load64 (t + 8 * tableIndex shift virt) (M.withBus .mmu)).2.Crashed :=
      Mach.touch_unmapped rfl (hinv.translate_absent hcr3 habsent hslot)
    exact Or.inl (access_crashed.descend_read _ flags _ _ hload)
  rw [← hleaf] at hself
  by_cases hcase : M.Has (p ++ [tableIndex shift virt]) ∨ SelfMapped (M.leaf u) u
  · exact Or.inr ⟨(hl.calm hcr3 t ht).mpr ⟨hcalm, hself, fun hno => hcase.resolve_left hno⟩, hrest⟩
  · -- the new table is zeroed
    obtain ⟨hno, hnot⟩ := not_or.mp hcase
    have habsent : (M.leaf u).testBit 0 = false := by
      rw [hleaf] at hnot ⊢
      exact hrest.resolve_right fun h => hnot h.1
    have hpres : ¬ (entry M.mem t (tableIndex shift virt)).testBit 0 = true := fun h =>
      hno ((has_concat ht).mpr h)
    have hu : u ≠ 0 := by
      have hplenty := hl.drawn.plenty
      rw [Mach.lacks, if_neg hno] at hplenty
      rw [hl.fresh hno]
      exact hplenty.1
    have hu0 : frameOf u = u := by
      have hdrawn := FrameSource.alloc_avail M.frames
      rw [← hl.fresh hno] at hdrawn
      have := (FrameSource.avail_frame (hdrawn.resolve_left hu)).1
      simp only [frameOf]
      omega
    have htouch : (M.touch (t + 8 * tableIndex shift virt)).stray = false :=
      (hinv.touch_frame hcr3 hslot).mpr ⟨hcalm, hself⟩
    have hload := (Robust.load64 (t + 8 * tableIndex shift virt)).agree M .mmu htouch
    rw [load64_entry hinv.bus] at hload
    have hframe : (allocFrame ((M.touch (t + 8 * tableIndex shift virt)).withBus .mmu)).1 = u :=
      (hl.fresh hno).symm
    have hcrash : (allocTable ((M.touch (t + 8 * tableIndex shift virt)).withBus .mmu)).2.Crashed :=
      allocTable_unmapped rfl (by rw [hframe]; exact hu)
        (by rw [hframe]; exact hinv.translate_absent hcr3 habsent hu0)
    simp only [descend, Act.bind_apply, hload, present_iff, if_neg hpres]
    exact Or.inl (access_crashed.descend_linked _ flags _ _ hcrash)

/-- Mapping a page crashes if the first table that is not reached is not mapped. -/
theorem vmmMapPage_stuck {V : View σ} (hV : M.Shows V) (hcalm : M.stray = false)
    (hoom : (vmmMapPage virt phys flags M).2.oom = false)
    (hstuck : Stuck V.leaf (V.map virt phys flags).1) :
    (vmmMapPage virt phys flags (M.withBus .mmu)).2.Crashed := by
  obtain ⟨-, hdry, -⟩ | ⟨M₁, M₂, N, t₁, t₂, t₃, hway, -⟩ := vmmMapPage_steps hV.inv rfl
  · rw [hdry] at hoom
    cases hoom
  rw [(hway.shows hV phys flags).1] at hstuck
  have hcr3₁ := hway.descended₁.grows.active hV.active
  have hcr3₂ := hway.descended₂.grows.active hcr3₁
  have hleaf₁ : ∀ a, M₁.leaf a = V.leaf a := fun a =>
    (hway.descended₁.grows.leaf a id).trans (hV.leaf a)
  have hleaf₂ : ∀ a, M₂.leaf a = V.leaf a := fun a =>
    (hway.descended₂.grows.leaf a id).trans (hleaf₁ a)
  -- while nothing strays the bus does not matter
  have hagree : ∀ {shift t u : Nat} {K K' : Mach σ},
      descend shift virt (intermediateFlags flags) t K = (some u, K') → K'.stray = false →
      descend shift virt (intermediateFlags flags) t (K.withBus .mmu)
        = (some u, K'.withBus .mmu) := by
    intro shift t u K K' hrun hstray
    have h := (primitive_robust.descend shift virt (intermediateFlags flags) t).agree K .mmu
      (by rw [hrun]; exact hstray)
    rwa [hrun] at h
  have hpml4 : (M.withBus .mmu).pml4 = M.pml4 := rfl
  simp only [vmmMapPage, Act.bind_apply, getPml4, hpml4]
  rcases hway.leads₁.stuck (p := []) hV.inv hV.active hV.leaf hcalm (by simp) rfl hstuck with
    hcrash | ⟨hcalm₁, hstuck₁⟩
  · exact access_crashed.atFirst virt (intermediateFlags flags) _ _ _ hcrash
  rw [hagree hway.run₁ hcalm₁]
  rcases hway.leads₂.stuck hway.descended₁.inv hcr3₁ hleaf₁ hcalm₁ (by simp) hway.leads₁.table
    hstuck₁ with hcrash | ⟨hcalm₂, hstuck₂⟩
  · exact access_crashed.atSecond virt (intermediateFlags flags) _ _ _ hcrash
  simp only [Act.bind_apply]
  rw [hagree hway.run₂ hcalm₂]
  rcases hway.leads₃.stuck hway.descended₂.inv hcr3₂ hleaf₂ hcalm₂ (by simp) hway.leads₂.table
    hstuck₂ with hcrash | ⟨hcalm₃, hstuck₃⟩
  · exact access_crashed.atLast virt _ _ _ hcrash
  simp only [Act.bind_apply]
  rw [hagree hway.run₃ hcalm₃]
  -- the last table is read before its entry is set
  have habsent : (N.leaf t₃).testBit 0 = false := by
    rw [hway.descended.grows.leaf t₃ id, hV.leaf]
    exact hstuck₃.resolve_right fun h => h.2
  have hload : (load64 (t₃ + 8 * tableIndex 12 virt) (N.withBus .mmu)).2.Crashed :=
    Mach.touch_unmapped rfl (hway.descended.inv.translate_absent
      (hway.descended.grows.active hV.active) habsent
      (frameOf_slot (hway.descended.inv.aligned (isTable_of_path hway.leads₃.table)) _))
  have hrest : ∀ old, Keeps (σ := σ) Mach.Crashed (store64 (t₃ + 8 * tableIndex 12 virt)
      ((phys &&& pageMask) ||| flags) >>= fun _ =>
        event (.leaf virt old ((phys &&& pageMask) ||| flags))) := fun old =>
    access_crashed.bind (access_crashed.store64 _ _) fun _ => access_crashed.leaf virt old _
  exact hrest _ _ hload

end

/-- A turn of the loop on another bus, if filling the frame does not stray. -/
theorem LoadTurn.onBus {V : View σ} {N : Mach σ} {page : Nat} (h : LoadTurn img ph page V M N M')
    (hcalm : N.stray = false) (n : Nat) (b : Bus) :
    (loadPages img ph (n + 1) page (M.withBus b)).2
      = (loadPages img ph n (page + 4096) (event (.invlpg page)
        (vmmMapPage page (allocFrame M).1 ph.pageFlags (N.withBus b)).2).2).2 := by
  have hrobust : Robust (zeroFrame (allocFrame M).1 >>= fun _ =>
      copyData img ph page (allocFrame M).1 : Act σ Unit) :=
    closed_robust.bind (closed_robust.forLoop (fun _ => .store8 _ _) _) fun _ =>
      primitive_robust.copyData img ph page _
  have hfill := congrArg Prod.snd (hrobust.agree (allocFrame M).2 b
    (by rw [Act.bind_apply, h.filled]; exact hcalm))
  rw [Act.bind_apply, Act.bind_apply, h.filled] at hfill
  have hnext : (allocFrame (M.withBus b)).1 = (allocFrame M).1 := rfl
  have hstate : (allocFrame (M.withBus b)).2 = (allocFrame M).2.withBus b := rfl
  simp only [loadPages, Act.bind_apply, hnext, hstate, if_neg h.frame]
  rw [hfill]

/-- So does the loop of `load_segment`. -/
theorem loadPages_stuck (img : Image) (ph : Phdr) : ∀ (n page : Nat) {M : Mach σ} {V : View σ},
    M.Shows V → M.stray = false → page + 4096 * n < 2 ^ 64 →
    (loadPages img ph n page M).2.oom = false → V.Halts ph.pageFlags (pageRun n page) →
    (loadPages img ph n page (M.withBus .mmu)).2.Crashed := by
  intro n
  induction n with
  | zero => exact fun _ _ _ _ _ _ _ h => h.elim
  | succ n ih =>
      intro page M V hV hcalm hlt hoom hhalts
      rw [Nat.mul_succ, ← Nat.add_assoc] at hlt
      obtain ⟨N, M', hturn, hrun⟩ := hV.loadTurn img ph (by omega) hoom
      rw [hrun] at hoom
      rcases hhalts with hstuck | ⟨hmaps, hrest⟩
      · rw [View.turn_fst] at hstuck
        rcases hstuck with habsent | ⟨hself, htables⟩
        · -- the frame of the page
          have hframe : frameOf V.next = V.next := by
            have hfree := (FrameSource.alloc_avail M.frames).resolve_left hturn.frame
            have := (FrameSource.avail_frame hfree).1
            rw [← hturn.next]
            simp only [frameOf, allocFrame]
            omega
          rw [← hV.leaf, ← hturn.next] at habsent
          rw [← hturn.next] at hframe
          exact loadPages_unmapped (M := M.withBus .mmu) rfl hturn.frame
            (hV.inv.translate_absent hV.active habsent hframe) img ph n page
        · -- a table: the frame has been filled
          rw [hturn.onBus (hturn.calm_filled.mpr ⟨hcalm, hself⟩) n .mmu]
          have hoomN : (vmmMapPage page (allocFrame M).1 ph.pageFlags N).2.oom = false := by
            have h := hturn.oom
            rwa [← hturn.mapped] at h
          rw [← hturn.next] at htables
          have hcrash := vmmMapPage_stuck hturn.shows_filled
            (hturn.calm_filled.mpr ⟨hcalm, hself⟩) hoomN htables
          exact access_crashed.loadPages img ph n _ _ (access_crashed.invlpg page _ hcrash)
      · -- a later turn
        have hcalmN := hturn.calm_filled.mpr ⟨hcalm, hmaps _ List.mem_cons_self⟩
        have hcalm' := hturn.calm_mapped.mpr ⟨hcalm, hmaps⟩
        have hmap := (primitive_robust.vmmMapPage page (allocFrame M).1 ph.pageFlags).agree N .mmu
          (by rw [← hturn.mapped] at hcalm'; exact hcalm')
        rw [hturn.onBus hcalmN n .mmu, hmap]
        have hM' : (event (.invlpg page)
            ((vmmMapPage page (allocFrame M).1 ph.pageFlags N).2.withBus .mmu)).2
              = M'.withBus .mmu := by
          rw [← hturn.mapped]
          rfl
        rw [hM']
        exact ih (page + 4096) hturn.shows_mapped hcalm' (by omega) hoom hrest

/-! ## The condition on the state before -/

omit [FrameSource σ] in
theorem SegmentPlaced.congr {N N' : Mach σ} (h : SegmentPlaced img ph M M') (hmem : N.mem = M.mem)
    (hpml4 : N.pml4 = M.pml4) (hmem' : N'.mem = M'.mem) (hpml4' : N'.pml4 = M'.pml4)
    (hfault : N'.fault = M'.fault) : SegmentPlaced img ph N N' := by
  obtain ⟨h1, h2, h3, h4⟩ := h
  refine ⟨hfault.trans h1, ?_, ?_, ?_⟩ <;> rw [hmem', hpml4']
  · exact h2
  · exact h3
  · rw [hmem, hpml4]
    exact h4

/-- The machine with nothing noted, on the bus `phys`. -/
def Mach.fresh (M : Mach σ) : Mach σ := ((M.withBus .phys).withStray false).withOom false

/-- What is noted of the past does not matter. -/
theorem loadSegment_fresh (img : Image) (ph : Phdr) (M : Mach σ) :
    let N := (loadSegment img ph (M.fresh.withBus M.bus)).2
    (loadSegment img ph M).2.mem = N.mem ∧ (loadSegment img ph M).2.pml4 = N.pml4
      ∧ (loadSegment img ph M).2.fault = N.fault := by
  have hoom := (primitive_oomBlind.loadPages img ph ph.pageCount ph.vaddrStart).state
    (M.withStray false) false
  have hstray := (primitive_strayBlind.loadPages img ph ph.pageCount ph.vaddrStart).state M false
  have hfresh : M.fresh.withBus M.bus = (M.withStray false).withOom false := rfl
  simp only [loadSegment, hfresh]
  rw [hoom, hstray]
  exact ⟨rfl, rfl, rfl⟩

/-- `load_segment` places the segment if the tables map to themselves the frames that it will
take and the tables on the paths of its pages, each when its turn comes.  If the first for
which they do not is not mapped at all, it does not return. -/
theorem loadSegment_placed (h : ph.Loadable img) (hinv : VmInv (M.withBus .phys))
    (hcr3 : M.cr3 = some M.pml4) (hfault : M.fault = false)
    (hplenty : Plenty M.frames (pagesCost M.tables [] ph.pageList)) :
    (M.bus = .phys ∨ M.view.Reaches ph.pageFlags ph.pageList →
        SegmentPlaced img ph M (loadSegment img ph M).2)
      ∧ (M.bus = .mmu → M.view.Halts ph.pageFlags ph.pageList →
        ¬ SegmentPlaced img ph M (loadSegment img ph M).2) := by
  have hv : ph.vaddr < 2 ^ 64 := by have := h.end_lt; omega
  have hinv' : VmInv M.fresh := ⟨rfl, hinv.tables, hinv.fresh⟩
  have hshows : M.fresh.Shows M.view := hinv'.shows hcr3
  have hcount : Supplied M.frames M.tables (0 + pagesCost M.tables [] ph.pageList) _
      (loadSegment img ph M.fresh).2 :=
    Counted.loadPages img ph ph.pageCount ph.vaddrStart
      (VmInv.counted (M := (M.withBus .phys).withStray false) ⟨rfl, hinv.tables, hinv.fresh⟩)
      (ph.vaddrStart_mod hv) (Phdr.span_lt hv)
  rw [Nat.zero_add] at hcount
  have hoom := (hcount.enough hplenty).oom
  have hrobust : Robust (loadSegment img ph : Act σ Unit) := primitive_robust.loadPages ..
  obtain ⟨hmem, hpml4, hsame⟩ := loadSegment_fresh img ph M
  constructor
  · intro hreach
    have hrun : (loadSegment img ph (M.fresh.withBus M.bus)).2
        = (loadSegment img ph M.fresh).2.withBus M.bus := by
      rcases hreach with hbus | hreach
      · have hbus' : (loadSegment img ph M.fresh).2.bus = .phys := hrobust.bus M.fresh
        rw [hbus, Mach.withBus_self hinv'.bus, Mach.withBus_self hbus']
      · have hcalm := (loadPages_calm img ph ph.pageCount ph.vaddrStart hshows (Phdr.span_lt hv)
          hoom).mpr ⟨rfl, hreach⟩
        rw [hrobust.agree M.fresh M.bus hcalm]
    rw [hrun] at hmem hpml4 hsame
    exact (h.placed hinv' hfault rfl hoom).congr rfl rfl hmem hpml4 hsame
  · intro hbus hhalts hplaced
    have hcrash := loadPages_stuck img ph ph.pageCount ph.vaddrStart hshows rfl (Phdr.span_lt hv)
      hoom hhalts
    have hreturns := hplaced.returns
    rw [hsame, hbus] at hreturns
    exact absurd (hcrash.2.symm.trans hreturns) (by decide)

end

theorem loadable_onePageImage : (onePageImage.phdr 0).Loadable onePageImage := by
  constructor <;> decide +kernel

/-- The same segment at the address of a frame. -/
def ownFramePhdr : Phdr := { onePageImage.phdr 0 with vaddr := 0x125000 }

theorem loadable_ownFramePhdr : ownFramePhdr.Loadable onePageImage := by
  constructor <;> decide +kernel

/-- Four frames are enough for a page. -/
theorem plenty_segment {σ : Type} [FrameSource σ] {M : Mach σ} {ph : Phdr} {n : Nat}
    (hplenty : Plenty M.frames n) (hn : 4 * ph.pageCount ≤ n) :
    Plenty M.frames (pagesCost M.tables [] ph.pageList) := by
  have hle := pagesCost_le M.tables ph.pageList []
  rw [Phdr.pageList, length_pageRun] at hle
  exact hplenty.mono (Nat.le_trans hle hn)

/-- Where all tables and free frames are mapped to themselves one page can be loaded. -/
theorem Windowed.reaches {A : Nat → Prop} {k : Kernel Pmm} (h : Windowed A A k) {ph : Phdr}
    (hone : ph.pageCount = 1) (hv : ph.vaddr < 2 ^ 64) (hplenty : Plenty k.mach.frames 4)
    (hoom : k.mach.oom = false) : k.mach.view.Reaches ph.pageFlags ph.pageList := by
  have hspan := Phdr.span_lt hv
  rw [hone] at hspan
  rw [Phdr.pageList, hone]
  refine loadPages_reaches onePageImage ph (W := A) 1 ph.vaddrStart
    (h.rooted.isolated.inv.shows h.rooted.cr3) hspan ?_ h.tables
    (fun f hf => h.rooted.isolated.origin f hf) (fun t ht => ?_) fun j hj => absurd hj (by omega)
  · exact ((Draws.loadPages onePageImage ph 1 ph.vaddrStart).supply k.mach 0 hplenty).2.trans hoom
  · have hwin := h.window t ht
    rw [h.rooted.cr3] at hwin
    exact hwin.2

/-- A boot with low frames only, and four to spare. -/
theorem BootEnv.boot_low {env : BootEnv} (hbus : env.bus = .phys)
    (hlow : LowFrames (avail env.start.frames)) (hplenty : Plenty env.start.frames (21 + 4)) :
    ∃ k : Kernel Pmm, Windowed (avail env.start.frames) (avail env.start.frames) k
      ∧ k.mach.fault = false ∧ k.mach.oom = false ∧ Plenty k.mach.frames 4
      ∧ (env.onBus .mmu).boot.mach = k.mach.withBus .mmu := by
  obtain ⟨h21, h4⟩ := (plenty_add env.start.frames 21 4).mp hplenty
  obtain ⟨hframes, hoom, -⟩ := env.boot_enough hbus h21
  have hwin := BootEnv.boot_windowed hlow hbus hoom fun f hf _ => hf
  rw [← hframes] at h4
  exact ⟨env.boot, hwin, BootEnv.boot_fault hbus, hoom, h4, (BootEnv.boot_windowedTwin hwin .mmu).2⟩

/-- After boot with 100 frames a page is placed, also at the address of the frame that it
gets. -/
theorem loadSegment_placed_small :
    SegmentPlaced onePageImage (onePageImage.phdr 0) (smallBoot.onBus .mmu).boot.mach
        (loadSegment onePageImage (onePageImage.phdr 0) (smallBoot.onBus .mmu).boot.mach).2
      ∧ SegmentPlaced onePageImage ownFramePhdr (smallBoot.onBus .mmu).boot.mach
        (loadSegment onePageImage ownFramePhdr (smallBoot.onBus .mmu).boot.mach).2 := by
  obtain ⟨k, hwin, hfault, hoom, hplenty, hmach⟩ := BootEnv.boot_low rfl lowFrames_smallBoot
    (smallBoot.plenty (a := 0x110) fun f h1 h2 => usable_smallBoot h1 (by omega))
  have hinv : VmInv ((k.mach.withBus .mmu).withBus .phys) := by
    rw [show (k.mach.withBus .mmu).withBus .phys = k.mach from
      Mach.withBus_self hwin.rooted.isolated.inv.bus]
    exact hwin.rooted.isolated.inv
  rw [hmach]
  constructor
  · have hreach : (k.mach.withBus .mmu).view.Reaches _ (onePageImage.phdr 0).pageList :=
      hwin.reaches (by decide +kernel) (by decide +kernel) hplenty hoom
    exact (loadSegment_placed loadable_onePageImage hinv hwin.rooted.cr3 hfault
      (plenty_segment hplenty (by decide +kernel))).1 (.inr hreach)
  · have hreach : (k.mach.withBus .mmu).view.Reaches _ ownFramePhdr.pageList :=
      hwin.reaches (by decide +kernel) (by decide +kernel) hplenty hoom
    exact (loadSegment_placed loadable_ownFramePhdr hinv hwin.rooted.cr3 hfault
      (plenty_segment hplenty (by decide +kernel))).1 (.inr hreach)

/-- Right after boot `load_segment` may get a frame that is not mapped, however many frames
are free. -/
theorem segment_splitBoot {n : Nat} (hn : n = 21) {img : Image} {ph : Phdr}
    (hone : ph.pageCount = 1) :
    Plenty (splitBoot n .mmu).boot.mach.frames
        (pagesCost (splitBoot n .mmu).boot.mach.tables [] ph.pageList)
      ∧ (loadSegment img ph (splitBoot n .mmu).boot.mach).2.fault = true
      ∧ ¬ SegmentPlaced img ph (splitBoot n .mmu).boot.mach
        (loadSegment img ph (splitBoot n .mmu).boot.mach).2 := by
  obtain ⟨-, hedge⟩ := atEdge_splitBoot hn
  have hcrash : (loadSegment img ph (splitBoot n .mmu).boot.mach).2.Crashed := by
    rw [loadSegment, hone]
    exact loadPages_unmapped hedge.bus hedge.next_ne_zero hedge.next_unmapped img ph 0 _
  exact ⟨plenty_segment hedge.plenty (by omega), hcrash.2,
    fun hplaced => absurd hplaced.returns (by rw [hcrash.2]; decide)⟩

/-- The first segment of a program after boot. -/
theorem loadSegment_unmapped :
    (onePageImage.phdr 0).Loadable onePageImage
      ∧ (splitBoot 21 .mmu).Reaches anyStep (splitBoot 21 .mmu).boot
      ∧ Plenty (splitBoot 21 .mmu).boot.mach.frames
        (pagesCost (splitBoot 21 .mmu).boot.mach.tables [] (onePageImage.phdr 0).pageList)
      ∧ (loadSegment onePageImage (onePageImage.phdr 0) (splitBoot 21 .mmu).boot.mach).2.fault
        = true
      ∧ ¬ SegmentPlaced onePageImage (onePageImage.phdr 0) (splitBoot 21 .mmu).boot.mach
        (loadSegment onePageImage (onePageImage.phdr 0) (splitBoot 21 .mmu).boot.mach).2 :=
  ⟨loadable_onePageImage, .boot _ _,
    segment_splitBoot rfl (by decide +kernel)⟩

end TunaOs
