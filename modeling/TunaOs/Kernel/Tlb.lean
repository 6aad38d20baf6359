import TunaOs.Kernel.Calls
import TunaOs.Kernel.Windows
import TunaOs.Lib.Cache

/-!
# Stale translations

The TLB may take over a present leaf entry at any moment.  It forgets a page on
`invlpg` and everything when CR3 is loaded, but it is not told when a leaf entry is
overwritten.  The events of the machine say when that happens, so what the TLB may
hold is what `Cache.Holds` says of them (`Mach.Cached`), and the values of that map
are the leaf entries themselves (`TlbSound.tracks`).

`load_segment` invalidates each page it maps.  `kheap_map_region` and the two loops
that map stacks do not, so they keep the TLB in order only where no page was present
before.  `kheap_init` puts the heap over pages that `vmm_init` has mapped: after it a
heap address may still be translated to the page it was mapped to at first.
-/

namespace TunaOs

open FrameSource (avail)
open Word (canonical)

/-! ## The TLB -/

/-- What an event is to the TLB.  `invlpg` of an address that is not canonical does
nothing. -/
def MmuEvent.tlb : MmuEvent → List (Cache.Event Nat Nat)
  | .leaf virt _ new => [.write (pageOf virt) new]
  | .invlpg virt => if canonical virt then [.drop (pageOf virt)] else []
  | .loadCr3 => [.clear]

/-- The entry can be cached. -/
def PresentEntry (e : Nat) : Prop := e.testBit 0 = true

section

variable {σ : Type} {M M' N : Mach σ} {a f flags virt : Nat}

/-- What has happened to the leaf entries and to the TLB.  The tables are empty at
first. -/
def Mach.tlb (M : Mach σ) : List (Cache.Event Nat Nat) := M.events.flatMap MmuEvent.tlb

/-- The TLB may translate the page with this entry. -/
def Mach.Cached (M : Mach σ) (n e : Nat) : Prop :=
  Cache.Holds (fun _ => 0) PresentEntry M.tlb n e

/-- What the TLB may hold for the page of an address is its leaf entry. -/
def Mach.Coherent (M : Mach σ) (a : Nat) : Prop := ∀ e, M.Cached (pageOf a) e → e = M.leaf a

/-- The address has a leaf entry. -/
def Mach.Present (M : Mach σ) (a : Nat) : Prop := PresentEntry (M.leaf a)

variable [FrameSource σ]

/-- The events say what the leaf entries are. -/
def Mach.Tracks (M : Mach σ) : Prop :=
  ∀ b, Cache.value (fun _ => 0) M.tlb (pageOf b) = M.leaf b

/-- What the TLB holds for the page of `a` is its leaf entry. -/
structure TlbSound (a : Nat) (M : Mach σ) : Prop where
  inv : VmInv M
  tracks : M.Tracks
  coherent : Cache.Coherent (fun _ => 0) PresentEntry M.tlb (pageOf a)

theorem TlbSound.mach_coherent (h : TlbSound a M) : M.Coherent a :=
  fun e he => (h.coherent e he).trans (h.tracks a)

/-- Nothing that the TLB looks at has changed. -/
theorem TlbSound.congr (h : TlbSound a M) (hinv : VmInv M') (hev : M'.events = M.events)
    (hleaf : ∀ b, M'.leaf b = M.leaf b) : TlbSound a M' := by
  have htlb : M'.tlb = M.tlb := by rw [Mach.tlb, Mach.tlb, hev]
  refine ⟨hinv, fun b => ?_, ?_⟩
  · rw [htlb, hleaf]
    exact h.tracks b
  · rw [htlb]
    exact h.coherent

/-- `vmm_map_page` keeps the events and the leaf entries in step. -/
theorem Mach.Tracks.vmmMapPage {phys : Nat} (h : M.Tracks) (hinv : VmInv M) (hf : flags < 8)
    (hp : phys < 2 ^ 64) (hM' : (vmmMapPage virt phys flags M).2 = M') :
    M'.Tracks ∧ (M'.tlb = M.tlb ∨ ∃ e, M'.tlb = .write (pageOf virt) e :: M.tlb) := by
  rcases vmmMapPage_events hinv hf hp hM' with ⟨hev, hleaf⟩ | ⟨⟨old, hev⟩, hleaf⟩
  · have htlb : M'.tlb = M.tlb := by rw [Mach.tlb, Mach.tlb, hev]
    refine ⟨fun b => ?_, Or.inl htlb⟩
    rw [htlb, hleaf b]
    exact h b
  · have htlb : M'.tlb = .write (pageOf virt) ((phys &&& pageMask) ||| flags) :: M.tlb := by
      rw [Mach.tlb, hev]
      rfl
    refine ⟨fun b => ?_, Or.inr ⟨_, htlb⟩⟩
    rw [htlb, Cache.value, hleaf b, h b]

/-- `vmm_map_page` keeps the TLB in order where the page was not present. -/
theorem TlbSound.vmmMapPage {phys : Nat} (h : TlbSound a M) (hf : flags < 8) (hp : phys < 2 ^ 64)
    (habsent : pageOf a = pageOf virt → ¬ M.Present a)
    (hM' : (vmmMapPage virt phys flags M).2 = M') : TlbSound a M' := by
  obtain ⟨hinv, -⟩ := vmmMapPage_spec h.inv hf hp hM'
  obtain ⟨htracks, htlb | ⟨e, htlb⟩⟩ := h.tracks.vmmMapPage h.inv hf hp hM'
  · exact ⟨hinv, htracks, htlb ▸ h.coherent⟩
  · refine ⟨hinv, htracks, ?_⟩
    rw [htlb]
    refine h.coherent.write (fun heq => ?_) e
    rw [h.tracks a]
    exact habsent heq

/-- `vmm_map_page` followed by `invlpg`. -/
theorem TlbSound.mapInvalidate {phys : Nat} (h : TlbSound a M) (hf : flags < 8)
    (hp : phys < 2 ^ 64) (hcan : pageOf a = pageOf virt → canonical virt)
    (hM' : (TunaOs.vmmMapPage virt phys flags M).2 = M') :
    TlbSound a (event (.invlpg virt) M').2 := by
  obtain ⟨hinv, -⟩ := vmmMapPage_spec h.inv hf hp hM'
  obtain ⟨htracks, -⟩ := h.tracks.vmmMapPage h.inv hf hp hM'
  have htlb : (event (.invlpg virt) M').2.tlb
      = (if canonical virt then [.drop (pageOf virt)] else []) ++ M'.tlb := rfl
  have htracks' : (event (.invlpg virt) M').2.Tracks := by
    intro b
    rw [htlb]
    split <;> exact htracks b
  refine ⟨hinv.event _, htracks', ?_⟩
  rw [htlb]
  by_cases hpage : pageOf a = pageOf virt
  · rw [if_pos (hcan hpage), ← hpage]
    exact .drop_self
  · have hcoh := (h.vmmMapPage hf hp (fun heq => absurd heq hpage) hM').coherent
    split
    · exact hcoh.drop _
    · exact hcoh

/-! ## Loading an image -/

/-- The page of `a` is a page of the image by canonical addresses only. -/
def Image.CanonicalAt (img : Image) (a : Nat) : Prop :=
  ∀ i, i < img.phnum → (img.phdr i).type = ptLoad → ∀ j, j < (img.phdr i).pageCount →
    pageOf a = pageOf ((img.phdr i).vaddrStart + 4096 * j) →
      canonical ((img.phdr i).vaddrStart + 4096 * j)

theorem TlbSound.loadPages (img : Image) (ph : Phdr) : ∀ (n page : Nat) {M : Mach σ},
    TlbSound a M → page % 4096 = 0 → page + 4096 * n < 2 ^ 64 →
    (∀ j, j < n → pageOf a = pageOf (page + 4096 * j) → canonical (page + 4096 * j)) →
    TlbSound a (loadPages img ph n page M).2
  | 0, _, _, h, _, _, _ => h
  | n + 1, page, M, h, hpage, hlt, hcan => by
      rw [Nat.mul_succ, ← Nat.add_assoc] at hlt
      have hnext : ∀ j, page + 4096 + 4096 * j = page + 4096 * (j + 1) := fun j => by omega
      simp only [TunaOs.loadPages, Act.bind_apply]
      obtain ⟨-, ⟨h0, hi, hg, -, -⟩ | ⟨h0, hhand⟩⟩ := allocFrame_spec (fun _ => False) h.inv
      · rw [if_pos h0]
        exact h.congr hi rfl fun b => hg.leaf b id
      · simp only [h0, if_false, Act.bind_apply]
        have hev : (allocFrame M).2.events = M.events := rfl
        generalize (allocFrame M).1 = f at hhand
        generalize (allocFrame M).2 = M₁ at hhand hev
        generalize hN : (copyData img ph page f (zeroFrame f M₁).2).2 = N
        have hevN : N.events = M.events := by
          have hsilent := silent_events (σ := σ) M.events
          rw [← hN]
          exact hsilent.copyData img ph page f _ (hsilent.zeroFrame f _ hev)
        obtain ⟨hload, -, -⟩ := hhand.load img ph page (by omega) hN
        obtain ⟨-, -, hf64⟩ := FrameSource.avail_frame hload.drawn
        have hN' : TlbSound a N := h.congr hload.inv hevN fun b => hload.grows.leaf b id
        have hpage' := hN'.mapInvalidate ph.pageFlags_lt (show f < 2 ^ 64 by omega)
          (fun heq : pageOf a = pageOf page => hcan 0 (by omega) heq) rfl
        refine TlbSound.loadPages img ph n (page + 4096) hpage' (by omega) (by omega)
          fun j hj heq => ?_
        rw [hnext] at heq ⊢
        exact hcan (j + 1) (by omega) heq

theorem TlbSound.elfLoad {img : Image} (h : TlbSound a M) (hcan : img.CanonicalAt a) :
    TlbSound a (elfLoad img M).2 := by
  by_cases hacc : img.accepted = true
  · rw [elfLoad_accepted hacc]
    refine forLoop_induct _ (Q := fun _ N => TlbSound a N) h fun i N hi hN => ?_
    split
    case isTrue => exact hN
    case isFalse htype =>
        have hv := img.phdr_vaddr_lt i
        exact hN.loadPages img _ _ _ ((img.phdr i).vaddrStart_mod hv) (Phdr.span_lt hv)
          (hcan i hi (Classical.not_not.mp htype))
  · rw [elfLoad_rejected hacc]
    exact h

/-! ## Stacks and the heap -/

/-- A frame is mapped where no page was present. -/
theorem TlbSound.mapFresh (h : TlbSound a M) (hf : flags < 8) (hp : f < 2 ^ 64)
    (habsent : pageOf a = pageOf virt → ¬ M.Present a) :
    TlbSound a (TunaOs.vmmMapPage virt f flags M).2 ∧
      (pageOf a ≠ pageOf virt →
        ((TunaOs.vmmMapPage virt f flags M).2.Present a ↔ M.Present a)) := by
  obtain ⟨-, hg, -⟩ := vmmMapPage_spec h.inv hf hp
    (show (TunaOs.vmmMapPage virt f flags M).2 = _ from rfl)
  refine ⟨h.vmmMapPage hf hp habsent rfl, fun hne => ?_⟩
  rw [Mach.Present, hg.leaf a hne]
  rfl

/-- A frame in hand. -/
theorem TlbSound.inHand (h : TlbSound a M) (hhand : InHand (fun _ => False) M N f)
    (hev : N.events = M.events) : TlbSound a N ∧ (N.Present a ↔ M.Present a) ∧ f < 2 ^ 64 := by
  have hleaf : ∀ b, N.leaf b = M.leaf b := fun b => hhand.grows.leaf b id
  obtain ⟨-, -, hf64⟩ := FrameSource.avail_frame hhand.drawn
  refine ⟨h.congr hhand.inv hev hleaf, ?_, by omega⟩
  rw [Mach.Present, hleaf a]
  rfl

theorem pageOf_step {virt n j : Nat} (h : virt + 4096 * n < 2 ^ 48) (hj : j + 1 < n) :
    pageOf (virt + 4096 + 4096 * j) ≠ pageOf virt := by
  simp only [pageOf]
  omega

theorem TlbSound.mapStack : ∀ (n vaddr : Nat) {M : Mach σ}, TlbSound a M →
    vaddr + 4096 * n < 2 ^ 48 →
    (∀ j, j < n → pageOf a = pageOf (vaddr + 4096 * j) → ¬ M.Present a) →
    TlbSound a (mapStack n vaddr M).2
  | 0, _, _, h, _, _ => h
  | n + 1, vaddr, M, h, hlt, habsent => by
      simp only [TunaOs.mapStack, Act.bind_apply]
      obtain ⟨-, ⟨h0, hi, hg, -, -⟩ | ⟨h0, hhand⟩⟩ := allocFrame_spec (fun _ => False) h.inv
      · rw [if_pos h0]
        exact h.congr hi rfl fun b => hg.leaf b id
      · rw [if_neg h0, Act.bind_apply]
        obtain ⟨hN, hpres, hf64⟩ := h.inHand hhand rfl
        obtain ⟨hmap, hkeep⟩ := hN.mapFresh (show stackFlags < 8 by decide) hf64
          fun heq : pageOf a = pageOf vaddr => hpres.not.mpr (habsent 0 (by omega) heq)
        have hlt' : vaddr + 4096 + 4096 * n < 2 ^ 48 := by
          rwa [Nat.add_assoc, Nat.add_comm 4096, ← Nat.mul_succ]
        refine TlbSound.mapStack n (vaddr + 4096) hmap hlt' fun j hj heq => ?_
        rw [hkeep fun h => pageOf_step hlt (by omega) (heq.symm.trans h), hpres]
        refine habsent (j + 1) (by omega) (heq.trans ?_)
        rw [Nat.add_assoc, Nat.add_comm 4096, ← Nat.mul_succ]

theorem TlbSound.kheapMapPages : ∀ (n virt : Nat) {M : Mach σ}, TlbSound a M →
    virt + 4096 * n < 2 ^ 48 →
    (∀ j, j < n → pageOf a = pageOf (virt + 4096 * j) → ¬ M.Present a) →
    TlbSound a (kheapMapPages n virt M).2
  | 0, _, _, h, _, _ => h
  | n + 1, virt, M, h, hlt, habsent => by
      simp only [TunaOs.kheapMapPages, Act.bind_apply]
      obtain ⟨-, ⟨h0, hi, hg, -, -⟩ | ⟨h0, hhand⟩⟩ := allocFrame_spec (fun _ => False) h.inv
      · rw [if_pos h0]
        exact h.congr hi rfl fun b => hg.leaf b id
      · rw [if_neg h0, Act.bind_apply, Act.bind_apply]
        obtain ⟨hN, hpres, hf64⟩ := h.inHand hhand rfl
        have hnote : TlbSound a (noteHeapFrame (allocFrame M).1 (allocFrame M).2).2 :=
          hN.congr ⟨hN.inv.bus, hN.inv.tables, hN.inv.fresh⟩ rfl fun _ => rfl
        obtain ⟨hmap, hkeep⟩ := hnote.mapFresh (show kernelFlags < 8 by decide) hf64
          fun heq : pageOf a = pageOf virt => hpres.not.mpr (habsent 0 (by omega) heq)
        have hlt' : virt + 4096 + 4096 * n < 2 ^ 48 := by
          rwa [Nat.add_assoc, Nat.add_comm 4096, ← Nat.mul_succ]
        have hlt64 : virt + 4096 < 2 ^ 64 :=
          Nat.lt_of_le_of_lt (Nat.le_add_right ..) (Nat.lt_trans hlt' (by decide))
        rw [Word.wrap64_of_lt hlt64]
        refine TlbSound.kheapMapPages n (virt + 4096) hmap hlt' fun j hj heq => ?_
        rw [hkeep fun h => pageOf_step hlt (by omega) (heq.symm.trans h)]
        refine hpres.not.mpr (habsent (j + 1) (by omega) (heq.trans ?_))
        rw [Nat.add_assoc, Nat.add_comm 4096, ← Nat.mul_succ]

/-- `kmalloc` puts the pages it adds to the heap where no page was present. -/
theorem TlbSound.kmalloc {h h' : Heap (Mach σ)} {size p : Nat} (ht : TlbSound a h.env)
    (hlim : HeapLimits h.heapEnd) (hsize : size < 2 ^ 63) (hm : kmalloc h size = some (h', p))
    (habsent : ∀ b, h.heapEnd ≤ b → b < h'.heapEnd → pageOf a = pageOf b → ¬ h.env.Present a) :
    TlbSound a h'.env := by
  obtain ⟨-, -, -, hreq⟩ := requestSize_spec hsize
  obtain ⟨hmod, -, -, hexp⟩ := expandSize_spec (n := requestSize size) (by omega)
  have hrun := kmalloc_env
    (Q := fun M e => e % 4096 = 0 ∧ e ≤ kheapStart + kheapMaxSize ∧ h.heapEnd ≤ e ∧
      ((∀ b, h.heapEnd ≤ b → b < e → pageOf a = pageOf b → ¬ h.env.Present a) →
        TlbSound a M ∧ ((∀ b, h.heapEnd ≤ b → b < e → pageOf a ≠ pageOf b) →
          (M.Present a ↔ h.env.Present a)))) ?_ hm
    ⟨hlim.aligned, hlim.max, Nat.le_refl _, fun _ => ⟨ht, fun _ => Iff.rfl⟩⟩
  · exact (hrun.2.2.2 habsent).1
  · rintro M e hfit ⟨halign, hle, hge, hM⟩
    generalize expandSize (requestSize size) = x at *
    have hmax : kheapStart + kheapMaxSize < 2 ^ 40 := by decide
    generalize kheapStart + kheapMaxSize = top at *
    rw [Word.wrap64_of_lt (show e + x < 2 ^ 64 by omega)] at hfit ⊢
    refine ⟨by omega, hfit, by omega, fun hall => ?_⟩
    obtain ⟨hsound, hpres⟩ := hM fun b h1 h2 => hall b h1 (by omega)
    have hmap : (kheapMapRegion e x M).2 = HeapBacking.mapRegion M e x := rfl
    obtain ⟨-, hg, -, -⟩ := kheapMapRegion_spec halign hsound.inv hmap
    rw [← hmap]
    refine ⟨hsound.kheapMapPages _ _ (by omega) fun j hj heq => ?_, fun hout => ?_⟩
    · -- a page of this region is not one of those before
      rw [hpres fun b h1 h2 hb => ?_]
      · exact hall (e + 4096 * j) (by omega) (by omega) heq
      · have hpage := hb.symm.trans heq
        simp only [pageOf] at hpage
        omega
    · rw [hmap, Mach.Present, hg.leaf a, ← hpres fun b h1 h2 => hout b h1 (by omega)]
      · rfl
      · rintro ⟨b, h1, h2, hb⟩
        exact hout b (by omega) h2 hb

/-! ## Starting a program -/

/-- Loading the image and then mapping a stack leaves the page of `a` as the TLB has it. -/
def Image.QuietAt (img : Image) (stack a : Nat) (M : Mach σ) : Prop :=
  img.CanonicalAt a ∧
    (img.Starts → StackPage stack (pageOf a) → ¬ M.Present a ∧ ¬ img.Covers (pageOf a))

theorem TlbSound.startProgram {img : Image} {stack : Nat} (h : TlbSound a M)
    (hquiet : img.QuietAt stack a M) (hstarts : img.Starts)
    (hstack : stack + 4096 * stackPages < 2 ^ 48) :
    TlbSound a (TunaOs.mapStack stackPages stack (TunaOs.elfLoad img M).2).2 := by
  obtain ⟨hcan, habsent⟩ := hquiet
  refine (h.elfLoad hcan).mapStack _ _ hstack fun j hj heq => ?_
  obtain ⟨hnot, hcover⟩ := habsent hstarts ⟨j, hj, heq⟩
  obtain ⟨-, hg, -⟩ := Maps.elfLoad img M h.inv
  rw [Mach.Present, hg.leaf a hcover]
  exact hnot

theorem TlbSound.usermodeExecElf {img : Image} (h : TlbSound a M)
    (hquiet : img.QuietAt userStackVaddr a M) : TlbSound a (usermodeExecElf img M).2 := by
  by_cases hstarts : img.Starts
  · rw [usermodeExecElf_snd hstarts]
    exact h.startProgram hquiet hstarts (by decide)
  · have h0 := Classical.not_not.mp fun h => hstarts ((elfLoad_fst_ne_zero M).mp h)
    simp only [TunaOs.usermodeExecElf, Act.bind_apply, h0, if_true]
    exact h.elfLoad hquiet.1

theorem TlbSound.withFault (h : TlbSound a M) (b : Bool) : TlbSound a (M.withFault b) :=
  h.congr (h.inv.withFault b) rfl fun _ => rfl

theorem TlbSound.handleExec {S : Services} {frame : InterruptFrame} {r : Services × Outcome}
    (h : TlbSound a M) (hrun : ExecRun S frame M r M')
    (hquiet : ∀ f, S.target frame M = some f → f.image.QuietAt childStackVaddr a M) :
    TlbSound a M' := by
  obtain ⟨b, hb⟩ := M.readName_eq frame
  have hread := h.withFault b
  cases hrun with
  | notFound => exact hb ▸ hread
  | rejected hf => exact hb ▸ hread.elfLoad (hquiet _ hf).1
  | noStack hf hstarts => exact hb ▸ hread.startProgram (hquiet _ hf) hstarts (by decide)
  | started hf hstarts => exact hb ▸ hread.startProgram (hquiet _ hf) hstarts (by decide)

/-- A system call. -/
theorem TlbSound.syscallDispatch {S : Services} {frame : InterruptFrame} (h : TlbSound a M)
    (hexec : frame.rax = sysExec → ∀ f, S.target frame M = some f →
      f.image.QuietAt childStackVaddr a M)
    (hexit : frame.rax = sysExit → S.childRunning = true → ∀ img, S.shellElf = some img →
      img.CanonicalAt a) (input : UInt8) : TlbSound a (syscallDispatch S frame input M).2 := by
  rw [syscallDispatch_eq]
  generalize hr : dispatchCall S frame input M = r
  have hrun := dispatchCall_run S frame input M
  rw [hr] at hrun
  obtain ⟨r, M'⟩ := r
  cases hrun with
  | exec hrax hrun => exact h.handleExec hrun (hexec hrax)
  | halt => exact h
  | exit hrax hchild =>
      cases himg : S.shellElf with
      | none => exact (reloadShell_none himg M).symm ▸ h
      | some img => exact (reloadShell_some himg M).symm ▸ h.elfLoad (hexit hrax hchild img himg)
  | handler b => exact h.withFault b

end

/-! ## Runs -/

/-- Steps map the page of `a` anew only where it is not present, or they load it from an
image. -/
def Invalidated (a : Nat) : StepCond
  | k, .kmalloc size, _ => size < 2 ^ 63 ∧
      ∀ b, k.heap.heapEnd ≤ b → b < k.heap.reach size → pageOf a = pageOf b → ¬ k.mach.Present a
  | k, .usermode img, _ => img.QuietAt userStackVaddr a k.mach
  | k, .syscall frame _, _ =>
      (frame.rax = sysExec → ∀ f, k.services.target frame k.mach = some f →
        f.image.QuietAt childStackVaddr a k.mach) ∧
      (frame.rax = sysExit → k.services.childRunning = true → ∀ img,
        k.services.shellElf = some img → img.CanonicalAt a)
  | _, _, _ => True

theorem busFree_invalidated (a : Nat) : BusFree (Invalidated a) := by
  intro k k' op b h
  cases op with
  | syscall frame input =>
      refine ⟨fun hrax f hf => ?_, h.2⟩
      rw [Kernel.services_onBus, Kernel.mach_onBus, target_withBus] at hf
      exact h.1 hrax f hf
  | kmalloc size =>
      refine ⟨h.1, fun c h1 h2 => h.2 c h1 ?_⟩
      rw [← k.heap.reach_withEnv (k.mach.withBus b)]
      exact h2
  | _ => exact h

theorem sized_of_invalidated {k k' : Kernel Pmm} {op : KernelOp} {a : Nat}
    (hC : Invalidated a k op k') : op.Sized := by
  cases op with
  | kmalloc size => exact hC.1
  | _ => trivial

/-- The invariant of such runs. -/
structure TlbKernel (A : Nat → Prop) (a : Nat) (k : Kernel Pmm) : Prop where
  rooted : Rooted A k.mach
  limits : HeapLimits k.heap.heapEnd
  tlb : TlbSound a k.mach

theorem TlbKernel.step {A : Nat → Prop} {a : Nat} {k k' : Kernel Pmm} {op : KernelOp}
    (h : TlbKernel A a k) (hs : KernelStep k op k') (hC : Invalidated a k op k') :
    TlbKernel A a k' := by
  have hroot := rooted_kept.step h.rooted hs
  obtain ⟨hlim, -, -⟩ := hs.frame h.rooted.isolated h.limits (sized_of_invalidated hC)
  refine ⟨hroot, hlim, ?_⟩
  cases hs with
  | kmalloc hm =>
      refine h.tlb.kmalloc h.limits hC.1 hm fun b h1 h2 => hC.2 b h1 ?_
      exact Nat.lt_of_lt_of_le h2 (kmalloc_reach h.limits.max hm)
  | kfree hf =>
      rw [Kernel.mach, (kfree_env hf).1]
      exact h.tlb
  | heapMem => exact h.tlb
  | addFile => exact h.tlb
  | setShellElf => exact h.tlb
  | usermode => exact h.tlb.usermodeExecElf hC
  | user hm =>
      obtain ⟨hiso, hleaf⟩ := h.rooted.isolated.userWrites hm
      exact h.tlb.congr hiso.inv rfl hleaf
  | syscall => exact h.tlb.syscallDispatch hC.1 hC.2 _

/-! ## Boot -/

section

variable {σ : Type} [FrameSource σ] {M : Mach σ} {a : Nat}

/-- Loading CR3 empties the TLB. -/
theorem TlbSound.loadCr3 (hinv : VmInv M) (ht : M.Tracks) (table : Nat) :
    TlbSound a (loadCr3 table M).2 :=
  ⟨⟨hinv.bus, hinv.tables, hinv.fresh⟩, ht, .clear⟩

theorem TlbSound.vmmInit (hbus : M.bus = .phys) (hev : M.events = [])
    (h0 : (allocTable M).1 ≠ 0) : TlbSound a (vmmInit M).2 := by
  obtain ⟨hinv, -, -, -, hzero, -⟩ := newPml4_spec hbus h0 rfl
  have hempty : (newPml4 M).Tracks := by
    intro b
    rw [hzero b, Mach.tlb, newPml4_events, (silent_events []).allocTable M hev]
    rfl
  have hloop := forLoop_induct (n := identityPages) (M := newPml4 M)
    (fun i => TunaOs.vmmMapPage (i * 4096) (i * 4096) kernelFlags)
    (Q := fun _ N => VmInv N ∧ N.Tracks) ⟨hinv, hempty⟩ fun i N hi hN => ?_
  · rw [vmmInit_ne_zero h0]
    generalize (forLoop identityPages (fun i => TunaOs.vmmMapPage (i * 4096) (i * 4096) kernelFlags)
      (newPml4 M)).2 = N at hloop ⊢
    obtain ⟨hi, ht⟩ := hloop
    exact .loadCr3 hi ht _
  · obtain ⟨hi1, ht1⟩ := hN
    have hp : i * 4096 < 2 ^ 64 := by
      simp only [identityPages] at hi
      omega
    exact ⟨(vmmMapPage_spec hi1 (by decide) hp rfl).1, (ht1.vmmMapPage hi1 (by decide) hp rfl).1⟩

end

/-- A page of the heap that `kheap_init` makes. -/
def InitialHeapPage (n : Nat) : Prop := ∃ j, j < 16 ∧ n = pageOf (kheapStart + 4096 * j)

theorem BootEnv.boot_tlb {env : BootEnv} (hbus : env.bus = .phys) {a : Nat}
    (hheap : InitialHeapPage (pageOf a) → ¬ (vmmInit env.start).2.Present a)
    (h0 : (allocTable env.start).1 ≠ 0) : TlbKernel (avail env.start.frames) a env.boot := by
  refine ⟨BootEnv.boot_rooted hbus h0, env.boot_heapEnd ▸ ⟨by decide, by decide⟩, ?_⟩
  rw [env.boot_mach]
  have hsound : TlbSound a (vmmInit env.start).2 := .vmmInit hbus rfl h0
  exact hsound.kheapMapPages _ _ (by decide) fun j hj heq => hheap ⟨j, hj, heq⟩

/-- Without a root there are no events, and the TLB has the tables of the boot code. -/
theorem bare_events : KeptByParts (σ := Pmm) fun M => Bare M ∧ M.events = [] :=
  Dry.kept ⟨fun _ h => h.1.starved.none, fun _ h => ⟨h.1.allocFrame, h.2⟩⟩
    (fun a M h => ⟨bare_kept.loadUser a M h.1, h.2⟩)
    fun _ _ h => ⟨⟨⟨h.1.starved.pml4, h.1.starved.none⟩, h.1.cr3, h.1.oom⟩, h.2⟩

theorem BootEnv.boot_bare_events {env : BootEnv} (h0 : (allocTable env.start).1 = 0) :
    Bare env.boot.mach ∧ env.boot.mach.events = [] := by
  have hev : (vmmInit env.start).2.events = [] := by
    rw [vmmInit_zero h0, newPml4_events]
    exact (silent_events []).allocTable env.start rfl
  rw [env.boot_mach]
  exact bare_events.kheapMapPages _ _ _ ⟨BootEnv.vmmInit_bare h0, hev⟩

theorem BootEnv.Reaches.tlb {env : BootEnv} (hbus : env.bus = .phys) {a : Nat}
    (hheap : InitialHeapPage (pageOf a) → ¬ (vmmInit env.start).2.Present a) {k : Kernel Pmm}
    (hk : env.Reaches (Invalidated a) k) :
    TlbKernel (avail env.start.frames) a k ∨ (Bare k.mach ∧ k.mach.events = []) := by
  refine hk.invariant (I := fun k => TlbKernel (avail env.start.frames) a k ∨
    (Bare k.mach ∧ k.mach.events = [])) ?_ ?_
  · by_cases h0 : (allocTable env.start).1 = 0
    · exact Or.inr (BootEnv.boot_bare_events h0)
    · exact Or.inl (BootEnv.boot_tlb hbus hheap h0)
  · rintro k op k' (h | h) hs hC
    · exact Or.inl (h.step hs hC)
    · exact Or.inr (bare_events.step h hs)

theorem BootEnv.Reaches.coherent {env : BootEnv} (hbus : env.bus = .phys) {a : Nat}
    (hheap : InitialHeapPage (pageOf a) → ¬ (vmmInit env.start).2.Present a) {k : Kernel Pmm}
    (hk : env.Reaches (Invalidated a) k) : k.mach.Coherent a := by
  rcases hk.tlb hbus hheap with h | ⟨-, hev⟩
  · exact h.tlb.mach_coherent
  · -- nothing is cached
    intro e he
    rw [Mach.Cached, Mach.tlb, hev] at he
    cases he with
    | fill h =>
        have hzero : Nat.testBit 0 0 = true := h
        cases hzero

theorem Mach.present_withBus {σ : Type} (M : Mach σ) (b : Bus) (a : Nat) :
    (M.withBus b).Present a ↔ M.Present a := Iff.rfl

/-- What the TLB may hold for a page is its leaf entry, as long as the heap and the stacks
are mapped where no page was present. -/
theorem tlb_coherent {env : BootEnv} {a : Nat}
    (hheap : InitialHeapPage (pageOf a) → ¬ (vmmInit env.start).2.Present a) {k : Kernel Pmm}
    (hk : env.Reaches (Invalidated a) k) (hexact : env.bus = .phys ∨ k.mach.stray = false) :
    k.mach.Coherent a := by
  rcases hexact with hbus | hstray
  · exact hk.coherent hbus hheap
  · -- the same run on the bus `phys`
    have hheap' : InitialHeapPage (pageOf a) →
        ¬ (vmmInit (env.onBus .phys).start).2.Present a := by
      intro hpage
      rw [BootEnv.vmmInit_onBus .phys (hk.boot_calm hstray), Mach.present_withBus]
      exact hheap hpage
    exact (hk.onBus (busFree_invalidated a) .phys hstray).coherent rfl hheap'

theorem onePageImage_quiet {σ : Type} [FrameSource σ] (M : Mach σ) :
    onePageImage.QuietAt userStackVaddr 0x400000 M := by
  have hcount : (onePageImage.phdr 0).pageCount = 1 := by decide
  refine ⟨fun i hi htype j hj _ => ?_, fun _ h => absurd h (by decide)⟩
  obtain rfl := seg_onePageImage ⟨hi, htype⟩
  obtain rfl : j = 0 := by omega
  decide

/-- A program is started twice, and its page is loaded anew the second time. -/
theorem tlb_coherent_reload :
    let k := roomyBoot.boot.withMach (usermodeExecElf onePageImage roomyBoot.boot.mach).2
    (k.withMach (usermodeExecElf onePageImage k.mach).2).mach.Coherent 0x400000 := by
  intro k
  have hheap : ¬ InitialHeapPage (pageOf 0x400000) := by
    rintro ⟨j, hj, h⟩
    simp only [pageOf, kheapStart] at h
    omega
  have hk : roomyBoot.Reaches (Invalidated 0x400000) k :=
    (BootEnv.Reaches.boot roomyBoot _).next .usermode (onePageImage_quiet _)
  exact tlb_coherent (fun h => absurd h hheap) (hk.next .usermode (onePageImage_quiet _))
    (Or.inl rfl)

/-! ## The initial heap -/

section

variable {σ : Type} [FrameSource σ] {M M' : Mach σ} {n e : Nat}

/-- Mapping pages takes nothing from the TLB. -/
theorem mapping_cached : Mapping (σ := σ) (Keeps fun M => M.Cached n e) where
  toClosed := closed_keeps _
  load64 _ _ h := h
  store64 a v M h := by
    change Cache.Holds _ _ ((M.store64 a v).events.flatMap _) n e
    rw [M.store64_events]
    exact h
  store8 a v M h := by
    change Cache.Holds _ _ ((M.store8 a v).events.flatMap _) n e
    rw [M.store8_events]
    exact h
  leaf _ _ _ _ h := .write h
  allocFrame _ h := h
  getPml4 _ h := h
  noteHeapFrame _ _ h := h

/-- The first page that `kheap_map_region` maps is behind a frame that was free. -/
theorem kheapMapPages_first {virt : Nat} (hinv : VmInv M) (hlt : virt + 4096 * (n + 1) < 2 ^ 48)
    (hM' : (kheapMapPages (n + 1) virt M).2 = M') (hoom : M'.oom = false) :
    ∃ f, avail M.frames f ∧ M'.leaf virt = f ||| kernelFlags := by
  simp only [kheapMapPages, Act.bind_apply] at hM'
  obtain ⟨-, ⟨h0, -, -, -, ho⟩ | ⟨h0, hhand⟩⟩ := allocFrame_spec (fun _ => False) hinv
  · rw [if_pos h0] at hM'
    rw [← hM', Act.pure_apply, ho] at hoom
    cases hoom
  · rw [if_neg h0, Act.bind_apply, Act.bind_apply] at hM'
    generalize (allocFrame M).1 = f at hhand hM'
    generalize (allocFrame M).2 = N at hhand hM'
    obtain ⟨hf0, -, hf64⟩ := FrameSource.avail_frame hhand.drawn
    have hnote : VmInv (noteHeapFrame f N).2 := ⟨hhand.inv.bus, hhand.inv.tables, hhand.inv.fresh⟩
    generalize hM₁ : (vmmMapPage virt f kernelFlags (noteHeapFrame f N).2).2 = M₁ at hM'
    obtain ⟨hinv₁, -, -, hcase⟩ := vmmMapPage_spec hnote (by decide) (by omega) hM₁
    obtain ⟨-, hg, -, -⟩ := kheapMapPages_spec n _ hinv₁ hM'
    rcases hcase with ⟨hfail, -⟩ | ⟨-, -, hleaf⟩
    · rw [hg.oom hoom] at hfail
      cases hfail
    · refine ⟨f, hhand.drawn, ?_⟩
      rw [hg.leaf virt, hleaf virt, if_pos rfl, and_pageMask_of_aligned hf0 (by omega)]
      rintro ⟨j, hj, heq⟩
      rw [pageOf_wrap64] at heq
      exact pageOf_step hlt (by omega) heq.symm

end

/-- With 100 frames, all of them below 2 MiB: when `kheap_init` returns the TLB may still
have the identity mapping of the first page of the heap, which is behind another frame
now. -/
theorem heapPage_stale :
    smallBoot.bus = .phys ∧ smallBoot.boot.mach.oom = false ∧
      smallBoot.boot.mach.Cached (pageOf 0x200000) (0x200000 ||| kernelFlags) ∧
      smallBoot.boot.mach.leaf 0x200000 ≠ 0x200000 ||| kernelFlags := by
  have hoom := oom_smallBoot
  have hroot := smallBoot.root_ne_zero hoom
  have htlb : TlbSound 0x200000 (vmmInit smallBoot.start).2 := .vmmInit rfl rfl hroot
  have hident := smallBoot.vmmInit_identity rfl hoom (i := 0x200) (by decide)
  have hav : ∀ f, avail (vmmInit smallBoot.start).2.frames f → f < 2 ^ 21 := by
    have hkeeps := primitive_frames (I := fun s : Pmm => ∀ f, avail s f → f < 2 ^ 21)
      fun s hs g hg => hs g (FrameSource.avail_alloc hg).1
    refine hkeeps.vmmInit smallBoot.start fun f hf => ?_
    obtain ⟨i, hi, rfl⟩ := List.mem_map.mp (avail_smallBoot hf)
    have := List.mem_range.mp hi
    omega
  have hmap := smallBoot.boot_mach.symm
  generalize (vmmInit smallBoot.start).2 = M at htlb hident hav hmap
  generalize smallBoot.boot.mach = M' at hmap hoom
  refine ⟨rfl, hoom, ?_, ?_⟩
  · -- `vmm_init` has mapped the page, and the TLB takes the entry over before `kheap_init`
    have hcached : M.Cached (pageOf 0x200000) (0x200000 ||| kernelFlags) := by
      have hvalue := (htlb.tracks 0x200000).trans hident
      have hpresent : PresentEntry (0x200000 ||| kernelFlags) := by
        unfold PresentEntry
        decide
      have hfill : M.Cached (pageOf 0x200000) _ := .fill (hvalue ▸ hpresent)
      rwa [hvalue] at hfill
    rw [← hmap]
    exact mapping_cached.kheapMapPages 16 kheapStart M hcached
  · obtain ⟨f, hf, hleaf⟩ := kheapMapPages_first (n := 15) htlb.inv (by decide) hmap hoom
    have hlow : f ||| kernelFlags < 2 ^ 21 := Nat.or_lt_two_pow (hav f hf) (by decide)
    intro heq
    have hbad := (hleaf.symm.trans heq) ▸ hlow
    exact absurd hbad (by decide)

end TunaOs
