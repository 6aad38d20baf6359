import TunaOs.Lib.Run
import TunaOs.Pmm.Init

/-!
# Exclusivity of physical frames

A history is the allocator's state with the list of the addresses handed out
and not freed since.  Clients free only such addresses.  The invariant
`PmmHistory.Inv` says that the free frames are at all times the frames
`pmm_init` left free, less the live ones.  `pmmAllocFrame_exclusive` reads off
what a client may rely on.
-/

namespace TunaOs

open Run (Reachable)

/-- The allocator with the addresses that are live. -/
structure PmmHistory where
  /-- The allocator. -/
  state : Pmm
  /-- Addresses returned by `pmm_alloc_frame` and not freed since. -/
  live : List Nat

/-- The history at the end of `pmm_init`. -/
def PmmHistory.Start (img : KernelImage) (regions : List MmapRegion) (s₀ : Pmm)
    (h : PmmHistory) : Prop :=
  h = ⟨pmmInit img regions s₀, []⟩

/-- A call of one of the two operations. -/
inductive PmmStep : PmmHistory → PmmHistory → Prop
  | allocNone {s s' : Pmm} {live : List Nat} :
      pmmAllocFrame s = (s', 0) → PmmStep ⟨s, live⟩ ⟨s', live⟩
  | allocSome {s s' : Pmm} {live : List Nat} {a : Nat} :
      pmmAllocFrame s = (s', a) → a ≠ 0 → PmmStep ⟨s, live⟩ ⟨s', a :: live⟩
  | free {s : Pmm} {live : List Nat} {a : Nat} :
      a ∈ live → PmmStep ⟨s, live⟩ ⟨pmmFreeFrame s a, live.erase a⟩

/-! ## The invariant -/

/-- What holds along every history.  `init` is the state `pmm_init` leaves. -/
structure PmmHistory.Inv (init : Pmm) (h : PmmHistory) : Prop where
  /-- No address is live twice. -/
  nodup : h.live.Nodup
  /-- A live address is the address of a frame that was free at the start. -/
  live_frame : ∀ a ∈ h.live, ∃ f, init.Free f ∧ a = f * pmmPageSize
  /-- The free frames are the initial ones that are not live. -/
  free_iff : ∀ f, h.state.Free f ↔ init.Free f ∧ f * pmmPageSize ∉ h.live

theorem mul_pageSize_inj {f g : Nat} (h : f * pmmPageSize = g * pmmPageSize) : f = g :=
  Nat.eq_of_mul_eq_mul_right (by decide) h

/-- The states before and after taking frame `f`. -/
theorem PmmHistory.Inv.take {init s : Pmm} {live : List Nat} {f : Nat}
    (hinv : PmmHistory.Inv init ⟨s, live⟩) (hf : s.Free f) :
    PmmHistory.Inv init ⟨(bitmapSet s f).usedInc, f * pmmPageSize :: live⟩ := by
  obtain ⟨hinit, hdead⟩ := (hinv.free_iff f).mp hf
  constructor
  · exact List.nodup_cons.mpr ⟨hdead, hinv.nodup⟩
  · intro a ha
    rcases List.mem_cons.mp ha with rfl | ha
    · exact ⟨f, hinit, rfl⟩
    · exact hinv.live_frame a ha
  · intro g
    rw [free_bitmapSet_usedInc, hinv.free_iff g, List.mem_cons, not_or]
    constructor
    · rintro ⟨⟨hg, hlive⟩, hne⟩
      exact ⟨hg, fun h => hne (mul_pageSize_inj h), hlive⟩
    · rintro ⟨hg, hne, hlive⟩
      exact ⟨⟨hg, hlive⟩, fun h => hne (by rw [h])⟩

/-- A live frame is in range and its bit is set. -/
theorem PmmHistory.Inv.live_used {init : Pmm} {h : PmmHistory} (hinv : h.Inv init) {f : Nat}
    (hf : f * pmmPageSize ∈ h.live) : f < pmmMaxFrames ∧ bitmapTest h.state f = true := by
  obtain ⟨g, hg, heq⟩ := hinv.live_frame _ hf
  obtain rfl := mul_pageSize_inj heq
  refine ⟨hg.1, ?_⟩
  by_contra hclear
  have hfree : h.state.Free f := ⟨hg.1, Bool.eq_false_iff.mpr hclear⟩
  exact ((hinv.free_iff f).mp hfree).2 hf

/-- The states before and after giving a live address back. -/
theorem PmmHistory.Inv.give {init s : Pmm} {live : List Nat} {a : Nat}
    (hinv : PmmHistory.Inv init ⟨s, live⟩) (ha : a ∈ live) :
    PmmHistory.Inv init ⟨pmmFreeFrame s a, live.erase a⟩ := by
  obtain ⟨f, hf, rfl⟩ := hinv.live_frame a ha
  obtain ⟨hrange, hused⟩ := hinv.live_used ha
  constructor
  · exact hinv.nodup.erase _
  · intro b hb
    exact hinv.live_frame b (List.mem_of_mem_erase hb)
  · intro g
    rw [free_pmmFreeFrame hrange hused, hinv.free_iff g, hinv.nodup.mem_erase_iff]
    constructor
    · rintro (⟨hg, hlive⟩ | rfl)
      · exact ⟨hg, fun h => hlive h.2⟩
      · exact ⟨hf, fun h => h.1 rfl⟩
    · rintro ⟨hg, hlive⟩
      by_cases heq : g = f
      · exact Or.inr heq
      · exact Or.inl ⟨hg, fun h => hlive ⟨fun hm => heq (mul_pageSize_inj hm), h⟩⟩

/-- `pmm_init` leaves no frame below 1 MiB free, so 0 is never an address of a
free frame. -/
theorem free_pmmInit_pos {img : KernelImage} {regions : List MmapRegion} {s₀ : Pmm} {f : Nat}
    (h : (pmmInit img regions s₀).Free f) : f * pmmPageSize ≠ 0 := by
  have hlow := ((free_pmmInit_iff img regions s₀ f).mp h).2.1
  simp only [lowEnd, pmmPageSize] at hlow ⊢
  omega

theorem PmmStep.inv {init : Pmm} (hpos : ∀ f, init.Free f → f * pmmPageSize ≠ 0)
    {h h' : PmmHistory} (hinv : h.Inv init) (hst : PmmStep h h') : h'.Inv init := by
  cases hst with
  | @allocNone s s' live halloc =>
      rcases pmmAllocFrame_cases s with ⟨heq, -⟩ | ⟨f, hf, -, heq⟩
      · rw [halloc, Prod.mk.injEq] at heq
        rw [heq.1]
        exact hinv
      · rw [halloc, Prod.mk.injEq] at heq
        exact absurd heq.2.symm (hpos f ((hinv.free_iff f).mp hf).1)
  | @allocSome s s' live a halloc hne =>
      rcases pmmAllocFrame_cases s with ⟨heq, -⟩ | ⟨f, hf, -, heq⟩
      · rw [halloc, Prod.mk.injEq] at heq
        exact absurd heq.2 hne
      · rw [halloc, Prod.mk.injEq] at heq
        rw [heq.1, heq.2]
        exact hinv.take hf
  | free ha => exact hinv.give ha

/-- The invariant holds along every history that starts with `pmm_init`. -/
theorem PmmHistory.inv_of_reachable {img : KernelImage} {regions : List MmapRegion} {s₀ : Pmm}
    {h : PmmHistory} (hr : Reachable (PmmHistory.Start img regions s₀) PmmStep h) :
    h.Inv (pmmInit img regions s₀) := by
  refine hr.invariant ?_ (fun _ _ hinv hst => hst.inv (fun _ => free_pmmInit_pos) hinv)
  rintro h rfl
  refine ⟨List.nodup_nil, fun a ha => absurd ha List.not_mem_nil, fun f => ?_⟩
  exact ⟨fun hf => ⟨hf, List.not_mem_nil⟩, fun hf => hf.1⟩

/-! ## What a client may rely on -/

/-- The contract of the two operations in a history: what `pmm_alloc_frame`
returns next, and what giving a live address back does. -/
structure PmmHistory.Exclusive (img : KernelImage) (regions : List MmapRegion) (s₀ : Pmm)
    (h : PmmHistory) : Prop where
  /-- A frame that is returned is aligned and in range, is no kernel page, lies
  in an available region, is not live, and is the lowest free frame. -/
  alloc_frame : ∀ a, (pmmAllocFrame h.state).2 = a → a ≠ 0 →
    a % 4096 = 0 ∧ 1024 * 1024 ≤ a ∧ a < 128 * 1024 * 1024 ∧
    (a + 4096 ≤ img.start ∨ img.stop ≤ a) ∧
    (∃ r ∈ regions, r.type = mmapTypeAvailable ∧ r.base ≤ a ∧ a + 4096 ≤ r.base + r.length) ∧
    a ∉ h.live ∧ h.state.Free (a / 4096) ∧ ∀ g, h.state.Free g → a / 4096 ≤ g
  /-- The allocator is out of frames exactly when all the initial ones are live. -/
  alloc_zero : (pmmAllocFrame h.state).2 = 0 ↔
    ∀ f, (pmmInit img regions s₀).Free f → 4096 * f ∈ h.live
  /-- Freeing a live address makes exactly its frame free. -/
  free_frame : ∀ a ∈ h.live, ¬ h.state.Free (a / 4096) ∧
    ∀ g, (pmmFreeFrame h.state a).Free g ↔ h.state.Free g ∨ g = a / 4096

/-- Frames are handed out exclusively, in every history of allocations and of
frees of live addresses. -/
theorem pmmAllocFrame_exclusive {img : KernelImage} {regions : List MmapRegion} {s₀ : Pmm}
    (hb : Bounded regions) {h : PmmHistory}
    (hr : Reachable (PmmHistory.Start img regions s₀) PmmStep h) :
    h.Exclusive img regions s₀ := by
  have hinv := PmmHistory.inv_of_reachable hr
  have hdiv : ∀ f, f * pmmPageSize / 4096 = f := fun f => by simp only [pmmPageSize]; omega
  constructor
  · intro a halloc hne
    rcases pmmAllocFrame_cases h.state with ⟨heq, -⟩ | ⟨f, hf, hlow, heq⟩
    · rw [heq] at halloc
      exact absurd halloc.symm hne
    · rw [heq] at halloc
      obtain ⟨hinit, hdead⟩ := (hinv.free_iff f).mp hf
      obtain ⟨hmax, hlow1, hkernel, r, hr, htype, hbase, hend⟩ :=
        (usable_iff hb f).mp ((free_pmmInit_iff img regions s₀ f).mp hinit)
      have ha : a = 4096 * f := by simp only [pmmPageSize] at halloc; omega
      have haf : a / 4096 = f := by omega
      rw [haf]
      simp only [pmmMaxFrames, lowEnd, pmmPageSize] at hmax hlow1
      refine ⟨by omega, by omega, by omega, by omega, ⟨r, hr, htype, by omega, by omega⟩, ?_,
        hf, hlow⟩
      rw [← halloc]
      exact hdead
  · constructor
    · intro hzero f hf
      rcases pmmAllocFrame_cases h.state with ⟨-, hnone⟩ | ⟨g, hg, -, heq⟩
      · by_contra hdead
        exact hnone f ((hinv.free_iff f).mpr ⟨hf, by rwa [Nat.mul_comm]⟩)
      · rw [heq] at hzero
        exact absurd hzero (free_pmmInit_pos ((hinv.free_iff g).mp hg).1)
    · intro hall
      rcases pmmAllocFrame_cases h.state with ⟨heq, -⟩ | ⟨f, hf, -, -⟩
      · rw [heq]
      · obtain ⟨hinit, hdead⟩ := (hinv.free_iff f).mp hf
        exact absurd (Nat.mul_comm 4096 f ▸ hall f hinit) hdead
  · intro a ha
    obtain ⟨f, hf, rfl⟩ := hinv.live_frame a ha
    obtain ⟨hrange, hused⟩ := hinv.live_used ha
    rw [hdiv]
    refine ⟨fun hfree => ?_, free_pmmFreeFrame hrange hused⟩
    rw [hfree.2] at hused
    cases hused

/-- A kernel image of 52 KiB at 1 MiB. -/
def sampleImage : KernelImage := ⟨0x100000, 0x10D000, by decide, by decide⟩

/-- The memory map of a small machine: low memory, a reserved hole, and RAM. -/
def sampleMap : List MmapRegion :=
  [⟨0, 0x9FC00, 1⟩, ⟨0x9FC00, 0x60400, 2⟩, ⟨0x100000, 0x7EE0000, 1⟩]

/-- The lowest free frame is the one that is handed out. -/
theorem pmmAllocFrame_lowest {s : Pmm} {f : Nat} (hf : s.Free f) (hlow : ∀ g, s.Free g → f ≤ g) :
    pmmAllocFrame s = ((bitmapSet s f).usedInc, f * pmmPageSize) := by
  rcases pmmAllocFrame_cases s with ⟨-, hnone⟩ | ⟨g, hg, hmin, heq⟩
  · exact absurd hf (hnone f)
  · rw [heq, Nat.le_antisymm (hmin f hf) (hlow g hg)]

/-- The contract on a small machine, when the first two frames behind the kernel have been handed
out and the first one has been freed. -/
theorem pmmAllocFrame_exclusive_sample :
    Bounded sampleMap ∧ ∃ s : Pmm,
      Reachable (PmmHistory.Start sampleImage sampleMap ⟨fun _ => 0, 0, 0⟩) PmmStep
        ⟨s, [0x10E000]⟩ ∧
      (⟨s, [0x10E000]⟩ : PmmHistory).Exclusive sampleImage sampleMap ⟨fun _ => 0, 0, 0⟩ := by
  have hb : Bounded sampleMap := by decide
  have hfree := free_pmmInit_iff sampleImage sampleMap ⟨fun _ => 0, 0, 0⟩
  have hlow : ∀ g, Usable sampleImage sampleMap g → 0x10D ≤ g := by
    intro g hg
    obtain ⟨-, hlow, hkernel, -⟩ := (usable_iff hb g).mp hg
    simp only [lowEnd, pmmPageSize, sampleImage] at hlow hkernel
    omega
  generalize hs₀ : pmmInit sampleImage sampleMap ⟨fun _ => 0, 0, 0⟩ = s₀ at hfree
  have hstart : Reachable (PmmHistory.Start sampleImage sampleMap ⟨fun _ => 0, 0, 0⟩) PmmStep
      ⟨s₀, []⟩ := .init (by rw [PmmHistory.Start, hs₀])
  have halloc₁ := pmmAllocFrame_lowest ((hfree 0x10D).mpr (by decide)) fun g hg =>
    hlow g ((hfree g).mp hg)
  have hrun₁ := hstart.step (.allocSome halloc₁ (by decide))
  have halloc₂ := pmmAllocFrame_lowest (s := (bitmapSet s₀ 0x10D).usedInc) (f := 0x10E)
    ((free_bitmapSet_usedInc ..).mpr ⟨(hfree 0x10E).mpr (by decide), by decide⟩) fun g hg => by
      obtain ⟨hg, hne⟩ := (free_bitmapSet_usedInc ..).mp hg
      have := hlow g ((hfree g).mp hg)
      omega
  have hrun₂ := hrun₁.step (.allocSome halloc₂ (by decide))
  have hrun₃ := hrun₂.step (.free (a := 0x10D000) (by decide))
  exact ⟨hb, _, hrun₃, pmmAllocFrame_exclusive hb hrun₃⟩

end TunaOs
