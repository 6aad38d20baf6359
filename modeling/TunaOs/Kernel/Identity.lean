import TunaOs.Kernel.Programs

/-!
# Physical addresses as pointers

The kernel zeroes and fills frames and reads and writes page tables through their
physical addresses.  After `vmm_init` that is right for the pages that the active
tables map to themselves, which are those of the first 4 MiB, without the pages of the heap
and of programs.  Nothing keeps the allocator to them.

`frames_identityMapped` is about the runs in which the frames drawn are in a set `W` of such
pages and no page of `W` is mapped anew: no access strays.  A step is judged by what it
would draw if pointers went where they should.  `stray_of_high_frame` is a run in which
`usermode_exec_elf` draws the frame at 16 MiB.
-/

namespace TunaOs

open Word

open FrameSource (avail)

section

variable {σ : Type} [FrameSource σ] {A P W : Nat → Prop} {M M' : Mach σ}

/-! ## Steps that stay inside a window -/

/-- Frames that `vmm_init` maps to themselves and `kheap_init` leaves so. -/
def LowFrames (W : Nat → Prop) : Prop :=
  ∀ t, W t → t % 4096 = 0 ∧ t < 0x400000 ∧ ¬ (0x200000 ≤ t ∧ t < 0x210000)

/-- The invariant: the tables are in the window, and the window is identity-mapped. -/
structure Windowed (A W : Nat → Prop) (k : Kernel σ) : Prop where
  rooted : Rooted A k.mach
  limits : HeapLimits k.heap.heapEnd
  tables : ∀ t, k.mach.IsTable t → W t
  window : k.mach.Window W
  calm : k.mach.stray = false

/-- What a step draws is in `W`, and it maps no page of `W`. -/
structure StaysIn (W : Nat → Prop) (k : Kernel σ) (op : KernelOp) (k' : Kernel σ) : Prop where
  sized : op.Sized
  drawn : ∀ f, avail k.mach.frames f → ¬ avail k'.mach.frames f → W f
  spared : ∀ t, W t → ¬ op.Pages k k' (pageOf t)

/-- A step that changes tables by mapping pages. -/
theorem Windowed.grow {k k' : Kernel σ} (h : Windowed A W k) (hrooted : Rooted A k'.mach)
    (hlim : HeapLimits k'.heap.heapEnd) (hg : Grows P k.mach k'.mach)
    (hdrawn : ∀ f, avail k.mach.frames f → ¬ avail k'.mach.frames f → W f)
    (hspared : ∀ t, W t → ¬ P (pageOf t)) : Windowed A W k' where
  rooted := hrooted
  limits := hlim
  tables := hg.tables_in hrooted.isolated.inv h.tables hdrawn
  window := hg.window (.inr hspared) h.window
  calm := (hg.calm W h.tables hdrawn (.inr hspared) h.window).trans h.calm

/-- A step on the bus `phys` that stays in the window does not stray. -/
theorem Windowed.step {k k' : Kernel σ} {op : KernelOp} (h : Windowed A W k)
    (hs : KernelStep k op k') (hin : StaysIn W k op k') : Windowed A W k' := by
  have hrooted := rooted_kept.step h.rooted hs
  have hinv := h.rooted.isolated.inv
  cases hs with
  | kmalloc hm =>
      obtain ⟨-, hlim, -, hg⟩ := kmalloc_grows hinv h.limits hin.sized hm
      exact h.grow hrooted hlim hg hin.drawn hin.spared
  | @kfree p h' hf =>
      obtain ⟨henv, hend⟩ := kfree_env hf
      have hmach : ({ k with heap := h' } : Kernel σ).mach = k.mach := henv
      refine ⟨hrooted, hend ▸ h.limits, ?_, ?_, ?_⟩ <;> rw [hmach]
      · exact h.tables
      · exact h.window
      · exact h.calm
  | heapMem => exact ⟨hrooted, h.limits, h.tables, h.window, h.calm⟩
  | addFile => exact ⟨hrooted, h.limits, h.tables, h.window, h.calm⟩
  | setShellElf => exact ⟨hrooted, h.limits, h.tables, h.window, h.calm⟩
  | usermode =>
      obtain ⟨-, hg, -⟩ := Maps.usermodeExecElf _ k.mach hinv
      exact h.grow hrooted h.limits hg hin.drawn hin.spared
  | @user m hm =>
      -- user code does not write to tables
      obtain ⟨-, hleaf, htab⟩ := hinv.withMem fun x hx => h.rooted.isolated.userWrites_table hm hx
      exact ⟨hrooted, h.limits, fun t ht => h.tables t (htab t ht),
        h.window.congr rfl rfl fun t _ => hleaf t, h.calm⟩
  | @syscall frame input =>
      obtain ⟨-, hg, -⟩ := syscallDispatch_maps k.services frame input hinv
      exact h.grow hrooted h.limits hg hin.drawn hin.spared

end

/-! ## Boot -/

/-- `vmm_init` and `kheap_init` with low frames do not stray. -/
theorem BootEnv.boot_windowed {env : BootEnv} {W : Nat → Prop} (hW : LowFrames W)
    (hbus : env.bus = .phys) (hoom : env.boot.mach.oom = false)
    (hdrawn : ∀ f, avail env.start.frames f → ¬ avail env.boot.mach.frames f → W f) :
    Windowed (avail env.start.frames) W env.boot := by
  have h0 := env.root_ne_zero hoom
  obtain ⟨N, hN, hinv, hg, -, hident⟩ := vmmInit_spec hbus h0 rfl
  obtain ⟨hinv0, honly, hroot, hav, -, hcr3, -, -, hstray⟩ := newPml4_spec hbus h0 rfl
  have hinv1 : VmInv (loadCr3 N.pml4 N).2 := ⟨hinv.bus, hinv.tables, hinv.fresh⟩
  have hmap := env.boot_mach.symm
  rw [hN] at hmap
  obtain ⟨hinv2, hg', -, -⟩ := kheapMapPages_spec 16 kheapStart hinv1 hmap
  have hrooted := BootEnv.boot_rooted hbus h0
  -- the root and all other frames drawn are in the window
  have hwroot : W (newPml4 env.start).pml4 := by
    refine hdrawn _ hroot fun h => ?_
    exact hinv0.fresh _ (hg.avail _ (hg'.avail _ h)) ⟨[], by simp, rfl⟩
  have hdrawn1 : ∀ f, avail (newPml4 env.start).frames f → ¬ avail N.frames f → W f :=
    fun f hf hn => hdrawn f (hav f hf) fun h => hn (hg'.avail f h)
  have htab0 : ∀ t, (newPml4 env.start).IsTable t → W t := fun t ht => honly t ht ▸ hwroot
  have htab1 : ∀ t, N.IsTable t → W t := hg.tables_in hinv htab0 hdrawn1
  -- before CR3 is loaded
  have hnone : (newPml4 env.start).cr3 = none := hcr3
  have hwin0 : (newPml4 env.start).Window W := by
    intro t ht
    rw [hnone]
    exact Nat.lt_trans (hW t ht).2.1 (by decide)
  have hcalm1 : N.stray = false :=
    (hg.calm W htab0 hdrawn1 (.inl hnone) hwin0).trans
      (hstray rfl (Nat.lt_trans (hW _ hwroot).2.1 (by decide)))
  -- and after
  have hwin1 : (loadCr3 N.pml4 N).2.Window W := by
    intro t ht
    obtain ⟨hmod, hlt, -⟩ := hW t ht
    refine ⟨rfl, ?_⟩
    have hleaf : (loadCr3 N.pml4 N).2.leaf t = t ||| kernelFlags := by
      have hi : t / 4096 * 4096 = t := Nat.div_mul_cancel (Nat.dvd_of_mod_eq_zero hmod)
      have hpage := hident (hg'.oom hoom) (t / 4096) (by simp only [identityPages]; omega)
      rwa [hi] at hpage
    rw [hleaf]
    refine ⟨testBit_or_right (by decide), testBit_or_right (by decide), ?_⟩
    rw [or_flags_and_pageMask (by decide), and_pageMask_of_aligned hmod (by omega)]
  have hspared : ∀ t, W t → ¬ ∃ j, j < 16 ∧ pageOf t = pageOf (kheapStart + 4096 * j) := by
    rintro t ht ⟨j, hj, hp⟩
    obtain ⟨-, hlt, hheap⟩ := hW t ht
    simp only [pageOf, kheapStart] at hp
    omega
  have hdrawn2 : ∀ f, avail (loadCr3 N.pml4 N).2.frames f → ¬ avail env.boot.mach.frames f → W f :=
    fun f hf hn => hdrawn f (hav f (hg.avail f hf)) hn
  exact ⟨hrooted, ⟨by rw [env.boot_heapEnd], by rw [env.boot_heapEnd]; decide⟩,
    hg'.tables_in hinv2 htab1 hdrawn2, hg'.window (.inr hspared) hwin1,
    (hg'.calm W htab1 hdrawn2 (.inr hspared) hwin1).trans hcalm1⟩

/-! ## Runs -/

/-- If pointers went to the frames they name, the step would draw frames of `W` only and
map no page of `W`. -/
def DrawsWithin (W : Nat → Prop) : StepCond := fun k op _ =>
  ∀ n, KernelStep (k.onBus .phys) op n → StaysIn W (k.onBus .phys) op n

/-- On the bus `phys` the kernel would be in the window, and it has not strayed. -/
def WindowedTwin (A W : Nat → Prop) (k : Kernel Pmm) : Prop :=
  k.mach.stray = false ∧ Windowed A W (k.onBus .phys)

theorem Kernel.onBus_onBus (k : Kernel Pmm) (b c : Bus) : (k.onBus b).onBus c = k.onBus c := rfl

/-- A kernel in the window, put on another bus. -/
theorem Windowed.twin {A W : Nat → Prop} {k : Kernel Pmm} (h : Windowed A W k) (b : Bus) :
    WindowedTwin A W (k.onBus b) := by
  refine ⟨h.calm, ?_⟩
  rw [Kernel.onBus_onBus, Kernel.onBus, Mach.withBus_self h.rooted.isolated.inv.bus]
  exact h

/-- A step on any bus follows the step on the bus `phys`. -/
theorem WindowedTwin.step {A W : Nat → Prop} {k k' : Kernel Pmm} {op : KernelOp}
    (h : WindowedTwin A W k) (hs : KernelStep k op k') (hC : DrawsWithin W k op k') :
    WindowedTwin A W k' := by
  have hs' : KernelStep ((k.onBus .phys).onBus k.mach.bus) op k' := hs
  obtain ⟨n, hn, htwin⟩ := hs'.twin
  have hwin := h.2.step hn (hC n hn)
  rw [htwin hwin.calm]
  exact hwin.twin _

/-- A boot that stays in the window on the bus `phys` does so on every bus. -/
theorem BootEnv.boot_windowedTwin {env : BootEnv} {A W : Nat → Prop} (h : Windowed A W env.boot)
    (b : Bus) : WindowedTwin A W (env.onBus b).boot
      ∧ (env.onBus b).boot.mach = env.boot.mach.withBus b := by
  rw [BootEnv.boot_onBus b h.calm]
  exact ⟨h.twin b, rfl⟩

/-- A run that stays in the window is as on the bus `phys`. -/
theorem BootEnv.Reaches.windowedTwin {env : BootEnv} {W : Nat → Prop} (hW : LowFrames W)
    (hoom : (env.onBus .phys).boot.mach.oom = false)
    (hdrawn : ∀ f, avail (env.onBus .phys).start.frames f →
      ¬ avail (env.onBus .phys).boot.mach.frames f → W f)
    {k : Kernel Pmm} (hk : env.Reaches (DrawsWithin W) k) :
    WindowedTwin (avail env.start.frames) W k := by
  have hboot := BootEnv.boot_windowed hW rfl hoom hdrawn
  have hself : (env.onBus .phys).onBus env.bus = env := rfl
  have htwin := (BootEnv.boot_windowedTwin hboot env.bus).1
  rw [hself] at htwin
  exact hk.invariant htwin fun k op k' h hs hC => h.step hs hC

/-- The kernel is reached with low frames only, over which no page is mapped. -/
def BootEnv.ReachesLow (env : BootEnv) (k : Kernel Pmm) : Prop :=
  ∃ W, LowFrames W ∧ (env.onBus .phys).boot.mach.oom = false ∧
    (∀ f, avail (env.onBus .phys).start.frames f →
      ¬ avail (env.onBus .phys).boot.mach.frames f → W f) ∧ env.Reaches (DrawsWithin W) k

theorem BootEnv.ReachesLow.calm {env : BootEnv} {k : Kernel Pmm} (h : env.ReachesLow k) :
    k.mach.stray = false := by
  obtain ⟨W, hW, hoom, hdrawn, hk⟩ := h
  exact (hk.windowedTwin hW hoom hdrawn).1

/-- Unmapping a page outside the window does not stray. -/
theorem WindowedTwin.unmap {A W : Nat → Prop} {k : Kernel Pmm} (h : WindowedTwin A W k)
    {virt : Nat} (hvirt : ∀ t, W t → pageOf t ≠ pageOf virt) :
    (vmmUnmapPage virt k.mach).2.stray = false := by
  have hrobust : Robust (vmmUnmapPage virt : Act Pmm Unit) :=
    closed_robust.vmmUnmapPage primitive_robust.getPml4 .load64 .store64 .event virt
  have hM' : (vmmUnmapPage virt (k.onBus .phys).mach).2 = _ := rfl
  obtain ⟨-, hg, -⟩ := vmmUnmapPage_spec h.2.rooted.isolated.inv hM'
  -- it draws no frame
  have hframes : Keeps (fun M => M.frames = (k.onBus .phys).mach.frames)
      (vmmUnmapPage virt : Act Pmm Unit) :=
    (closed_keeps _).vmmUnmapPage (fun _ h => h) (fun _ _ h => h)
      (fun a v M h => (M.store64_frames a v).trans h) (fun _ _ h => h) virt
  have hcalm := (hg.calm W h.2.tables (fun f hf hn => absurd (hframes _ rfl ▸ hf) hn)
    (.inr hvirt) h.2.window).trans h.2.calm
  have hagree := hrobust.agree (k.onBus .phys).mach k.mach.bus hcalm
  have hback : (k.onBus .phys).mach.withBus k.mach.bus = k.mach := rfl
  rw [hback] at hagree
  rw [hagree]
  exact hcalm

/-- In a run that draws low frames only and maps no page over them, no access through a
physical address strays: the active tables map its page to itself with `WRITE`.  Nor does one
of `vmm_unmap_page`, which no step calls. -/
theorem frames_identityMapped {env : BootEnv} {W : Nat → Prop} (hW : LowFrames W)
    (hoom : (env.onBus .phys).boot.mach.oom = false)
    (hdrawn : ∀ f, avail (env.onBus .phys).start.frames f →
      ¬ avail (env.onBus .phys).boot.mach.frames f → W f)
    {k : Kernel Pmm} (hk : env.Reaches (DrawsWithin W) k) :
    k.mach.stray = false ∧ k.mach.Window W ∧ (∀ t, k.mach.IsTable t → W t)
      ∧ ∀ virt, (∀ t, W t → pageOf t ≠ pageOf virt) →
        (vmmUnmapPage virt k.mach).2.stray = false := by
  have hinv := hk.windowedTwin hW hoom hdrawn
  exact ⟨hinv.1, hinv.2.window, hinv.2.tables, fun virt hvirt => hinv.unmap hvirt⟩

theorem lowFrames_smallBoot : LowFrames (avail smallBoot.start.frames) := by
  intro t ht
  obtain ⟨i, hi, rfl⟩ := List.mem_map.mp (avail_smallBoot ht)
  have hlt := List.mem_range.mp hi
  omega

theorem windowed_smallBoot :
    Windowed (avail smallBoot.start.frames) (avail smallBoot.start.frames) smallBoot.boot :=
  BootEnv.boot_windowed lowFrames_smallBoot rfl oom_smallBoot fun f hf _ => hf

/-- Starting a program with 100 frames above the kernel. -/
theorem frames_identityMapped_small :
    ∃ k, (smallBoot.onBus .mmu).Reaches (DrawsWithin (avail smallBoot.start.frames)) k
      ∧ k.mach = (usermodeExecElf onePageImage (smallBoot.onBus .mmu).boot.mach).2
      ∧ k.mach.stray = false := by
  have hphys : (smallBoot.onBus .mmu).onBus .phys = smallBoot := rfl
  have hoom := oom_smallBoot
  have hboot := windowed_smallBoot
  have htwin := (BootEnv.boot_windowedTwin hboot .mmu).1
  have hrun := BootEnv.Reaches.boot (smallBoot.onBus .mmu)
    (DrawsWithin (avail smallBoot.start.frames))
  have hload : KernelStep (smallBoot.onBus .mmu).boot (.usermode onePageImage) _ := .usermode
  have hstep : (smallBoot.onBus .mmu).Reaches (DrawsWithin (avail smallBoot.start.frames)) _ :=
    hrun.next hload fun n hn => ?_
  · refine ⟨_, hstep, Kernel.mach_withMach _ _, ?_⟩
    refine (frames_identityMapped lowFrames_smallBoot ?_ ?_ hstep).1
    · rw [hphys]
      exact hoom
    · rw [hphys]
      exact fun f hf _ => hf
  · generalize (smallBoot.onBus .mmu).boot = k at htwin hn
    refine ⟨trivial, fun f hf _ => htwin.2.rooted.isolated.origin f hf, fun t ht => ?_⟩
    have hlow := (lowFrames_smallBoot t ht).2.1
    rintro (hcov | ⟨j, hj, hp⟩)
    · have hpage := covers_onePageImage hcov
      simp only [pageOf] at hpage
      omega
    · simp only [stackPages, userStackVaddr, pageOf] at hj hp
      omega

/-! ## The next frames -/

/-- The frames below the heap. -/
def belowHeap (t : Nat) : Prop := t % 4096 = 0 ∧ t < kheapStart

/-- The next `m` frames of the allocator are in `W`. -/
def NextIn (W : Nat → Prop) (s : Pmm) (m : Nat) : Prop :=
  ∀ j, j ≤ m → ∀ f, avail s f → ¬ avail (advance s j) f → W f

theorem NextIn.mono {W : Nat → Prop} {s : Pmm} {m l : Nat} (h : NextIn W s m) (hl : l ≤ m) :
    NextIn W s l := fun j hj => h j (Nat.le_trans hj hl)

theorem NextIn.advance {W : Nat → Prop} {s : Pmm} {m j l : Nat} (h : NextIn W s m)
    (hl : j + l ≤ m) : NextIn W (advance s j) l := by
  intro i hi f hf htaken
  refine h (j + i) (by omega) f (avail_of_advance hf) ?_
  rw [advance_add]
  exact htaken

section

variable {σ : Type} [FrameSource σ] {M : Mach σ} {img : Image} {f : Nat}

/-- The machine has made an access to a page that is not mapped. -/
def Mach.Crashed (M : Mach σ) : Prop := M.stray = true ∧ M.fault = true

omit [FrameSource σ] in
theorem Keeps.crashed {β : Type} {x : Act σ β} (hfault : Keeps (fun M => M.fault = true) x)
    (hrobust : Robust x) : Keeps Mach.Crashed x := by
  rintro M ⟨hstray, hf⟩
  refine ⟨?_, hfault M hf⟩
  cases hend : (x M).2.stray with
  | true => rfl
  | false =>
      rw [hrobust.sticky M hend] at hstray
      cases hstray

/-- A crash is not forgotten. -/
theorem access_crashed : Access (σ := σ) (Keeps Mach.Crashed) where
  toClosed := closed_keeps _
  load64 a := .crashed (access_fault.load64 a) (.load64 a)
  store64 a v := .crashed (access_fault.store64 a v) (.store64 a v)
  store8 a v := .crashed (access_fault.store8 a v) (.store8 a v)
  leaf _ _ _ _ h := h
  invlpg _ _ h := h
  allocFrame _ h := h
  getPml4 _ h := h
  noteHeapFrame _ _ h := h

omit [FrameSource σ] in
theorem Mach.resolve_unmapped (hbus : M.bus = .mmu) (hf : M.translate f = none) :
    M.resolve f = none := by
  simp only [Mach.resolve, hbus, hf, Option.map_none]

omit [FrameSource σ] in
/-- An access to a page that is not mapped. -/
theorem Mach.touch_unmapped (hbus : M.bus = .mmu) (hf : M.translate f = none) :
    (M.touch f).Crashed := by
  have hid : M.identity f = false := by simp only [Mach.identity, hf]
  simp only [Mach.Crashed, Mach.touch, hid, M.resolve_unmapped hbus hf]
  simp

omit [FrameSource σ] in
theorem Mach.store8_unmapped (hbus : M.bus = .mmu) (hf : M.translate f = none) (v : UInt8) :
    (M.store8 f v).Crashed := by
  rw [Mach.store8, M.resolve_unmapped hbus hf]
  exact Mach.touch_unmapped hbus hf

omit [FrameSource σ] in
theorem Mach.store64_unmapped (hbus : M.bus = .mmu) (hf : M.translate f = none) (v : Nat) :
    (M.store64 f v).Crashed := by
  rw [Mach.store64, M.resolve_unmapped hbus hf]
  exact Mach.touch_unmapped hbus hf

omit [FrameSource σ] in
/-- A loop whose first store is to a page that is not mapped. -/
theorem forLoop_unmapped {n : Nat} (hn : 0 < n) {body : Nat → Act σ Unit}
    (hbody : ∀ i, Keeps Mach.Crashed (body i)) (hfirst : (body 0 M).2.Crashed) :
    (forLoop n body M).2.Crashed := by
  refine (forLoop_induct (n := n) body (M := M)
    (Q := fun i N => (i = 0 → N = M) ∧ (0 < i → N.Crashed))
    ⟨fun _ => rfl, fun h => absurd h (Nat.lt_irrefl 0)⟩ ?_).2 hn
  rintro i N - ⟨hstart, hrest⟩
  refine ⟨fun h => absurd h (Nat.succ_ne_zero i), fun _ => ?_⟩
  cases i with
  | zero =>
      rw [hstart rfl]
      exact hfirst
  | succ i => exact hbody _ N (hrest (Nat.succ_pos i))

/-- Zeroing a frame that is not mapped. -/
theorem zeroFrame_unmapped (hbus : M.bus = .mmu) (hf : M.translate f = none) :
    (zeroFrame f M).2.Crashed :=
  forLoop_unmapped (by decide) (fun _ => access_crashed.store8 _ _)
    (Mach.store8_unmapped hbus hf 0)

/-- Loading a page crashes when the next frame is not mapped. -/
theorem loadPages_unmapped (hbus : M.bus = .mmu) (h0 : (allocFrame M).1 ≠ 0)
    (hf : M.translate (allocFrame M).1 = none) (img : Image) (ph : Phdr) (n page : Nat) :
    (loadPages img ph (n + 1) page M).2.Crashed := by
  have hzero : (zeroFrame (allocFrame M).1 (allocFrame M).2).2.Crashed := zeroFrame_unmapped hbus hf
  rw [loadPages, Act.bind_apply, if_neg h0, Act.bind_apply]
  have hrest : Keeps (σ := σ) Mach.Crashed (copyData img ph page (allocFrame M).1 >>= fun _ =>
      vmmMapPage page (allocFrame M).1 ph.pageFlags >>= fun _ => event (.invlpg page) >>= fun _ =>
        loadPages img ph n (page + 4096)) :=
    access_crashed.bind (access_crashed.copyData img ph page _) fun _ =>
      access_crashed.bind (access_crashed.vmmMapPage page _ _) fun _ =>
        access_crashed.bind (access_crashed.invlpg page) fun _ =>
          access_crashed.loadPages img ph n _
  exact hrest _ hzero

/-- So does loading an image that has a page. -/
theorem elfLoad_unmapped (hbus : M.bus = .mmu) (h0 : (allocFrame M).1 ≠ 0)
    (hf : M.translate (allocFrame M).1 = none) (hacc : img.accepted = true) {i : Nat}
    (hi : img.Seg i) (hpages : 0 < (img.phdr i).pageCount) : (elfLoad img M).2.Crashed :=
  elfLoad_first (access_crashed.loadPages img) (loadPages_unmapped hbus h0 hf img) hacc hi hpages

/-- And starting a program. -/
theorem usermode_unmapped {k : Kernel σ} (hbus : k.mach.bus = .mmu) (h0 : (allocFrame k.mach).1 ≠ 0)
    (hf : k.mach.translate (allocFrame k.mach).1 = none) (hstarts : img.Starts) {i : Nat}
    (hi : img.Seg i) (hpages : 0 < (img.phdr i).pageCount) :
    ∃ k', KernelStep k (.usermode img) k' ∧ k'.mach.Crashed := by
  refine ⟨_, .usermode, ?_⟩
  rw [Kernel.mach_withMach, usermodeExecElf_snd hstarts]
  exact access_crashed.mapStack _ _ _ (elfLoad_unmapped hbus h0 hf hstarts.1 hi hpages)

end

/-- The low frames of a split memory. -/
def lowBlock (n : Nat) (t : Nat) : Prop := t % 4096 = 0 ∧ 0x110000 ≤ t ∧ t < 0x110000 + n * 4096

theorem lowFrames_lowBlock {n : Nat} (hn : n ≤ 0xE0) : LowFrames (lowBlock n) := by
  rintro t ⟨hmod, hlow, hlt⟩
  omega

/-- The frames taken first are low ones. -/
theorem lowBlock_of_taken {s : Pmm} {H : Nat → Prop} {n j f : Nat} (hj : j ≤ n)
    (hfree : ∀ j, j ≤ n → ∀ f, (advance s j).Free f ↔ (0x110 + j ≤ f ∧ f < 0x110 + n) ∨ H f)
    (hf : avail s f) (htaken : ¬ avail (advance s j) f) : lowBlock n f := by
  obtain ⟨g, hg, hne, rfl⟩ := hf
  have hstart := (hfree 0 (Nat.zero_le n) g).mp hg
  have hnot : ¬ ((0x110 + j ≤ g ∧ g < 0x110 + n) ∨ H g) := fun h =>
    htaken ⟨g, (hfree j hj g).mpr h, hne, rfl⟩
  obtain ⟨hlow, hhigh⟩ := hstart.resolve_right fun h => hnot (.inr h)
  refine ⟨Nat.mul_mod_left .., ?_, ?_⟩ <;> omega

/-- What is taken from a split memory first are its low frames. -/
theorem drawn_splitBoot {n j f : Nat} (bus : Bus) (hn : n ≤ 0xE0) (hj : j ≤ n)
    (hf : avail (splitBoot n bus).start.frames f)
    (htaken : ¬ avail (advance (splitBoot n bus).start.frames j) f) : lowBlock n f :=
  lowBlock_of_taken hj (fun _ h => free_splitBoot bus hn h) hf htaken

/-- So it is with 64 MiB in one piece. -/
theorem drawn_roomyBoot {j f : Nat} (hj : j ≤ 0xE0) (hf : avail roomyBoot.start.frames f)
    (htaken : ¬ avail (advance roomyBoot.start.frames j) f) : lowBlock 0xE0 f := by
  refine lowBlock_of_taken (H := fun f => 0x1F0 ≤ f ∧ f < 0x4110) hj (fun i hi g => ?_) hf htaken
  rw [free_roomyBoot (Nat.le_trans hi (by decide)) g]
  omega

/-- The next frame is the one at 16 MiB, where nothing is mapped. -/
structure AtEdge (M : Mach Pmm) : Prop where
  bus : M.bus = .mmu
  fault : M.fault = false
  oom : M.oom = false
  next : (allocFrame M).1 = 0x1000000
  unmapped : M.translate 0x1000000 = none
  plenty : Plenty M.frames 0x100

theorem AtEdge.next_ne_zero {M : Mach Pmm} (h : AtEdge M) : (allocFrame M).1 ≠ 0 := by
  rw [h.next]
  decide

theorem AtEdge.next_unmapped {M : Mach Pmm} (h : AtEdge M) :
    M.translate (allocFrame M).1 = none := by
  rw [h.next]
  exact h.unmapped

/-- Boot with low frames is in order, and the frame at 16 MiB is not mapped. -/
theorem boot_splitBoot {n : Nat} (bus : Bus) (h21 : 21 ≤ n) (hn : n ≤ 0xE0) :
    WindowedTwin (avail (splitBoot n .phys).start.frames) (lowBlock n) (splitBoot n bus).boot
      ∧ (splitBoot n bus).boot.mach.bus = bus ∧ (splitBoot n bus).boot.mach.fault = false
      ∧ (splitBoot n bus).boot.mach.oom = false
      ∧ (splitBoot n bus).boot.mach.frames = advance (splitBoot n .phys).start.frames 21
      ∧ (splitBoot n bus).boot.mach.translate 0x1000000 = none := by
  obtain ⟨hframes, hoom, -⟩ := (splitBoot n .phys).boot_enough rfl
    ((plenty_splitBoot .phys hn).mono h21)
  have hwin := BootEnv.boot_windowed (lowFrames_lowBlock hn) rfl hoom fun f hf htaken =>
    drawn_splitBoot .phys hn h21 hf (hframes ▸ htaken)
  have hfault : (splitBoot n .phys).boot.mach.fault = false := BootEnv.boot_fault rfl
  have hroot := (splitBoot n .phys).root_ne_zero hoom
  have htables := (BootEnv.boot_tables rfl hroot).2.1 0x1000000 (by decide)
  have htrans := hwin.rooted.translate 0x1000000
  rw [htables] at htrans
  have hself : (splitBoot n .phys).onBus bus = splitBoot n bus := rfl
  obtain ⟨htwin, hmach⟩ := BootEnv.boot_windowedTwin hwin bus
  rw [hself] at htwin hmach
  rw [hmach]
  generalize (splitBoot n .phys).boot.mach = M at hframes hoom htrans hfault
  exact ⟨htwin, rfl, hfault, hoom, hframes, htrans⟩

/-- Boot takes 21 frames.  Is that all there is below 16 MiB, the next one is there. -/
theorem atEdge_splitBoot {n : Nat} (hn : n = 21) :
    (splitBoot n .mmu).boot.mach.stray = false ∧ AtEdge (splitBoot n .mmu).boot.mach := by
  obtain ⟨htwin, hbus, hfault, hoom, hframes, htrans⟩ :=
    boot_splitBoot .mmu (by omega : 21 ≤ n) (by omega)
  have halloc := alloc_splitBoot .phys (n := n) (by omega)
  have hplenty := plenty_high_splitBoot .phys (n := n) (by omega)
  rw [show advance (splitBoot n .phys).start.frames n
    = advance (splitBoot n .phys).start.frames 21 by rw [hn], ← hframes] at halloc hplenty
  have hcalm := htwin.1
  generalize (splitBoot n .mmu).boot.mach = M at hcalm hbus hfault hoom htrans halloc hplenty
  exact ⟨hcalm, hbus, hfault, hoom, halloc, htrans, hplenty⟩

/-- Then the first page that a program asks for gets a frame that the active tables do not
map, and the kernel writes to it. -/
theorem usermode_splitBoot {n : Nat} (hn : n = 21) {img : Image} (hstarts : img.Starts) {i : Nat}
    (hi : img.Seg i) (hpages : 0 < (img.phdr i).pageCount) :
    (splitBoot n .mmu).boot.mach.stray = false
      ∧ (allocFrame (splitBoot n .mmu).boot.mach).1 = 0x1000000
      ∧ (splitBoot n .mmu).boot.mach.translate 0x1000000 = none
      ∧ ∃ k, (splitBoot n .mmu).Reaches anyStep k
        ∧ KernelStep (splitBoot n .mmu).boot (.usermode img) k
        ∧ k.mach.stray = true ∧ k.mach.fault = true := by
  obtain ⟨hcalm, hedge⟩ := atEdge_splitBoot hn
  have hrun := BootEnv.Reaches.boot (splitBoot n .mmu) anyStep
  obtain ⟨k', hstep, hcrash⟩ := usermode_unmapped hedge.bus hedge.next_ne_zero hedge.next_unmapped
    hstarts hi hpages
  exact ⟨hcalm, hedge.next, hedge.unmapped, k', hrun.next hstep trivial, hstep, hcrash⟩

/-- A memory map with which starting a program strays. -/
theorem stray_of_high_frame :
    (splitBoot 21 .mmu).boot.mach.stray = false
      ∧ (allocFrame (splitBoot 21 .mmu).boot.mach).1 = 0x1000000
      ∧ (splitBoot 21 .mmu).boot.mach.translate 0x1000000 = none
      ∧ ∃ k, (splitBoot 21 .mmu).Reaches anyStep k
        ∧ KernelStep (splitBoot 21 .mmu).boot (.usermode onePageImage) k
        ∧ k.mach.stray = true ∧ k.mach.fault = true :=
  usermode_splitBoot rfl starts_onePageImage (i := 0) ⟨by decide, by decide⟩ (by decide +kernel)

end TunaOs
