import TunaOs.Elf.Supply
import TunaOs.Kernel.Identity

/-!
# How many frames programs take

A page of a program or of a stack takes a frame, and one for each table that is not
there yet (`pagesCost`).  `LowRun` is the state of a run in a split memory that has taken
so many of the low frames: no access has strayed so far, and the tables are known, so that the
next frame is known too.
-/

namespace TunaOs

open Word

open FrameSource (avail)

/-! ## Pages in a row -/

/-- The frames that mapping `n` pages from `page` on takes, if only the tables for `vs` are
there. -/
def runCost (vs : List Nat) (n page : Nat) : Nat := pagesCost (fun _ => false) vs (pageRun n page)

/-- The addresses whose tables are there afterwards. -/
def runDone (vs : List Nat) (n page : Nat) : List Nat := pagesDone vs (pageRun n page)

section

variable {σ : Type} [FrameSource σ] {s : σ} {T : List (Fin 512) → Bool}

/-- The loop that maps a stack. -/
theorem Counted.mapStack : ∀ (n vaddr : Nat) {c : Nat} {vs : List Nat} {M : Mach σ},
    Counted s T c vs M →
    Supplied s T (c + pagesCost T vs (pageRun n vaddr)) (pagesDone vs (pageRun n vaddr))
      (mapStack n vaddr M).2
  | 0, _, _, _, _, h => ⟨fun _ => h, fun hno => absurd h.plenty hno⟩
  | n + 1, vaddr, c, vs, M, h => by
      rw [pageRun, pagesCost, pagesDone, TunaOs.mapStack, Act.bind_apply]
      obtain ⟨hmem, ⟨h0, -⟩ | ⟨h0, hhand⟩⟩ := allocFrame_spec (fun _ => True) h.inv
      · rw [if_pos h0, Nat.add_assoc 1]
        exact h.none h0 (allocFrame_oom h0)
      · rw [if_neg h0, Act.bind_apply, ← Nat.add_assoc]
        generalize hM₁ : (vmmMapPage vaddr (allocFrame M).1 stackFlags (allocFrame M).2).2 = M₁
        have hmap := h.map h0 hhand rfl (fun x _ => congrFun hmem x) (by decide) hM₁
        exact hmap.bind (primitive_oom.mapStack n (vaddr + 4096) M₁) fun h =>
          h.mapStack n (vaddr + 4096)

end

/-! ## Runs in a split memory -/

/-- A program of one segment, which has one page at `0x400000`. -/
structure Image.Small (img : Image) : Prop where
  starts : img.Starts
  phnum : img.phnum = 1
  type : (img.phdr 0).type = ptLoad
  count : (img.phdr 0).pageCount = 1
  page : (img.phdr 0).vaddrStart = 0x400000

theorem small_onePageImage : onePageImage.Small :=
  ⟨starts_onePageImage, phnum_onePageImage, by decide +kernel, by decide +kernel, by decide +kernel⟩

theorem Image.Small.seg {img : Image} (h : img.Small) : img.Seg 0 :=
  ⟨by rw [h.phnum]; exact Nat.one_pos, h.type⟩

theorem Image.Small.covers {img : Image} (h : img.Small) {n : Nat} (hn : img.Covers n) :
    n = 0x400 := hn.onePage h.phnum h.count h.page

/-- Loading it is loading its page. -/
theorem Image.Small.elfLoad {σ : Type} [FrameSource σ] {img : Image} (h : img.Small) (M : Mach σ) :
    (elfLoad img M).2 = (loadPages img (img.phdr 0) 1 0x400000 M).2 := by
  rw [elfLoad_accepted h.starts.1, h.phnum, forLoop_succ, Act.bind_apply]
  simp only [h.type, ne_eq, not_true_eq_false, if_false, loadSegment, h.count, h.page]
  rfl

/-- A kernel on the bus `phys` in a split memory with `n` low frames, `j` of which are taken. -/
structure LowRun (n j : Nat) (vs : List Nat) (k : Kernel Pmm) : Prop where
  windowed : Windowed (avail (splitBoot n .phys).start.frames) (lowBlock n) k
  counted : Counted (splitBoot n .phys).start.frames (fun _ => false) j vs k.mach
  fault : k.mach.fault = false
  high : k.mach.leaf 0x1000000 = 0

theorem lowRun_boot {n : Nat} (h21 : 21 ≤ n) (hn : n ≤ 0xE0) :
    LowRun n 21 [0, 0x200000] (splitBoot n .phys).boot := by
  obtain ⟨hframes, hoom, hhas⟩ := (splitBoot n .phys).boot_enough rfl
    ((plenty_splitBoot .phys hn).mono h21)
  have hwin := BootEnv.boot_windowed (lowFrames_lowBlock hn) rfl hoom fun f hf htaken =>
    drawn_splitBoot .phys hn h21 hf (hframes ▸ htaken)
  have hroot := (splitBoot n .phys).root_ne_zero hoom
  have hhigh := (BootEnv.boot_tables rfl hroot).2.1 0x1000000 (by decide)
  refine ⟨hwin, ⟨hwin.rooted.isolated.inv, (plenty_splitBoot .phys hn).mono h21, hframes, hoom,
    fun q hq => ?_⟩, BootEnv.boot_fault rfl, hhigh⟩
  rw [hhas q hq]
  simp

/-- Files and the shell's image do not matter. -/
theorem LowRun.withServices {n j : Nat} {vs : List Nat} {k : Kernel Pmm} (h : LowRun n j vs k)
    (S : Services) : LowRun n j vs (k.withServices S) :=
  ⟨⟨h.windowed.rooted, h.windowed.limits, h.windowed.tables, h.windowed.window, h.windowed.calm⟩,
    h.counted, h.fault, h.high⟩

/-- Mapping pages with low frames. -/
theorem LowRun.grow {n j j' : Nat} {vs vs' : List Nat} {k k' : Kernel Pmm} {P : Nat → Prop}
    (h : LowRun n j vs k) (hn : n ≤ 0xE0) (hj : j' ≤ n) (hle : j ≤ j')
    (hend : k'.heap.heapEnd = k.heap.heapEnd)
    (hrooted : Rooted (avail (splitBoot n .phys).start.frames) k'.mach)
    (hfault : k'.mach.fault = false) (hg : Grows P k.mach k'.mach)
    (hcounted : Counted (splitBoot n .phys).start.frames (fun _ => false) j' vs' k'.mach)
    (hP : ∀ m, P m → 0x400 ≤ m ∧ m < 0x1000) : LowRun n j' vs' k' := by
  have hspared : ∀ t, lowBlock n t → ¬ P (pageOf t) := by
    rintro t ⟨-, hlow, hlt⟩ hp
    have := (hP _ hp).1
    simp only [pageOf] at this
    omega
  have hdrawn : ∀ f, avail k.mach.frames f → ¬ avail k'.mach.frames f → lowBlock n f := by
    rw [h.counted.frames, hcounted.frames]
    rintro f ⟨g, hg, hne, rfl⟩ htaken
    refine drawn_splitBoot .phys hn hj ⟨g, ?_, hne, rfl⟩ htaken
    have hfree := (free_splitBoot .phys hn (by omega) g).mp hg
    exact (free_splitBoot .phys hn (Nat.zero_le n) g).mpr (by omega)
  refine ⟨h.windowed.grow hrooted (hend ▸ h.windowed.limits) hg hdrawn hspared, hcounted,
    hfault, ?_⟩
  rw [hg.leaf 0x1000000 fun hp => ?_, h.high]
  have := (hP _ hp).2
  simp only [pageOf] at this
  omega

/-- Loading a small program. -/
theorem LowRun.load {n j j' : Nat} {vs : List Nat} {k k' : Kernel Pmm} (h : LowRun n j vs k)
    (hn : n ≤ 0xE0) (hj : j' ≤ n) {img : Image} (himg : img.Small)
    (hmach : k'.mach = (elfLoad img k.mach).2) (hend : k'.heap.heapEnd = k.heap.heapEnd)
    (hcost : j + runCost vs 1 0x400000 = j') :
    LowRun n j' (0x400000 :: vs) k' ∧ Loaded img k'.mach := by
  have hinv := h.windowed.rooted.isolated.inv
  have hcounted : Counted (splitBoot n .phys).start.frames (fun _ => false) j' (0x400000 :: vs)
      k'.mach := by
    rw [hmach, himg.elfLoad, ← hcost]
    exact (Counted.loadPages img _ 1 0x400000 h.counted (by decide) (by decide)).enough
      ((plenty_splitBoot .phys hn).mono (by rw [← hcost, runCost] at hj; exact hj))
  obtain ⟨-, hg, -⟩ := Maps.elfLoad img k.mach hinv
  have hrooted := rooted_kept.elfLoad img k.mach h.windowed.rooted
  have hfault := primitive_faultless.elfLoad img k.mach ⟨hinv.bus, h.fault⟩
  rw [← hmach] at hg hrooted hfault
  refine ⟨h.grow hn hj (by omega) hend hrooted hfault.2 hg hcounted fun m hm => ?_,
    (elfLoad_spec img hinv hmach.symm).2.2.2 hcounted.oom himg.starts.1⟩
  rw [himg.covers hm]
  decide

/-- Mapping a stack above it. -/
theorem LowRun.stack {n j j' stack : Nat} {vs vs' : List Nat} {k k' : Kernel Pmm}
    (h : LowRun n j vs k) (hn : n ≤ 0xE0) (hj : j' ≤ n)
    (hmach : k'.mach = (mapStack stackPages stack k.mach).2)
    (hend : k'.heap.heapEnd = k.heap.heapEnd)
    (hstack : ∀ m, StackPage stack m → 0x401 ≤ m ∧ m < 0x1000)
    (hcost : j + runCost vs stackPages stack = j') (hvs : runDone vs stackPages stack = vs') :
    LowRun n j' vs' k' ∧ ∀ img : Image, img.Small → Loaded img k.mach → Loaded img k'.mach := by
  have hinv := h.windowed.rooted.isolated.inv
  have hcounted := (Counted.mapStack stackPages stack h.counted).enough
    ((plenty_splitBoot .phys hn).mono (by rw [← hcost, runCost] at hj; exact hj))
  obtain ⟨-, hg, -⟩ := Maps.mapStack stack k.mach hinv
  have hrooted := rooted_kept.mapStack stackPages stack k.mach h.windowed.rooted
  have hfault := primitive_faultless.mapStack stackPages stack k.mach ⟨hinv.bus, h.fault⟩
  rw [← runCost, ← runDone, hcost, hvs, ← hmach] at hcounted
  rw [← hmach] at hg hrooted hfault
  refine ⟨h.grow hn hj (by omega) hend hrooted hfault.2 hg hcounted fun m hm => ?_,
    fun img himg hload => hload.grow hg fun m hm hst => ?_⟩
  · have := hstack m hm
    omega
  · have := hstack m hst
    rw [himg.covers hm] at this
    omega

/-- Starting a small program: it is loaded, and its stack is mapped. -/
theorem LowRun.start {n j j' stack : Nat} {vs vs' : List Nat} {k k' : Kernel Pmm}
    (h : LowRun n j vs k) (hn : n ≤ 0xE0) (hj : j' ≤ n) {img : Image} (himg : img.Small)
    (hmach : k'.mach = (mapStack stackPages stack (elfLoad img k.mach).2).2)
    (hend : k'.heap.heapEnd = k.heap.heapEnd)
    (hstack : ∀ m, StackPage stack m → 0x401 ≤ m ∧ m < 0x1000)
    (hcost : j + runCost vs 1 0x400000 + runCost (0x400000 :: vs) stackPages stack = j')
    (hvs : runDone (0x400000 :: vs) stackPages stack = vs') :
    LowRun n j' vs' k' ∧ Loaded img k'.mach := by
  obtain ⟨hlow, hload⟩ := h.load hn (by omega : j + runCost vs 1 0x400000 ≤ n)
    himg (Kernel.mach_withMach k (elfLoad img k.mach).2) rfl rfl
  obtain ⟨hlow', hkept⟩ := hlow.stack hn hj hmach hend hstack hcost hvs
  exact ⟨hlow', hkept img himg hload⟩

/-- When all low frames are taken the next one is at 16 MiB. -/
theorem LowRun.atEdge {n : Nat} {vs : List Nat} {k : Kernel Pmm} (h : LowRun n n vs k)
    (hn : n ≤ 0xE0) : AtEdge (k.mach.withBus .mmu) := by
  have halloc := alloc_splitBoot .phys hn
  have hplenty := plenty_high_splitBoot .phys hn
  have htrans := h.windowed.rooted.translate 0x1000000
  rw [h.high] at htrans
  rw [← h.counted.frames] at halloc hplenty
  exact ⟨rfl, h.fault, h.counted.oom, halloc, htrans, hplenty⟩

end TunaOs
