import Mathlib.Algebra.BigOperators.Group.Finset.Basic
import TunaOs.Elf.Reads
import TunaOs.Kernel.Confined
import TunaOs.Kernel.RoundTrip
import TunaOs.Pmm.Counters

/-!
# How many programs memory is enough for

No part of the kernel gives a frame back, neither the exit of a program nor the reload of the
shell.  A `Ledger` keeps count along a run: the programs that were started, and the pages that
the loader was asked to load.  `KernelStep.spent` says what one step takes, by any count of
the free frames that `pmm_alloc_frame` lowers, and `programs_bounded` what is left of the memory
map after a run.
-/

namespace TunaOs

open Run (Reachable)

/-! ## Counts of free frames -/

section

variable {σ : Type} [FrameSource σ] {μ : σ → Nat}

/-- `μ` counts the frames that are left. -/
structure CountsFrames (μ : σ → Nat) : Prop where
  le : ∀ s, μ (FrameSource.alloc s).1 ≤ μ s
  lt : ∀ s, (FrameSource.alloc s).2 ≠ 0 → μ (FrameSource.alloc s).1 + 1 ≤ μ s

theorem CountsFrames.primitive (hμ : CountsFrames μ) (n : Nat) :
    Primitive (σ := σ) (Keeps fun M => μ M.frames ≤ n) :=
  primitive_frames (I := fun s => μ s ≤ n) fun s h => Nat.le_trans (hμ.le s) h

/-- Free frames do not become more. -/
theorem CountsFrames.kept (hμ : CountsFrames μ) (n : Nat) :
    KeptByParts (σ := σ) fun M => μ M.frames ≤ n := by
  constructor
  case elfLoad => exact (hμ.primitive n).elfLoad
  case mapStack => exact (hμ.primitive n).mapStack
  case loadUser => exact fun _ _ h => h
  case kheapMapPages => exact (hμ.primitive n).kheapMapPages
  case user => exact fun _ _ h _ => h

omit [FrameSource σ] in
/-- What keeps every bound on the count does not raise it. -/
theorem le_of_keeps {β : Type} {x : Act σ β} (h : ∀ n, Keeps (fun M => μ M.frames ≤ n) x)
    (M : Mach σ) : μ (x M).2.frames ≤ μ M.frames := h _ M (Nat.le_refl _)

theorem CountsFrames.allocFrame (hμ : CountsFrames μ) {M : Mach σ} (h : (allocFrame M).1 ≠ 0) :
    μ (TunaOs.allocFrame M).2.frames + 1 ≤ μ M.frames := hμ.lt M.frames h

/-! ## What loading takes -/

/-- A stack takes a frame for each page. -/
theorem CountsFrames.mapStack (hμ : CountsFrames μ) : ∀ (n vaddr : Nat) {M : Mach σ},
    (mapStack n vaddr M).1 = true → μ (TunaOs.mapStack n vaddr M).2.frames + n ≤ μ M.frames
  | 0, _, _, _ => Nat.le_refl _
  | n + 1, vaddr, M, h => by
      simp only [TunaOs.mapStack, Act.bind_apply] at h ⊢
      by_cases h0 : (TunaOs.allocFrame M).1 = 0
      · rw [if_pos h0] at h
        cases h
      · rw [if_neg h0] at h ⊢
        rw [Act.bind_apply] at h ⊢
        calc _ ≤ μ (vmmMapPage vaddr (TunaOs.allocFrame M).1 stackFlags
              (TunaOs.allocFrame M).2).2.frames + 1 :=
              Nat.succ_le_succ (hμ.mapStack n (vaddr + 4096) h)
          _ ≤ μ (TunaOs.allocFrame M).2.frames + 1 :=
              Nat.succ_le_succ (le_of_keeps (fun n => (hμ.primitive n).vmmMapPage _ _ _) _)
          _ ≤ μ M.frames := hμ.allocFrame h0

/-- The loop of `load_segment` takes a frame for each page, if they do not run out. -/
theorem CountsFrames.loadPages (hμ : CountsFrames μ) (img : Image) (ph : Phdr) :
    ∀ (n page : Nat) {M : Mach σ}, (loadPages img ph n page M).2.oom = false →
      μ (TunaOs.loadPages img ph n page M).2.frames + n ≤ μ M.frames
  | 0, _, _, _ => Nat.le_refl _
  | n + 1, page, M, h => by
      simp only [TunaOs.loadPages, Act.bind_apply] at h ⊢
      by_cases h0 : (TunaOs.allocFrame M).1 = 0
      · rw [if_pos h0] at h
        exact absurd ((allocFrame_oom h0).symm.trans h) (by decide)
      · rw [if_neg h0] at h ⊢
        simp only [Act.bind_apply] at h ⊢
        -- nothing between the allocation and the rest of the loop gives frames back
        refine Nat.le_trans (Nat.succ_le_succ (hμ.loadPages img ph n (page + 4096) h))
          (Nat.le_trans (Nat.succ_le_succ ?_) (hμ.allocFrame h0))
        refine Nat.le_trans (le_of_keeps (fun n => (hμ.primitive n).invlpg page) _) ?_
        refine Nat.le_trans (le_of_keeps (fun n => (hμ.primitive n).vmmMapPage _ _ _) _) ?_
        exact Nat.le_trans (le_of_keeps (fun n => (hμ.primitive n).copyData _ _ _ _) _)
          (le_of_keeps (fun n => (hμ.primitive n).zeroFrame _) _)

/-- The pages that `elf_load` loads of an image. -/
def Image.pages (img : Image) : Nat :=
  if img.accepted then
    ∑ i ∈ Finset.range img.phnum, if (img.phdr i).type = ptLoad then (img.phdr i).pageCount else 0
  else 0

theorem CountsFrames.loadHeader (hμ : CountsFrames μ) (img : Image) (i : Nat) {M : Mach σ}
    (h : (loadHeader img i M).2.oom = false) :
    μ (TunaOs.loadHeader img i M).2.frames +
      (if (img.phdr i).type = ptLoad then (img.phdr i).pageCount else 0) ≤ μ M.frames := by
  rw [TunaOs.loadHeader] at h ⊢
  by_cases htype : (img.phdr i).type = ptLoad
  · rw [if_neg (not_not_intro htype)] at h ⊢
    rw [if_pos htype]
    exact hμ.loadPages img _ _ _ h
  · rw [if_pos htype, if_neg htype]
    exact Nat.le_refl _

/-- `elf_load` takes a frame for each page, if they do not run out. -/
theorem CountsFrames.elfLoad (hμ : CountsFrames μ) (img : Image) {M : Mach σ}
    (h : (elfLoad img M).2.oom = false) :
    μ (TunaOs.elfLoad img M).2.frames + img.pages ≤ μ M.frames := by
  by_cases hacc : img.accepted = true
  · have hloop : ∀ n, (forLoop n (TunaOs.loadHeader img) M).2.oom = false →
        μ (forLoop n (TunaOs.loadHeader img) M).2.frames + (∑ i ∈ Finset.range n,
          if (img.phdr i).type = ptLoad then (img.phdr i).pageCount else 0) ≤ μ M.frames := by
      intro n
      induction n with
      | zero => exact fun _ => Nat.le_refl _
      | succ n ih =>
          intro hoom
          rw [forLoop_succ, Act.bind_apply] at hoom ⊢
          have hlast := hμ.loadHeader img n hoom
          have hbefore := ih (loadHeader_oom hoom)
          rw [Finset.sum_range_succ]
          omega
    rw [elfLoad_accepted hacc] at h ⊢
    rw [Image.pages, if_pos hacc]
    exact hloop img.phnum h
  · rw [elfLoad_rejected hacc, Image.pages, if_neg hacc]
    exact Nat.le_refl _

/-- A program takes the frames of its stack, and those of its pages if they do not run out. -/
theorem CountsFrames.program (hμ : CountsFrames μ) (img : Image) {vaddr : Nat} {M M' : Mach σ}
    (hM' : (TunaOs.mapStack stackPages vaddr (TunaOs.elfLoad img M).2).2 = M') :
    ((TunaOs.mapStack stackPages vaddr (TunaOs.elfLoad img M).2).1 = true →
      μ M'.frames + 2 ≤ μ M.frames) ∧
    (M'.oom = false → μ M'.frames + (2 + img.pages) ≤ μ M.frames) := by
  subst hM'
  constructor
  · intro hok
    exact Nat.le_trans (hμ.mapStack _ _ hok)
      (le_of_keeps (fun n => (hμ.primitive n).elfLoad img) M)
  · intro hoom
    have hload : (TunaOs.elfLoad img M).2.oom = false := by
      cases h : (TunaOs.elfLoad img M).2.oom with
      | false => rfl
      | true => exact (primitive_oom.mapStack stackPages vaddr _ h).symm.trans hoom
    have hstack := hμ.mapStack _ _ (mapStack_fst stackPages vaddr hoom)
    have hpages := hμ.elfLoad img hload
    have htwo : stackPages = 2 := rfl
    omega

/-- The ways through `usermode_exec_elf`. -/
theorem usermodeExecElf_cases (img : Image) (M : Mach σ) :
    usermodeExecElf img M = (none, (elfLoad img M).2) ∨
    ∃ M', (mapStack stackPages userStackVaddr (elfLoad img M).2).2 = M' ∧
      (((mapStack stackPages userStackVaddr (elfLoad img M).2).1 = true ∧
          ∃ fr, usermodeExecElf img M = (some fr, M')) ∨
        usermodeExecElf img M = (none, M')) := by
  by_cases hstarts : img.Starts
  · refine Or.inr ⟨_, rfl, ?_⟩
    simp only [usermodeExecElf, Act.bind_apply, if_neg ((elfLoad_fst_ne_zero M).mpr hstarts)]
    cases hok : (mapStack stackPages userStackVaddr (elfLoad img M).2).1 with
    | true => exact Or.inl ⟨rfl, _, rfl⟩
    | false => exact Or.inr rfl
  · have hzero : (elfLoad img M).1 = 0 :=
      Classical.not_not.mp fun h0 => hstarts ((elfLoad_fst_ne_zero M).mp h0)
    refine Or.inl ?_
    simp only [usermodeExecElf, Act.bind_apply, hzero, if_true]
    rfl

/-! ## One step -/

/-- The programs that a step starts. -/
def Kernel.starts (k : Kernel σ) : KernelOp → Nat
  | .usermode img => if (usermodeExecElf img k.mach).1.isSome then 1 else 0
  | .syscall frame input =>
      match (k.syscall frame input).2 with
      | .start _ _ => 1
      | _ => 0
  | _ => 0

/-- The pages that a step loads: those of a program that it starts, or of the shell after the
exit of one. -/
def Kernel.loads (k : Kernel σ) : KernelOp → Nat
  | .usermode img => img.pages
  | .syscall frame input =>
      match (k.syscall frame input).2 with
      | .start _ child => child.pages
      | .ret _ =>
          if frame.rax = sysExit then (k.services.shellElf.map Image.pages).getD 0 else 0
      | _ => 0
  | _ => 0

/-- What a step takes from the free frames. -/
def Kernel.Spent (μ : σ → Nat) (k : Kernel σ) (op : KernelOp) (k' : Kernel σ) : Prop :=
  μ k'.mach.frames + 2 * k.starts op ≤ μ k.mach.frames ∧
    (k'.mach.oom = false →
      μ k'.mach.frames + (2 * k.starts op + k.loads op) ≤ μ k.mach.frames)

theorem CountsFrames.usermode (hμ : CountsFrames μ) (k : Kernel σ) (img : Image) :
    k.Spent μ (.usermode img) (k.withMach (usermodeExecElf img k.mach).2) := by
  rw [Kernel.Spent, Kernel.mach_withMach, Kernel.starts, Kernel.loads]
  rcases usermodeExecElf_cases img k.mach with h | ⟨M', hM', ⟨hok, fr, h⟩ | h⟩
  · rw [h]
    refine ⟨le_of_keeps (fun n => (hμ.primitive n).elfLoad img) k.mach, fun hoom => ?_⟩
    have hpages := hμ.elfLoad img hoom
    simpa using hpages
  · obtain ⟨hstack, hall⟩ := hμ.program img hM'
    rw [h]
    exact ⟨hstack hok, hall⟩
  · obtain ⟨-, hall⟩ := hμ.program img hM'
    rw [h]
    refine ⟨?_, fun hoom => ?_⟩
    · rw [← hM']
      exact Nat.le_trans (le_of_keeps (fun n => (hμ.primitive n).mapStack _ _) _)
        (le_of_keeps (fun n => (hμ.primitive n).elfLoad img) k.mach)
    · have := hall hoom
      simp only [Option.isSome_none, Bool.false_eq_true, if_false]
      omega

theorem CountsFrames.readName (hμ : CountsFrames μ) (M : Mach σ) (frame : InterruptFrame) :
    μ (M.readName frame).frames ≤ μ M.frames := by
  rw [Mach.readName]
  split
  · exact Nat.le_refl _
  · exact le_of_keeps (fun n => (closed_keeps _).loadUserBytes (hμ.kept n).loadUser _ _) M

/-- The reload of the shell. -/
theorem CountsFrames.reloadShell (hμ : CountsFrames μ) (S : Services) {M : Mach σ}
    (h : (reloadShell S M).2.oom = false) :
    μ (TunaOs.reloadShell S M).2.frames + (S.shellElf.map Image.pages).getD 0 ≤ μ M.frames := by
  rw [TunaOs.reloadShell] at h ⊢
  cases himg : S.shellElf with
  | none => exact Nat.le_refl _
  | some img =>
      rw [himg] at h
      exact hμ.elfLoad img h

theorem CountsFrames.syscall (hμ : CountsFrames μ) (k : Kernel σ) (frame : InterruptFrame)
    (input : UInt8) : k.Spent μ (.syscall frame input) (k.syscall frame input).1 := by
  have hstep : KernelStep k (.syscall frame input) (k.syscall frame input).1 := .syscall
  have hle : μ (k.syscall frame input).1.mach.frames ≤ μ k.mach.frames :=
    (hμ.kept _).step (Nat.le_refl _) hstep
  rw [Kernel.Spent, Kernel.starts, Kernel.loads]
  cases hcall : k.syscall frame input with
  | mk k' o =>
      rw [hcall] at hle
      simp only [Kernel.syscall] at hcall
      generalize hr : syscallDispatch k.services frame input k.mach = r at hcall
      obtain ⟨⟨S', o'⟩, M'⟩ := r
      obtain ⟨rfl, rfl⟩ := Prod.mk.inj hcall
      cases o' with
      | ret g =>
          refine ⟨hle, fun hoom => ?_⟩
          by_cases hexit : frame.rax = sysExit
          · cases syscallDispatch_run hr (by rintro ⟨⟩) with
            | exec hrax _ => exact absurd (hrax.symm.trans hexit) (by decide)
            | exit => simpa [hexit] using hμ.reloadShell k.services hoom
            | handler _ _ _ hne => exact absurd hexit hne
          · simpa [hexit] using hle
      | start g child =>
          cases syscallDispatch_run hr (by rintro ⟨⟩) with
          | exec _ hrun =>
              cases hrun with
              | @started f _ _ hstack =>
                  have hread := hμ.readName k.mach frame
                  obtain ⟨htwo, hall⟩ := hμ.program f.image (M := k.mach.readName frame) rfl
                  exact ⟨Nat.le_trans (htwo hstack) hread,
                    fun hoom => Nat.le_trans (hall hoom) hread⟩
      | halt => exact ⟨hle, fun _ => hle⟩
      | fault => exact ⟨hle, fun _ => hle⟩

/-- A step of the kernel takes two frames for each program that it starts and, if they do not
run out, one for each page that it loads. -/
theorem KernelStep.spent (hμ : CountsFrames μ) {k k' : Kernel σ} {op : KernelOp}
    (hs : KernelStep k op k') : k.Spent μ op k' := by
  have hle : μ k'.mach.frames ≤ μ k.mach.frames := (hμ.kept _).step (Nat.le_refl _) hs
  cases hs with
  | usermode => exact hμ.usermode k _
  | syscall => exact hμ.syscall k _ _
  | kmalloc hm => exact ⟨hle, fun _ => hle⟩
  | kfree hf => exact ⟨hle, fun _ => hle⟩
  | heapMem => exact ⟨hle, fun _ => hle⟩
  | addFile => exact ⟨hle, fun _ => hle⟩
  | setShellElf => exact ⟨hle, fun _ => hle⟩
  | user hm => exact ⟨hle, fun _ => hle⟩

end

/-! ## The count of the bitmap -/

/-- `pmm_alloc_frame` clears no bit, and sets one if it returns a frame. -/
theorem countsFrames_zeros : CountsFrames Pmm.zeros := by
  have hsome : ∀ {s : Pmm} {f : Nat}, s.Free f → (bitmapSet s f).usedInc.zeros + 1 = s.zeros := by
    intro s f hf
    have hones : (bitmapSet s f).usedInc.ones = s.ones + 1 := ones_bitmapSet hf
    have hsum := s.ones_add_zeros
    have hsum' := (bitmapSet s f).usedInc.ones_add_zeros
    omega
  constructor
  case le =>
    intro s
    change (pmmAllocFrame s).1.zeros ≤ s.zeros
    rcases pmmAllocFrame_cases s with ⟨h, -⟩ | ⟨f, hf, -, h⟩
    · rw [h]
    · rw [h]
      exact Nat.le_of_succ_le (Nat.le_of_eq (hsome hf))
  case lt =>
    intro s hne
    change (pmmAllocFrame s).2 ≠ 0 at hne
    change (pmmAllocFrame s).1.zeros + 1 ≤ s.zeros
    rcases pmmAllocFrame_cases s with ⟨h, -⟩ | ⟨f, hf, -, h⟩
    · rw [h] at hne
      exact absurd rfl hne
    · rw [h]
      exact Nat.le_of_eq (hsome hf)

/-- The frames that the memory map has for use. -/
def BootEnv.usable (env : BootEnv) : Nat := Nat.count (Usable env.image env.regions) 32768

/-- They are free at the start. -/
theorem BootEnv.zeros_start (env : BootEnv) : env.start.frames.zeros = env.usable := by
  refine Bitmap.count_congr fun f hf => ?_
  rw [← free_pmmInit_iff env.image env.regions env.pmm f]
  exact ⟨fun h => ⟨hf, h⟩, fun h => h.2⟩

theorem BootEnv.zeros_boot (env : BootEnv) : env.boot.mach.frames.zeros ≤ env.usable := by
  have hparts := countsFrames_zeros.primitive env.usable
  rw [env.boot_mach]
  exact hparts.kheapMapPages _ _ _ (hparts.vmmInit _ (Nat.le_of_eq env.zeros_start))

/-! ## Runs -/

/-- The kernel with what it has done. -/
structure Ledger where
  kernel : Kernel Pmm
  /-- The programs that were started. -/
  programs : Nat
  /-- The pages that were loaded. -/
  pages : Nat

/-- A step, entered into the books. -/
def LedgerStep (l l' : Ledger) : Prop :=
  ∃ op, KernelStep l.kernel op l'.kernel ∧ l'.programs = l.programs + l.kernel.starts op ∧
    l'.pages = l.pages + l.kernel.loads op

theorem LedgerStep.of {k k' : Kernel Pmm} {op : KernelOp} (n p : Nat) (h : KernelStep k op k') :
    LedgerStep ⟨k, n, p⟩ ⟨k', n + k.starts op, p + k.loads op⟩ := ⟨op, h, rfl, rfl⟩

/-- The books of a run from boot. -/
def BootEnv.Books (env : BootEnv) : Ledger → Prop :=
  Reachable (fun l => l = ⟨env.boot, 0, 0⟩) LedgerStep

/-- The books after the first program. -/
theorem BootEnv.books_first {env : BootEnv} {op : KernelOp} {k : Kernel Pmm}
    (hs : KernelStep env.boot op k) (hone : env.boot.starts op = 1) :
    ∃ l, env.Books l ∧ l.kernel = k ∧ l.programs = 1 :=
  ⟨_, .step (.init rfl) (.of 0 0 hs), rfl, (Nat.zero_add _).trans hone⟩

/-- Along every run, whatever programs do, the frames of the memory map bound the number of
programs that are ever started: two frames are gone for good with each of them, and, as long as
frames have not run out, one with each page that was loaded for them or for the shell. -/
theorem programs_bounded {env : BootEnv} {l : Ledger} (h : env.Books l) :
    l.kernel.mach.frames.zeros + 2 * l.programs ≤ env.usable ∧
      (l.kernel.mach.oom = false →
        l.kernel.mach.frames.zeros + (2 * l.programs + l.pages) ≤ env.usable) := by
  refine h.invariant (P := fun l => l.kernel.mach.frames.zeros + 2 * l.programs ≤ env.usable ∧
    (l.kernel.mach.oom = false →
      l.kernel.mach.frames.zeros + (2 * l.programs + l.pages) ≤ env.usable)) ?_ ?_
  · rintro l rfl
    exact ⟨Nat.le_trans (Nat.le_of_eq (Nat.add_zero _)) env.zeros_boot,
      fun _ => Nat.le_trans (Nat.le_of_eq (Nat.add_zero _)) env.zeros_boot⟩
  · rintro l l' ⟨hprograms, hpages⟩ ⟨op, hs, hl, hl'⟩
    obtain ⟨hspent, hall⟩ := hs.spent countsFrames_zeros
    refine ⟨?_, fun hoom => ?_⟩
    · omega
    · have := hpages (hs.oom hoom)
      have := hall hoom
      omega

/-- One program has been started. -/
theorem programs_bounded_one : ∃ l, roomyBoot.Books l ∧ l.kernel = runningBoot ∧ l.programs = 1 ∧
    l.kernel.mach.frames.zeros + 2 * l.programs ≤ roomyBoot.usable := by
  have hstep : KernelStep roomyBoot.boot (.usermode onePageImage) runningBoot := .usermode
  have hone : roomyBoot.boot.starts (.usermode onePageImage) = 1 := by
    rw [Kernel.starts, usermodeExecElf_runningBoot]
    rfl
  obtain ⟨l, hbooks, hkernel, hprograms⟩ := BootEnv.books_first hstep hone
  exact ⟨l, hbooks, hkernel, hprograms, (programs_bounded hbooks).1⟩

end TunaOs
