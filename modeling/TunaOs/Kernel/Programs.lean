import TunaOs.Kernel.Calls
import TunaOs.Kernel.Windows

/-!
# Programs that run

What a program finds when it is started: its pages have the rights and the bytes of the
image (`Loaded.page`), and starting it raises no exception on the bus `phys`.  If frames
do not run out the stack loop succeeds, so `SYS_EXEC` of a file that can be started
starts it.

The sample program has one page at `0x400000`, which begins with the ELF header, so the
first byte of the header can serve as the name of a file.
-/

namespace TunaOs

open Word

open FrameSource (avail)

section

variable {σ : Type} [FrameSource σ] {A : Nat → Prop} {M M' : Mach σ} {a : Nat}

/-! ## Exceptions -/

omit [FrameSource σ] in
theorem Mach.touch_fault (M : Mach σ) (a : Nat) (h : M.fault = true) :
    (M.touch a).fault = true := by
  simp only [Mach.touch, h, Bool.true_or]

/-- An exception is not forgotten. -/
theorem access_fault : Access (σ := σ) (Keeps fun M => M.fault = true) where
  toClosed := closed_keeps _
  load64 a M h := M.touch_fault a h
  store64 a v M h := by
    change (M.store64 a v).fault = true
    unfold Mach.store64
    split <;> exact M.touch_fault a h
  store8 a v M h := by
    change (M.store8 a v).fault = true
    unfold Mach.store8
    split <;> exact M.touch_fault a h
  leaf _ _ _ _ h := h
  invlpg _ _ h := h
  allocFrame _ h := h
  getPml4 _ h := h
  noteHeapFrame _ _ h := h

/-- On the bus `phys` the kernel's own accesses raise no exception. -/
theorem primitive_faultless :
    Primitive (σ := σ) (Keeps fun M => M.bus = .phys ∧ M.fault = false) where
  toClosed := closed_keeps _
  load64 a M h := by
    refine ⟨h.1, ?_⟩
    simp only [load64, Mach.touch, Mach.resolve, h.1, h.2]
    rfl
  store64 a v M h := by
    simp only [store64, Mach.store64_phys h.1]
    refine ⟨h.1, ?_⟩
    simp only [Mach.withMem, Mach.touch, Mach.resolve, h.1, h.2]
    rfl
  store8 a v M h := by
    simp only [store8, Mach.store8_phys h.1]
    refine ⟨h.1, ?_⟩
    simp only [Mach.withMem, Mach.touch, Mach.resolve, h.1, h.2]
    rfl
  leaf _ _ _ _ h := h
  invlpg _ _ h := h
  allocFrame _ h := h
  getPml4 _ h := h
  noteHeapFrame _ _ h := h
  setPml4 _ _ h := h
  loadCr3 _ _ h := h

theorem BootEnv.boot_fault {env : BootEnv} (hbus : env.bus = .phys) :
    env.boot.mach.fault = false := by
  rw [env.boot_mach]
  exact (primitive_faultless.kheapMapPages _ _ _ (primitive_faultless.vmmInit _ ⟨hbus, rfl⟩)).2

/-! ## Pages -/

omit [FrameSource σ] in
theorem userByte_canonical {t : Translation} (hc : canonical a)
    (ht : M.translate a = some t) : M.userByte a = some (M.mem (t.frame + a % 4096)) := by
  rw [Mach.userByte, if_pos hc, ht, Option.map_some]

/-- A page of a loaded image has its rights and its bytes. -/
theorem Loaded.page {img : Image} {ph : Phdr} {page : Nat} (h : Loaded img M) (hM : Rooted A M)
    (hc : img.cover (pageOf a) = some (ph, page)) :
    ∃ f, M.translate a = some ⟨f, ph.pageFlags.testBit 1, true⟩ ∧
      M.mem (f + a % 4096) = ph.pageByte img page (a % 4096) := by
  obtain ⟨h0, h2, -⟩ := ph.pageFlags_bits
  obtain ⟨f, hwalk, hbyte⟩ := (h _ ph page hc).walk hM.isolated.inv ph.pageFlags_lt h0
    (Image.lastCover_eq_some hc).1.symm
  refine ⟨f, ?_, hbyte⟩
  rw [Mach.translate, hM.cr3, ← h2]
  exact hwalk

/-! ## Stacks -/

/-- The stack loop fails only for want of a frame. -/
theorem mapStack_fst : ∀ (n vaddr : Nat) {M : Mach σ}, (mapStack n vaddr M).2.oom = false →
    (mapStack n vaddr M).1 = true
  | 0, _, _, _ => rfl
  | n + 1, vaddr, M, h => by
      simp only [mapStack, Act.bind_apply] at h ⊢
      by_cases h0 : (allocFrame M).1 = 0
      · rw [if_pos h0, Act.pure_apply, allocFrame_oom h0] at h
        cases h
      · rw [if_neg h0, Act.bind_apply] at h ⊢
        exact mapStack_fst n _ h

end

/-! ## The sample program -/

/-- The kernel is in order, and it has `n` frames left. -/
structure Ready (A : Nat → Prop) (n : Nat) (M : Mach Pmm) : Prop where
  rooted : Rooted A M
  fault : M.fault = false
  oom : M.oom = false
  plenty : Plenty M.frames n

theorem ready_roomyBoot {n : Nat} (hn : n ≤ 0x3000) :
    Ready (avail roomyBoot.start.frames) n roomyBoot.boot.mach := by
  obtain ⟨hplenty, hoom⟩ := oom_roomyBoot hn
  exact ⟨BootEnv.boot_rooted rfl (roomyBoot.root_ne_zero hoom), BootEnv.boot_fault rfl, hoom,
    hplenty⟩

/-- The memory of a program that has just been started. -/
def startProgram (img : Image) (stack : Nat) (M : Mach Pmm) : Mach Pmm :=
  (mapStack stackPages stack (elfLoad img M).2).2

theorem pages_onePageImage : ∀ i, i < onePageImage.phnum → (onePageImage.phdr i).type = ptLoad →
    (onePageImage.phdr i).pageCount ≤ 1 := by decide +kernel

theorem starts_onePageImage : onePageImage.Starts := by decide +kernel

theorem cover_onePageImage : onePageImage.cover 0x400 = some (onePageImage.phdr 0, 0x400000) := by
  have hcov : (onePageImage.cover 0x400).isSome = true := by decide +kernel
  obtain ⟨⟨ph, page⟩, hc⟩ := Option.isSome_iff_exists.mp hcov
  obtain ⟨-, i, hi, rfl, -, j, hj, rfl⟩ := Image.lastCover_eq_some hc
  have hnum : onePageImage.phnum = 1 := by decide +kernel
  obtain rfl : i = 0 := by omega
  have hcount : (onePageImage.phdr 0).pageCount = 1 := by decide +kernel
  obtain rfl : j = 0 := by omega
  have hstart : (onePageImage.phdr 0).vaddrStart = 0x400000 := by decide +kernel
  rw [hc, hstart]

/-- Loading a file with one segment of one page. -/
theorem Ready.load {A : Nat → Prop} {n : Nat} {M : Mach Pmm} (h : Ready A (n + 4) M) {img : Image}
    (hnum : img.phnum = 1) (hpages : ∀ i, i < img.phnum → (img.phdr i).type = ptLoad →
      (img.phdr i).pageCount ≤ 1) : Ready A n (elfLoad img M).2 := by
  have hcost : n + img.phnum * (4 * 1) = n + 4 := by rw [hnum]
  obtain ⟨hplenty, hoom⟩ := (Draws.elfLoad img hpages).supply M n (hcost ▸ h.plenty)
  have hfault := primitive_faultless.elfLoad img M ⟨h.rooted.isolated.inv.bus, h.fault⟩
  exact ⟨rooted_kept.elfLoad img M h.rooted, hfault.2, hoom.trans h.oom, hplenty⟩

/-- Mapping a stack. -/
theorem Ready.stack {A : Nat → Prop} {n : Nat} {M : Mach Pmm} (h : Ready A (n + 8) M)
    (vaddr : Nat) : Ready A n (mapStack stackPages vaddr M).2 := by
  obtain ⟨hplenty, hoom⟩ := (Draws.mapStack stackPages vaddr).supply M n h.plenty
  have hfault := primitive_faultless.mapStack stackPages vaddr M
    ⟨h.rooted.isolated.inv.bus, h.fault⟩
  exact ⟨rooted_kept.mapStack stackPages vaddr M h.rooted, hfault.2, hoom.trans h.oom, hplenty⟩

/-- `SYS_EXEC` of a file with one segment of one page. -/
theorem Ready.exec {A : Nat → Prop} {n : Nat} {M : Mach Pmm} (h : Ready A (n + 12) M) {S : Services}
    {frame : InterruptFrame} {f : RamfsFile} (htarget : S.target frame M = some f)
    (hread : M.readName frame = M) (hstarts : f.image.Starts) (hnum : f.image.phnum = 1)
    (hpages : ∀ i, i < f.image.phnum → (f.image.phdr i).type = ptLoad →
      (f.image.phdr i).pageCount ≤ 1) :
    handleExec S frame M = (({ S with savedFrame := frame, childRunning := true },
        .start (frame.enterChild f.image.entry) f.image),
        startProgram f.image childStackVaddr M) ∧
      Ready A n (startProgram f.image childStackVaddr M) := by
  have hready : Ready A n (startProgram f.image childStackVaddr M) :=
    (Ready.load (n := n + 8) h hnum hpages).stack childStackVaddr
  have hstack : (mapStack stackPages childStackVaddr (elfLoad f.image M).2).1 = true :=
    mapStack_fst _ _ hready.oom
  refine ⟨?_, hready⟩
  rw [handleExec_started htarget hstarts (by rw [hread]; exact hstack), hread, startProgram]

/-- The name at an address that is mapped. -/
theorem readName_byte {M : Mach Pmm} {frame : InterruptFrame} {b : UInt8} (hlen : frame.rsi = 1)
    (hbyte : M.userByte (wrap64 frame.rdi) = some b) :
    (loadUserBytes frame.rdi frame.rsi M).1 = [b] ∧ M.readName frame = M := by
  constructor
  · rw [hlen, loadUserBytes_fst, List.range_one, List.map_singleton, Nat.add_zero, hbyte]
    rfl
  · refine Mach.readName_mapped fun i hi => ?_
    obtain rfl : i = 0 := by omega
    rw [Nat.add_zero, hbyte]
    rfl

theorem phnum_onePageImage : onePageImage.phnum = 1 := by decide +kernel

/-- The sample program finds the first byte of its header. -/
theorem Loaded.header {A : Nat → Prop} {M : Mach Pmm} (h : Loaded onePageImage M)
    (hM : Rooted A M) :
    M.UserPage 0x400000 ∧ M.userByte 0x400000 = some 0x7f := by
  obtain ⟨f, htrans, hbyte⟩ := h.page (a := 0x400000) hM cover_onePageImage
  refine ⟨⟨_, htrans, rfl⟩, ?_⟩
  rw [userByte_canonical (by decide) htrans, hbyte]
  decide +kernel

theorem Ready.start {A : Nat → Prop} {n stack : Nat} {M : Mach Pmm} (h : Ready A (n + 12) M)
    (hstack : ¬ StackPage stack 0x400) :
    Ready A n (startProgram onePageImage stack M) ∧
      (startProgram onePageImage stack M).UserPage 0x400000 ∧
      (startProgram onePageImage stack M).userByte 0x400000 = some 0x7f := by
  have hN : Ready A (n + 8) (elfLoad onePageImage M).2 :=
    Ready.load h phnum_onePageImage pages_onePageImage
  obtain ⟨-, -, -, hload⟩ := elfLoad_spec onePageImage h.rooted.isolated.inv rfl
  unfold startProgram
  generalize (elfLoad onePageImage M).2 = N at hN hload
  have hN' := hN.stack stack
  obtain ⟨-, hg, -⟩ := Maps.mapStack stack N hN.rooted.isolated.inv
  have hloaded : Loaded onePageImage (mapStack stackPages stack N).2 :=
    (hload hN.oom starts_onePageImage.1).grow hg fun m hm => covers_onePageImage hm ▸ hstack
  exact ⟨hN', hloaded.header hN'.rooted⟩

/-- `usermode_exec_elf` of a program that starts. -/
theorem usermodeExecElf_some {σ : Type} [FrameSource σ] {img : Image} {M : Mach σ}
    (h : img.Starts)
    (hstack : (mapStack stackPages userStackVaddr (elfLoad img M).2).1 = true) :
    (usermodeExecElf img M).1 = some ⟨img.entry, 0x23, 0x202, 0x802000, 0x1B⟩ := by
  have hne : img.entry ≠ 0 := h.2
  simp only [usermodeExecElf, Act.bind_apply, elfLoad_fst, if_pos h.1]
  rw [if_neg hne, Act.bind_apply, hstack, if_pos rfl]
  rfl

/-- Twelve frames are enough for the sample program. -/
theorem usermodeExecElf_onePage {M : Mach Pmm} (hplenty : Plenty M.frames 12)
    (hoom : M.oom = false) : (usermodeExecElf onePageImage M).1
      = some ⟨onePageImage.entry, 0x23, 0x202, 0x802000, 0x1B⟩ := by
  have hcost : 8 + onePageImage.phnum * (4 * 1) = 12 := by rw [phnum_onePageImage]
  obtain ⟨hload, hoom₁⟩ := (Draws.elfLoad onePageImage pages_onePageImage).supply M 8
    (hcost ▸ hplenty)
  obtain ⟨-, hoom₂⟩ := (Draws.mapStack stackPages userStackVaddr).supply _ 0 hload
  exact usermodeExecElf_some starts_onePageImage
    (mapStack_fst _ _ (hoom₂.trans (hoom₁.trans hoom)))

/-- The kernel after the sample program is started. -/
def runningBoot : Kernel Pmm :=
  roomyBoot.boot.withMach (usermodeExecElf onePageImage roomyBoot.boot.mach).2

theorem reaches_runningBoot : roomyBoot.Reaches anyStep runningBoot :=
  (BootEnv.Reaches.boot roomyBoot _).next .usermode trivial

theorem usermodeExecElf_start {img : Image} (h : img.Starts) (M : Mach Pmm) :
    (usermodeExecElf img M).2 = startProgram img userStackVaddr M := usermodeExecElf_snd h M

theorem mach_runningBoot :
    runningBoot.mach = startProgram onePageImage userStackVaddr roomyBoot.boot.mach := by
  rw [runningBoot, Kernel.mach_withMach, usermodeExecElf_start starts_onePageImage]

theorem ready_runningBoot :
    Ready (avail roomyBoot.start.frames) 0x1000 runningBoot.mach ∧
      runningBoot.mach.UserPage 0x400000 ∧
      runningBoot.mach.userByte 0x400000 = some 0x7f := by
  rw [mach_runningBoot]
  exact (ready_roomyBoot (n := 0x1000 + 12) (by decide)).start (by decide)

theorem usermodeExecElf_runningBoot : (usermodeExecElf onePageImage roomyBoot.boot.mach).1
    = some ⟨onePageImage.entry, 0x23, 0x202, 0x802000, 0x1B⟩ := by
  obtain ⟨hplenty, hoom⟩ := oom_roomyBoot (n := 12) (by decide)
  exact usermodeExecElf_onePage hplenty hoom

end TunaOs
