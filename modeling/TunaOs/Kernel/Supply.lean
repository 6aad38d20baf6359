import TunaOs.Elf.Supply
import TunaOs.Kernel.Model
import TunaOs.Kheap.Spec
import TunaOs.Pmm.Init
import TunaOs.Vmm.Count

/-!
# Enough frames for the kernel

How many frames boot and the start of a program can need, and how many the
allocator has.  `vmm_init` needs at most a root and three tables for each page,
the heap and the stacks at most four frames for each page.
-/

namespace TunaOs

section

variable {σ : Type} [FrameSource σ]

theorem Draws.vmmInit : Draws (1 + identityPages * 3) (TunaOs.vmmInit : Act σ Unit) := by
  rw [show 1 + identityPages * 3 = 1 + (0 + (identityPages * 3 + 0)) by omega]
  refine .bind .allocTable fun pml4 => .bind (.keep (fun _ => rfl) fun _ => rfl) fun _ => ?_
  refine .ite (.pure _) (.bind (.forLoop _ fun i _ => .vmmMapPage ..) fun _ => ?_)
  exact .keep (fun _ => rfl) fun _ => rfl

theorem Draws.kheapMapPages : ∀ n virt, Draws (4 * n) (TunaOs.kheapMapPages n virt : Act σ Unit)
  | 0, _ => .pure _
  | n + 1, virt => by
      rw [show 4 * (n + 1) = 1 + (0 + (3 + 4 * n)) by omega]
      refine .bind .allocFrame fun phys => .ite (.pure _) ?_
      refine .bind (.keep (fun _ => rfl) fun _ => rfl) fun _ => ?_
      exact .bind (.vmmMapPage ..) fun _ => Draws.kheapMapPages n _

theorem Draws.mapStack : ∀ n vaddr, Draws (4 * n) (TunaOs.mapStack n vaddr : Act σ Bool)
  | 0, _ => .pure _
  | n + 1, vaddr => by
      rw [show 4 * (n + 1) = 1 + (3 + 4 * n) by omega]
      refine .bind .allocFrame fun frame => .ite (.pure _) ?_
      exact .bind (.vmmMapPage ..) fun _ => Draws.mapStack n _

/-- `c` bounds the pages of a segment. -/
theorem Draws.usermodeExecElf (img : Image) {c : Nat}
    (hc : ∀ i, i < img.phnum → (img.phdr i).type = ptLoad → (img.phdr i).pageCount ≤ c) :
    Draws (img.phnum * (4 * c) + 8) (TunaOs.usermodeExecElf img : Act σ (Option IretFrame)) := by
  refine .bind (.elfLoad img hc) fun entry => .ite (.pure _) ?_
  exact .bind (k := 8) (l := 0) (.mapStack stackPages _) fun ok => .ite (.pure _) (.pure _)

end

/-- A block of free frames. -/
theorem plenty_of_free {s : Pmm} : ∀ {n a : Nat}, ¬ s.Free 0 →
    (∀ f, a ≤ f → f < a + n → s.Free f) → Plenty s n := by
  intro n
  induction n generalizing s with
  | zero => exact fun _ _ => trivial
  | succ n ih =>
      intro a h0 hfree
      rcases pmmAllocFrame_cases s with ⟨-, hnone⟩ | ⟨f, hf, hlow, heq⟩
      · exact absurd (hfree a (Nat.le_refl a) (by omega)) (hnone a)
      · -- the lowest frame is taken, so those after `a` stay
        have hfa : f ≤ a := hlow a (hfree a (Nat.le_refl a) (by omega))
        have hf0 : f ≠ 0 := fun h => h0 (h ▸ hf)
        have halloc : FrameSource.alloc s = ((bitmapSet s f).usedInc, f * pmmPageSize) := heq
        refine ⟨?_, ?_⟩
        · rw [halloc]
          simp only [pmmPageSize]
          omega
        · rw [halloc]
          refine ih (a := a + 1) ?_ fun g h1 h2 => ?_
          · rw [free_bitmapSet_usedInc]
            exact fun h => h0 h.1
          · rw [free_bitmapSet_usedInc]
            exact ⟨hfree g (by omega) (by omega), by omega⟩

/-- The allocator takes the lowest block of free frames first. -/
theorem free_advance {s : Pmm} {H : Nat → Prop} : ∀ {n a : Nat},
    (∀ f, s.Free f ↔ (a ≤ f ∧ f < a + n) ∨ H f) → (∀ f, H f → a + n ≤ f) →
    ∀ f, (advance s n).Free f ↔ H f := by
  intro n
  induction n generalizing s with
  | zero =>
      intro a hfree _ f
      rw [advance, hfree f]
      exact ⟨fun h => h.resolve_left (by omega), .inr⟩
  | succ n ih =>
      intro a hfree hhigh f
      have ha : s.Free a := (hfree a).mpr (.inl ⟨Nat.le_refl a, by omega⟩)
      rcases pmmAllocFrame_cases s with ⟨-, hnone⟩ | ⟨g, hg, hlow, heq⟩
      · exact absurd ha (hnone a)
      · obtain rfl : g = a := by
          have hle := hlow a ha
          rcases (hfree g).mp hg with hin | hH
          · omega
          · have := hhigh g hH
            omega
        have halloc : FrameSource.alloc s = ((bitmapSet s g).usedInc, g * pmmPageSize) := heq
        rw [advance_succ, halloc]
        refine ih (a := g + 1) (fun f => ?_) (fun f hf => by have := hhigh f hf; omega) f
        rw [free_bitmapSet_usedInc, hfree f]
        constructor
        · rintro ⟨hin | hH, hne⟩
          · exact .inl ⟨by omega, by omega⟩
          · exact .inr hH
        · rintro (hin | hH)
          · exact ⟨.inl ⟨by omega, by omega⟩, by omega⟩
          · have := hhigh f hH
            exact ⟨.inr hH, by omega⟩

/-- `kheap_init` maps 16 pages. -/
theorem kheapInit_env {σ : Type} [FrameSource σ] (m : Mem) (M : Mach σ) :
    (kheapInit m M).env = (kheapMapPages 16 kheapStart M).2 := by
  have hpages : (kheapInitialSize + 4095) / 4096 = 16 := by decide
  rw [← hpages]
  rfl

theorem BootEnv.boot_mach (env : BootEnv) :
    env.boot.mach = (kheapMapPages 16 kheapStart (vmmInit env.start).2).2 :=
  kheapInit_env env.heapMem (vmmInit env.start).2

theorem BootEnv.boot_heapEnd (env : BootEnv) : env.boot.heap.heapEnd = 0x210000 := rfl

/-- The first allocation after boot, of a size that does not fit into the initial
heap. -/
theorem BootEnv.kmalloc_boot (env : BootEnv) (size : Nat) (hsize : size < 2 ^ 63)
    (hbig : kheapInitialSize < requestSize size)
    (hfit : kheapInitialSize + expandSize (requestSize size) ≤ kheapMaxSize) :
    ∃ h, kmalloc env.boot.heap size = some (h, kheapStart + 16) ∧
      h.heapEnd = 0x210000 + expandSize (requestSize size) ∧
      h.env = (kheapMapRegion 0x210000 (expandSize (requestSize size)) env.boot.mach).2 := by
  have hend : env.boot.heap.heapEnd = kheapStart + kheapInitialSize := rfl
  exact kmalloc_extend (heapRep_kheapInit env.heapMem (vmmInit env.start).2) hsize hbig
    (by rw [hend]; omega)

theorem BootEnv.free_start (env : BootEnv) (f : Nat) :
    env.start.frames.Free f ↔ Usable env.image env.regions f := free_pmmInit_iff ..

theorem BootEnv.not_free_zero (env : BootEnv) : ¬ env.start.frames.Free 0 := by
  intro h
  obtain ⟨-, hlow, -⟩ := (env.free_start 0).mp h
  exact absurd hlow (by decide)

/-- The frames at the start are the usable ones. -/
theorem BootEnv.usable_of_avail {env : BootEnv} {f : Nat}
    (hf : FrameSource.avail env.start.frames f) :
    ∃ n, f = n * 4096 ∧ Usable env.image env.regions n := by
  obtain ⟨n, hn, -, rfl⟩ := hf
  exact ⟨n, rfl, (env.free_start n).mp hn⟩

/-- A block of usable frames is there at the start. -/
theorem BootEnv.plenty (env : BootEnv) {n a : Nat}
    (h : ∀ f, a ≤ f → f < a + n → Usable env.image env.regions f) : Plenty env.start.frames n :=
  plenty_of_free env.not_free_zero fun f h1 h2 => (env.free_start f).mpr (h f h1 h2)

/-- Boot takes 21 frames: five for `vmm_init`, and one for each page of the heap. -/
theorem BootEnv.boot_enough (env : BootEnv) (hbus : env.bus = .phys)
    (h : Plenty env.start.frames 21) :
    env.boot.mach.frames = advance env.start.frames 21 ∧ env.boot.mach.oom = false ∧
      ∀ q, q.length ≤ 3 → (env.boot.mach.Has q ↔ q <+: pathOf 0 ∨ q <+: pathOf 0x200000) := by
  obtain ⟨h5, h16⟩ := (plenty_add env.start.frames 5 16).mp h
  obtain ⟨hfr, hoom, hhas⟩ := vmmInit_enough hbus h5 rfl
  have hinv : VmInv (vmmInit env.start).2 := by
    obtain ⟨N, hN, hinv, -, -, -⟩ := vmmInit_spec hbus h5.allocTable rfl
    rw [hN]
    exact ⟨hinv.bus, hinv.tables, hinv.fresh⟩
  have hstart : env.start.oom = false := rfl
  rw [hstart] at hoom
  have hmap := env.boot_mach.symm
  generalize (vmmInit env.start).2 = M at hfr hoom hhas hinv hmap
  have hpages : ∀ j, j < 16 → M.Has (pathOf (kheapStart + 4096 * j)) := by
    intro j hj
    have hpath : pathOf (kheapStart + 4096 * j) = pathOf 0x200000 := by
      rw [← pathOf_second (i := 512 + j) (by omega) (by omega)]
      congr 1
      simp only [kheapStart]
      omega
    exact (hhas _ (by simp)).mpr (Or.inr (hpath ▸ List.prefix_rfl))
  obtain ⟨hfr', hoom', hhas'⟩ := kheapMapPages_enough 16 kheapStart hinv hpages (hfr ▸ h16)
    (by decide) hmap
  refine ⟨?_, hoom'.trans hoom, fun q hq => (hhas' q hq).trans (hhas q hq)⟩
  rw [hfr', hfr, ← advance_add]

/-- With room for `n` more frames after boot. -/
theorem BootEnv.plenty_boot (env : BootEnv) {n m a : Nat} (hm : n + 3137 ≤ m)
    (h : ∀ f, a ≤ f → f < a + m → Usable env.image env.regions f) :
    Plenty env.boot.mach.frames n ∧ env.boot.mach.oom = false := by
  have hp : Plenty env.start.frames (n + 4 * 16 + (1 + identityPages * 3)) :=
    (env.plenty h).mono (by simp only [identityPages]; omega)
  obtain ⟨hp1, ho1⟩ := Draws.vmmInit.supply env.start (n + 4 * 16) hp
  obtain ⟨hp2, ho2⟩ := (Draws.kheapMapPages 16 kheapStart).supply (vmmInit env.start).2 n hp1
  rw [env.boot_mach]
  exact ⟨hp2, ho2.trans ho1⟩

/-! ## A boot with room -/

/-- A boot with empty memory and the kernel image below `0x110000`. -/
def bootWith (regions : List MmapRegion) (bus : Bus) : BootEnv where
  mem := fun _ => 0
  heapMem := fun _ => 0
  pmm := ⟨fun _ => 0, 0, 0⟩
  image := ⟨0x100000, 0x110000, by decide, by decide⟩
  regions := regions
  bus := bus

/-- 64 MiB above the kernel. -/
def roomyBoot : BootEnv := bootWith [⟨0x110000, 0x4000000, 1⟩] .phys

/-- The frames of a region above the kernel are usable. -/
theorem usable_bootWith {base len : Nat} (hbase : 0x110000 ≤ base) (hb : Bounded [⟨base, len, 1⟩])
    (bus : Bus) {f : Nat} (h1 : base ≤ 4096 * f) (h2 : 4096 * f + 4096 ≤ base + len)
    (h3 : f < pmmMaxFrames) :
    Usable (bootWith [⟨base, len, 1⟩] bus).image [⟨base, len, 1⟩] f := by
  refine (usable_iff hb f).mpr ⟨h3, ?_, ?_, ?_⟩
  · simp only [lowEnd, pmmPageSize]
    omega
  · exact Or.inr (show 0x110000 ≤ 4096 * f by omega)
  · exact ⟨_, List.mem_singleton_self _, rfl, h1, h2⟩

theorem usable_roomyBoot {f : Nat} (h1 : 0x110 ≤ f) (h2 : f < 0x4110) :
    Usable roomyBoot.image roomyBoot.regions f :=
  usable_bootWith (Nat.le_refl _) (by decide) _ (by omega) (by omega)
    (by simp only [pmmMaxFrames]; omega)

/-- The free frames of this memory after `j` of them have been taken. -/
theorem free_roomyBoot {j : Nat} (hj : j ≤ 0x4000) (f : Nat) :
    (advance roomyBoot.start.frames j).Free f ↔ 0x110 + j ≤ f ∧ f < 0x4110 := by
  have hb : Bounded roomyBoot.regions := by decide
  have hstart : ∀ f, roomyBoot.start.frames.Free f ↔ 0x110 ≤ f ∧ f < 0x4110 := by
    intro f
    have himg : roomyBoot.image.start = 0x100000 ∧ roomyBoot.image.stop = 0x110000 := ⟨rfl, rfl⟩
    refine (roomyBoot.free_start f).trans ((usable_iff hb f).trans ?_)
    rw [himg.1, himg.2]
    simp only [lowEnd, pmmPageSize, pmmMaxFrames]
    constructor
    · rintro ⟨-, -, -, r, hr, -, h1, h2⟩
      obtain rfl := List.mem_singleton.mp hr
      simp only at h1 h2
      omega
    · intro h
      exact ⟨by omega, by omega, by omega, _, List.mem_singleton_self _, rfl, by simp only; omega,
        by simp only; omega⟩
  refine free_advance (a := 0x110) (H := fun f => 0x110 + j ≤ f ∧ f < 0x4110) (fun f => ?_)
    (fun f h => h.1) f
  rw [hstart f]
  omega

theorem oom_roomyBoot {n : Nat} (hn : n ≤ 0x3000) :
    Plenty roomyBoot.boot.mach.frames n ∧ roomyBoot.boot.mach.oom = false := by
  refine roomyBoot.plenty_boot (m := 0x4000) (a := 0x110) (by omega) fun f h1 h2 => ?_
  exact usable_roomyBoot h1 h2

/-- 100 frames above the kernel. -/
def smallBoot : BootEnv := bootWith [⟨0x110000, 0x64000, 1⟩] .phys

theorem avail_smallBoot {f : Nat} (hf : FrameSource.avail smallBoot.start.frames f) :
    f ∈ (List.range 100).map fun i => 0x110000 + 4096 * i := by
  obtain ⟨n, rfl, hn⟩ := BootEnv.usable_of_avail hf
  obtain ⟨-, -, -, r, hr, -, h1, h2⟩ := (usable_iff (by decide) n).mp hn
  obtain rfl : r = ⟨0x110000, 0x64000, 1⟩ := List.mem_singleton.mp hr
  simp only at h1 h2
  refine List.mem_map.mpr ⟨n - 0x110, List.mem_range.mpr (by omega), by omega⟩

theorem usable_smallBoot {f : Nat} (h1 : 0x110 ≤ f) (h2 : f < 0x174) :
    Usable smallBoot.image smallBoot.regions f :=
  usable_bootWith (Nat.le_refl _) (by decide) _ (by omega) (by omega)
    (by simp only [pmmMaxFrames]; omega)

theorem oom_smallBoot : smallBoot.boot.mach.oom = false := by
  have hplenty : Plenty smallBoot.start.frames 21 :=
    smallBoot.plenty (a := 0x110) fun f h1 h2 => usable_smallBoot h1 (by omega)
  exact (smallBoot.boot_enough rfl hplenty).2.1

/-- `n` frames above the kernel, and 256 at 16 MiB. -/
def splitBoot (n : Nat) (bus : Bus) : BootEnv :=
  bootWith [⟨0x110000, n * 4096, 1⟩, ⟨0x1000000, 0x100000, 1⟩] bus

/-- The free frames after `j` of the low ones have been taken. -/
theorem free_splitBoot {n j : Nat} (bus : Bus) (hn : n ≤ 0xE0) (hj : j ≤ n) (f : Nat) :
    (advance (splitBoot n bus).start.frames j).Free f ↔
      (0x110 + j ≤ f ∧ f < 0x110 + n) ∨ (0x1000 ≤ f ∧ f < 0x1100) := by
  have hb : Bounded (splitBoot n bus).regions := by
    intro r hr
    rcases List.mem_cons.mp hr with rfl | hr
    · simp only
      omega
    · obtain rfl := List.mem_singleton.mp hr
      decide
  have hstart : ∀ f, (splitBoot n bus).start.frames.Free f ↔
      (0x110 ≤ f ∧ f < 0x110 + n) ∨ (0x1000 ≤ f ∧ f < 0x1100) := by
    intro f
    have himg : (splitBoot n bus).image.start = 0x100000 ∧
        (splitBoot n bus).image.stop = 0x110000 :=
      ⟨rfl, rfl⟩
    refine ((splitBoot n bus).free_start f).trans ((usable_iff hb f).trans ?_)
    rw [himg.1, himg.2]
    simp only [lowEnd, pmmPageSize, pmmMaxFrames]
    constructor
    · rintro ⟨-, -, -, r, hr, -, h1, h2⟩
      rcases List.mem_cons.mp hr with rfl | hr
      · simp only at h1 h2
        omega
      · obtain rfl := List.mem_singleton.mp hr
        simp only at h1 h2
        omega
    · rintro (h | h)
      · exact ⟨by omega, by omega, by omega, _, List.mem_cons_self, rfl, by simp only; omega,
          by simp only; omega⟩
      · exact ⟨by omega, by omega, by omega, _, List.mem_cons_of_mem _ List.mem_cons_self, rfl,
          by simp only; omega, by simp only; omega⟩
  refine free_advance (a := 0x110) (H := fun f => (0x110 + j ≤ f ∧ f < 0x110 + n) ∨
    (0x1000 ≤ f ∧ f < 0x1100)) (fun f => ?_) (fun f h => by omega) f
  rw [hstart f]
  omega

/-- After the low frames the allocator returns the one at 16 MiB. -/
theorem alloc_splitBoot {n : Nat} (bus : Bus) (hn : n ≤ 0xE0) :
    (FrameSource.alloc (advance (splitBoot n bus).start.frames n)).2 = 0x1000000 := by
  have hfree := free_splitBoot bus hn (Nat.le_refl n)
  generalize advance (splitBoot n bus).start.frames n = s at hfree
  have hhigh : s.Free 0x1000 := (hfree 0x1000).mpr (.inr ⟨by decide, by decide⟩)
  rcases pmmAllocFrame_cases s with ⟨-, hnone⟩ | ⟨g, hg, hlow, heq⟩
  · exact absurd hhigh (hnone _)
  · have hle := hlow _ hhigh
    have hin := (hfree g).mp hg
    obtain rfl : g = 0x1000 := by omega
    exact congrArg Prod.snd heq

/-- The low frames are there. -/
theorem plenty_splitBoot {n : Nat} (bus : Bus) (hn : n ≤ 0xE0) :
    Plenty (splitBoot n bus).start.frames n := by
  refine plenty_of_free (a := 0x110) (BootEnv.not_free_zero _) fun f h1 h2 => ?_
  exact (free_splitBoot bus hn (Nat.zero_le n) f).mpr (.inl ⟨by omega, h2⟩)

/-- And then the high ones. -/
theorem plenty_high_splitBoot {n : Nat} (bus : Bus) (hn : n ≤ 0xE0) :
    Plenty (advance (splitBoot n bus).start.frames n) 0x100 := by
  have hfree := free_splitBoot bus hn (Nat.le_refl n)
  refine plenty_of_free (a := 0x1000) (fun h => ?_) fun f h1 h2 => ?_
  · have h0 := (hfree 0).mp h
    omega
  · exact (hfree f).mpr (.inr ⟨h1, h2⟩)

end TunaOs
