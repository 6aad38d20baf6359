import TunaOs.Elf.Copies
import TunaOs.Kernel.Confined
import TunaOs.Kernel.Sessions
import TunaOs.Kheap.Room
import TunaOs.Ramfs.Listing

/-!
# From boot to the shell

`kernel_main` from `pmm_init` on: the test of the heap, the two files, and the start of the
shell.  The descriptor tables and the interrupt controllers that it sets up in between are in
`Idt/Protection` and `Pic/Driver`, and what it writes to the serial port is left out but for
the listing of the files.

The model of the system calls keeps files by value.  `Ramfs.filesFrom` reads them from the
list in memory, each with the bytes behind its end.

Each stage is a use of the heap (`Setup`) that adds a number of pages at most.
`kernelMain_starts_shell` puts them together.  On the MMU it takes frames below the heap: the
next frames are then all identity-mapped, and a stage does not stray.
-/

namespace TunaOs

open Mem (Holds HoldsStr holdsStr_nil holdsStr_cons)

/-! ## `kernel_main` -/

/-- What is linked into the kernel for `kernel_main`. -/
structure Embedded where
  /-- The literal `"hello.elf"`. -/
  helloName : Nat
  /-- `_binary_hello_elf_start`. -/
  helloStart : Nat
  /-- `_binary_hello_elf_end`. -/
  helloEnd : Nat
  /-- The literal `"shell.elf"`. -/
  shellName : Nat
  /-- `_binary_shell_elf_start`. -/
  shellStart : Nat
  /-- `_binary_shell_elf_end`. -/
  shellEnd : Nat

/-- The test of `kmalloc` and `kfree`. -/
def kmallocSelfTest {σ : Type} [HeapBacking σ] (h : Heap σ) : Option (Heap σ) := do
  let (h, a) ← kmalloc h 64
  let (h, b) ← kmalloc h 128
  if a ≠ 0 ∧ b ≠ 0 then
    let h := h.withMem ((h.mem.store a 8 0xDEADBEEF).store b 8 0xCAFEBABE)
    let h ← kfree h a
    let (h, c) ← kmalloc h 32
    let h ← kfree h b
    kfree h c
  else some h

/-- The string at `a`. -/
def stringAt (m : Mem) : Nat → Nat → Option (List UInt8)
  | 0, _ => none
  | fuel + 1, a => if m a = 0 then some [] else (stringAt m fuel (a + 1)).map (m a :: ·)

/-- The image that the file `f` is, `f->data` of `f->size` bytes. -/
def fileImage (m : Mem) (f : Nat) : Image := ⟨fun i => m (fileData m f + i), fileSize m f⟩

/-- The files from `f` on. -/
def Ramfs.filesFrom (m : Mem) : Nat → Nat → Option (List RamfsFile)
  | 0, _ => none
  | fuel + 1, f =>
      if f = 0 then some []
      else do
        let name ← stringAt m ramfsNameMax f
        let rest ← filesFrom m fuel (fileNext m f)
        some (⟨name, fileImage m f⟩ :: rest)

/-- `kernel_main`: what `ramfs_list` writes, the kernel, and the frame for `iretq`, if
`usermode_exec_elf` does not return. -/
def kernelMain (env : BootEnv) (e : Embedded) (stack : Mem) :
    Option (List UInt8 × Kernel Pmm × Option IretFrame) := do
  let heap ← kmallocSelfTest env.boot.heap
  let (R, _) ← (Ramfs.init heap).create e.helloName e.helloStart (e.helloEnd - e.helloStart)
  let (R, _) ← R.create e.shellName e.shellStart (e.shellEnd - e.shellStart)
  let out ← R.list stack
  let shellFile ← R.find e.shellName
  let files ← Ramfs.filesFrom R.heap.mem R.heap.walkFuel R.fileList
  let img := fileImage R.heap.mem shellFile
  let services := { initialServices with
    files, shellElf := if shellFile ≠ 0 then some img else none }
  let (iret, M) := usermodeExecElf img R.heap.env
  some (out, ⟨R.heap.withEnv M, services⟩, iret)

/-! ## Uses of the heap -/

/-- A use of the heap before the first program starts, with at most `n` pages more. -/
structure Setup (env : BootEnv) (n : Nat) (h h' : Heap (Mach Pmm)) : Prop where
  heapEnd : h'.heapEnd ≤ h.heapEnd + 4096 * n
  supply : ∀ k, Plenty h.env.frames (k + 4 * n) →
    Plenty h'.env.frames k ∧ h'.env.oom = h.env.oom
  /-- The frames drawn are the next ones. -/
  taken : ∃ j, j ≤ 4 * n ∧ h'.env.frames = advance h.env.frames j
  /-- If those are below the heap, then no access strays. -/
  windowed : ∀ A S, NextIn belowHeap h.env.frames (4 * n) →
    WindowedTwin A belowHeap ⟨h, S⟩ → WindowedTwin A belowHeap ⟨h', S⟩
  reaches : ∀ S, env.Reaches SetupStep ⟨h, S⟩ → env.Reaches SetupStep ⟨h', S⟩

section

variable {env : BootEnv} {h h' h'' : Heap (Mach Pmm)} {live : List (Nat × Nat)} {n n' p size : Nat}

theorem Setup.trans (h₁ : Setup env n h h') (h₂ : Setup env n' h' h'') :
    Setup env (n + n') h h'' := by
  obtain ⟨j₁, hj₁, hframes₁⟩ := h₁.taken
  obtain ⟨j₂, hj₂, hframes₂⟩ := h₂.taken
  refine ⟨?_, fun k hp => ?_, ⟨j₁ + j₂, by omega, ?_⟩, fun A S hnext hw => ?_,
    fun S hr => h₂.reaches S (h₁.reaches S hr)⟩
  · have := h₁.heapEnd
    have := h₂.heapEnd
    omega
  · obtain ⟨hp₁, ho₁⟩ := h₁.supply (k + 4 * n') (hp.mono (by omega))
    obtain ⟨hp₂, ho₂⟩ := h₂.supply k hp₁
    exact ⟨hp₂, ho₂.trans ho₁⟩
  · rw [hframes₂, hframes₁, advance_add]
  · refine h₂.windowed A S ?_ (h₁.windowed A S (hnext.mono (by omega)) hw)
    rw [hframes₁]
    exact hnext.advance (by omega)

/-- What `kmalloc` draws. -/
theorem HeapInv.kmalloc_draws (hi : HeapInv h live) (hsize : size < 2 ^ 63)
    (hk : TunaOs.kmalloc h size = some (h', p)) :
    (∀ k, Plenty h.env.frames (k + 4 * growPages size) →
      Plenty h'.env.frames k ∧ h'.env.oom = h.env.oom) ∧
    ∃ j, j ≤ 4 * growPages size ∧ h'.env.frames = advance h.env.frames j := by
  rcases hi.kmalloc_grows hsize hk with ⟨-, henv⟩ | ⟨-, henv⟩
  · rw [henv]
    exact ⟨fun k hp => ⟨hp.mono (Nat.le_add_right _ _), rfl⟩, 0, Nat.zero_le _, rfl⟩
  · have hpages : (4096 * growPages size + 4095) / 4096 = growPages size := by omega
    change h'.env = (kheapMapPages ((4096 * growPages size + 4095) / 4096) h.heapEnd h.env).2
      at henv
    rw [hpages] at henv
    rw [henv]
    have hdraws := Draws.kheapMapPages (σ := Pmm) (growPages size) h.heapEnd
    exact ⟨hdraws.supply h.env, hdraws.taken h.env⟩

/-- With the next frames below the heap `kmalloc` stays in the window. -/
theorem HeapInv.kmalloc_within {A : Nat → Prop} {S : Services} {k' : Kernel Pmm}
    (hi : HeapInv h live) (hsize : size < 2 ^ 63)
    (hnext : NextIn belowHeap h.env.frames (4 * growPages size))
    (hw : WindowedTwin A belowHeap ⟨h, S⟩) :
    DrawsWithin belowHeap ⟨h, S⟩ (.kmalloc size) k' := by
  obtain ⟨bs, hr, hlive⟩ := hi
  have hi' : HeapInv (h.withEnv (h.env.withBus .phys)) live := ⟨bs, hr.withEnv _, hlive⟩
  intro k hs
  cases hs with
  | kmalloc hm =>
      obtain ⟨-, hlim, -⟩ := TunaOs.kmalloc_grows hw.2.rooted.isolated.inv hw.2.limits hsize hm
      obtain ⟨-, j, hj, hframes⟩ := hi'.kmalloc_draws hsize hm
      refine ⟨hsize, fun f hf htaken => hnext j hj f hf fun h => htaken ?_, ?_⟩
      · rw [Kernel.mach, hframes]
        exact h
      · rintro t ⟨-, hlt⟩ ⟨x, hx, hx', hpage⟩
        -- the new pages are behind the end of the heap
        have hmax := hlim.max
        have hlow := hr.low
        have hge : h.heapEnd ≤ x := hx
        simp only [kheapStart, kheapMaxSize, kheapInitialSize, pageOf] at *
        omega

theorem Setup.kmalloc (hi : HeapInv h live) (hsize : size < 2 ^ 63)
    (hk : TunaOs.kmalloc h size = some (h', p)) : Setup env (growPages size) h h' := by
  obtain ⟨hsupply, htaken⟩ := hi.kmalloc_draws hsize hk
  refine ⟨?_, hsupply, htaken,
    fun A S hnext hw => hw.step (.kmalloc hk) (hi.kmalloc_within hsize hnext hw),
    fun S hr => hr.next (.kmalloc hk) trivial⟩
  rcases hi.kmalloc_grows hsize hk with ⟨hend, -⟩ | ⟨hend, -⟩
  · exact Nat.le_trans (Nat.le_of_eq hend) (Nat.le_add_right _ _)
  · exact Nat.le_of_eq hend

theorem Setup.kfree (hk : TunaOs.kfree h p = some h') : Setup env 0 h h' := by
  obtain ⟨henv, hend⟩ := kfree_env hk
  refine ⟨Nat.le_of_eq hend, ?_, ⟨0, Nat.zero_le _, congrArg Mach.frames henv⟩,
    fun A S _ hw => hw.step (.kfree hk) fun k hs => ?_, fun S hr => hr.next (.kfree hk) trivial⟩
  · rw [henv]
    exact fun k hp => ⟨hp, rfl⟩
  · cases hs with
    | kfree hk' =>
        refine ⟨trivial, fun f hf htaken => absurd ?_ htaken, fun _ _ => id⟩
        rw [Kernel.mach, (kfree_env hk').1]
        exact hf

theorem Setup.write (m : Mem) : Setup env 0 h (h.withMem m) := by
  refine ⟨Nat.le_refl _, fun _ hp => ⟨hp, rfl⟩, ⟨0, Nat.zero_le _, rfl⟩,
    fun A S _ hw => hw.step .heapMem fun k hs => ?_, fun _ hr => hr.next .heapMem trivial⟩
  cases hs
  exact ⟨trivial, fun f hf htaken => absurd hf htaken, fun _ _ => id⟩

/-- An allocation of some bytes below the limit. -/
theorem HeapInv.setup_kmalloc (env : BootEnv) (hi : HeapInv h live) (size : Nat) (hpos : size ≠ 0)
    (hsize : size < 2 ^ 63)
    (hroom : h.heapEnd + 4096 * growPages size ≤ kheapStart + kheapMaxSize) :
    ∃ h' p, TunaOs.kmalloc h size = some (h', p) ∧ p ≠ 0 ∧ HeapInv h' ((p, size) :: live) ∧
      SettledKept h.mem h'.mem live ∧ Setup env (growPages size) h h' := by
  obtain ⟨h', p, hk, hne, hi', hkept⟩ := hi.kmalloc_room hpos hsize hroom
  exact ⟨h', p, hk, hne, hi', hkept, .kmalloc hi hsize hk⟩

/-- The test gives back what it allocates. -/
theorem kmallocSelfTest_spec (env : BootEnv) (hi : HeapInv h live)
    (hroom : h.heapEnd + 4096 * 3 ≤ kheapStart + kheapMaxSize) :
    ∃ h', kmallocSelfTest h = some h' ∧ HeapInv h' live ∧ SettledKept h.mem h'.mem live ∧
      Setup env 3 h h' := by
  have hpages : growPages 64 = 1 ∧ growPages 128 = 1 ∧ growPages 32 = 1 := by decide
  obtain ⟨h₁, a, hk₁, ha, hi₁, hkept₁, hs₁⟩ := hi.setup_kmalloc env 64 (by decide)
    (by decide) (by omega)
  have hend₁ := hs₁.heapEnd
  obtain ⟨h₂, b, hk₂, hb, hi₂, hkept₂, hs₂⟩ := hi₁.setup_kmalloc env 128 (by decide)
    (by decide) (by omega)
  have hend₂ := hs₂.heapEnd
  -- the stores to `a` and `b`
  obtain ⟨hi₃, hkept₃⟩ := hi₂.write_pair ((h₂.mem.store a 8 0xDEADBEEF).store b 8 0xCAFEBABE)
    fun x hxb hxa => by rw [Mem.store_other (by omega), Mem.store_other (by omega)]
  obtain ⟨m₄, hk₄, hi₄, hkept₄⟩ := (hi₃.perm (List.Perm.swap _ _ _)).kfree_settled
  obtain ⟨h₅, c, hk₅, hc, hi₅, hkept₅, hs₅⟩ := hi₄.setup_kmalloc env 32 (by decide)
    (by decide) (by simp only [Heap.withMem_heapEnd]; omega)
  obtain ⟨m₆, hk₆, hi₆, hkept₆⟩ := (hi₅.perm (List.Perm.swap _ _ _)).kfree_settled
  obtain ⟨m₇, hk₇, hi₇, hkept₇⟩ := hi₆.kfree_settled
  have hrun : kmallocSelfTest h = some ((h₅.withMem m₆).withMem m₇) := by
    simp only [kmallocSelfTest, hk₁, hk₂, Option.bind_eq_bind, Option.bind_some,
      if_pos (And.intro ha hb), hk₄, hk₅, hk₆, hk₇]
  have hone : ∀ e : Nat × Nat, ∀ x ∈ live, x ∈ e :: live := fun _ _ => List.mem_cons_of_mem _
  refine ⟨_, hrun, hi₇, ?_, ?_⟩
  · exact hkept₁.trans ((hkept₂.mono (hone _)).trans (hkept₃.trans ((hkept₄.mono (hone _)).trans
      ((hkept₅.mono (hone _)).trans ((hkept₆.mono (hone _)).trans hkept₇)))))
  · have hs := (((hs₁.trans hs₂).trans (.write _)).trans (.kfree hk₄)).trans
      ((hs₅.trans (.kfree hk₆)).trans (.kfree hk₇))
    rw [hpages.1, hpages.2.1, hpages.2.2] at hs
    exact hs

/-- `ramfs_create` of a file with contents, below the limit. -/
theorem Ramfs.create_setup (env : BootEnv) {R : Ramfs (Mach Pmm)} {name data : Nat}
    {s bytes : List UInt8} (hinv : HeapInv R.heap live) (hlist : R.fileList < 2 ^ 64)
    (hargs : StoreArgs R.heap.mem live name data size s bytes) (hpos : size ≠ 0)
    (hroom : R.heap.heapEnd + 4096 * (1 + growPages size) ≤ kheapStart + kheapMaxSize) :
    ∃ R' f, R.create name data size = some (R', f) ∧ f ≠ 0 ∧
      SettledKept R.heap.mem R'.heap.mem live ∧ Setup env (1 + growPages size) R.heap R'.heap := by
  have hnode : growPages ramfsFileSize = 1 := by decide
  obtain ⟨h₁, f, hk₁, hf, hi₁, -, hs₁⟩ := hinv.setup_kmalloc env ramfsFileSize
    (by decide) (by decide) (by omega)
  have hend₁ := hs₁.heapEnd
  -- the copy of the name stays in the node
  obtain ⟨hi₂, -⟩ := hi₁.write_head (Ramfs.copyName f name (ramfsNameMax - 1) 0 h₁.mem)
    fun x hx => Ramfs.copyName_other _ _ _ (by
      simp only [ramfsFileSize, ramfsNameMax] at hx ⊢
      omega)
  obtain ⟨h₃, d, hk₃, hd, -, -, hs₃⟩ := hi₂.setup_kmalloc env size hpos hargs.size_lt
    (by simp only [Heap.withMem_heapEnd]; omega)
  have hrun : R.create name data size = some
      (⟨h₃.withMem (setFileNext (setFileSize (Ramfs.copyData d data size
        (setFileData h₃.mem f d)) f size) f R.fileList), f⟩, f) := by
    simp only [Ramfs.create, hk₁, if_neg hf, hk₃, if_neg hd]
  refine ⟨_, f, hrun, hf, ?_, ?_⟩
  · rcases Ramfs.create_spec hinv hlist hargs with ⟨h', hc, -⟩ | ⟨h', f', d', hc, -, -, hkept, -⟩
    · exact absurd (Prod.mk.inj (Option.some.inj (hrun.symm.trans hc))).2 hf
    · obtain ⟨heq, -⟩ := Prod.mk.inj (Option.some.inj (hrun.symm.trans hc))
      rw [heq]
      exact hkept
  · rw [hnode] at hs₁
    exact (hs₁.trans (.write _)).trans (hs₃.trans (.write _))

end

/-! ## The files by value -/

section

variable {m : Mem}

theorem stringAt_eq : ∀ {s : List UInt8} {a fuel : Nat}, HoldsStr m a s → s.length < fuel →
    stringAt m fuel a = some s
  | [], _, fuel + 1, hs, _ => by rw [stringAt, if_pos (holdsStr_nil.mp hs)]
  | c :: s, a, fuel + 1, hs, hlen => by
      obtain ⟨hc, hne, hs'⟩ := holdsStr_cons.mp hs
      rw [stringAt, hc, if_neg hne, stringAt_eq hs' (Nat.lt_of_succ_lt_succ hlen)]
      rfl

/-- The image of a file's bytes. -/
def program (bytes : List UInt8) : Image := ⟨Mem.ofBytes 0 bytes, bytes.length⟩

/-- A file in memory is a copy. -/
theorem FileAt.copied {f : StoredFile} {next : Nat} (h : FileAt m f next) :
    (program f.bytes).Copied (fileImage m f.node) := by
  refine ⟨h.size, fun i hi => ?_⟩
  have himage := Mem.holds_iff.mp (Mem.holds_ofBytes 0 f.bytes) i hi
  rw [Nat.zero_add] at himage
  rw [fileImage, h.data]
  exact (Mem.holds_iff.mp h.bytes i hi).trans himage.symm

theorem Ramfs.filesFrom_eq {files : List StoredFile} {fuel p : Nat} (hlinked : Linked m files p)
    (hne : ∀ f ∈ files, f.node ≠ 0) (hlen : files.length < fuel) :
    Ramfs.filesFrom m fuel p = some (files.map fun f => ⟨f.name, fileImage m f.node⟩) := by
  induction files generalizing p fuel with
  | nil =>
      obtain ⟨fuel, rfl⟩ := Nat.exists_eq_succ_of_ne_zero (Nat.ne_of_gt hlen)
      have hp : p = 0 := hlinked
      rw [Ramfs.filesFrom, if_pos hp]
      rfl
  | cons f files ih =>
      obtain ⟨fuel, rfl⟩ := Nat.exists_eq_succ_of_ne_zero (Nat.ne_of_gt (Nat.zero_lt_of_lt hlen))
      obtain ⟨rfl, next, hf, hrest⟩ := hlinked
      rw [Ramfs.filesFrom, if_neg (hne f List.mem_cons_self), stringAt_eq hf.name hf.short, hf.next,
        ih hrest (fun g hg => hne g (List.mem_cons_of_mem _ hg)) (Nat.lt_of_succ_lt_succ hlen)]
      rfl

end

/-! ## The stages together -/

/-- The names and the programs are in the kernel image, which ends below the heap. -/
structure Embedded.In (e : Embedded) (env : BootEnv) (hello shell : List UInt8) : Prop where
  helloName : HoldsStr env.heapMem e.helloName (text "hello.elf")
  shellName : HoldsStr env.heapMem e.shellName (text "shell.elf")
  helloBytes : Holds env.heapMem e.helloStart hello
  helloEnd : e.helloEnd = e.helloStart + hello.length
  shellBytes : Holds env.heapMem e.shellStart shell
  shellEnd : e.shellEnd = e.shellStart + shell.length
  names_le : e.helloName + 10 ≤ env.image.stop ∧ e.shellName + 10 ≤ env.image.stop
  programs_le : e.helloEnd ≤ env.image.stop ∧ e.shellEnd ≤ env.image.stop
  image_le : env.image.stop ≤ kheapStart

/-- The pages that `kernel_main` adds to the heap, at most. -/
def setupPages (hello shell : List UInt8) : Nat :=
  5 + growPages hello.length + growPages shell.length

/-- Arguments of `ramfs_create` from below the heap. -/
theorem storeArgs_below {m m' : Mem} (live : List (Nat × Nat)) {live' : List (Nat × Nat)}
    {name data : Nat} {s bytes : List UInt8} (hkept : SettledKept m m' live')
    (hname : HoldsStr m name s) (hdata : Holds m data bytes)
    (hn : name + (s.length + 1) ≤ kheapStart) (hd : data + bytes.length ≤ kheapStart) :
    StoreArgs m' live name data bytes.length s bytes := by
  have hsame : ∀ x, x < kheapStart → m' x = m x := fun x hx => hkept x (Or.inl hx)
  refine ⟨hname.congr fun x _ hx => hsame x (by omega), fun x _ hx => Or.inl (by omega),
    hdata.congr fun x _ hx => hsame x (by omega), rfl, ?_, fun x _ hx => Or.inl (by omega)⟩
  simp only [kheapStart] at hd
  omega

/-- `kheap_init` writes in the range of the heap. -/
theorem BootEnv.boot_settled (env : BootEnv) : SettledKept env.heapMem env.boot.heap.mem [] := by
  intro x hx
  have hout : x < kheapStart ∨ kheapStart + 16 ≤ x := by
    rcases hx with hx | hx | ⟨_, _, hmem, -⟩
    · exact Or.inl hx
    · simp only [kheapMaxSize] at hx
      omega
    · cases hmem
  exact newBlock_other hout

/-- The file store after the two calls of `ramfs_create`. -/
structure Stored (env : BootEnv) (e : Embedded) (hello shell : List UInt8)
    (R : Ramfs (Mach Pmm)) (helloFile shellFile : StoredFile) : Prop where
  created : ∃ heap R₁ p q, kmallocSelfTest env.boot.heap = some heap ∧
    (Ramfs.init heap).create e.helloName e.helloStart (e.helloEnd - e.helloStart) = some (R₁, p) ∧
    R₁.create e.shellName e.shellStart (e.shellEnd - e.shellStart) = some (R, q)
  inv : (⟨R, [shellFile, helloFile], []⟩ : RamfsHistory (Mach Pmm)).Inv
  helloFile : helloFile.name = text "hello.elf" ∧ helloFile.bytes = hello
  shellFile : shellFile.name = text "shell.elf" ∧ shellFile.bytes = shell
  shellName : HoldsStr R.heap.mem e.shellName (text "shell.elf")
  setup : Setup env (setupPages hello shell) env.boot.heap R.heap

section

variable {env : BootEnv} {e : Embedded} {hello shell : List UInt8}

theorem Embedded.In.stored (hin : e.In env hello shell) (hhello : hello ≠ []) (hshell : shell ≠ [])
    (hroom : kheapInitialSize + 4096 * setupPages hello shell ≤ kheapMaxSize) :
    ∃ R helloFile shellFile, Stored env e hello shell R helloFile shellFile := by
  have hpos : hello.length ≠ 0 ∧ shell.length ≠ 0 :=
    ⟨fun h => hhello (List.length_eq_zero_iff.mp h), fun h => hshell (List.length_eq_zero_iff.mp h)⟩
  have hlen : (text "hello.elf").length = 9 ∧ (text "shell.elf").length = 9 := by decide
  have hkept : keptName (text "hello.elf") = text "hello.elf" ∧
      keptName (text "shell.elf") = text "shell.elf" := by decide
  have hnames := hin.names_le
  have hprograms := hin.programs_le
  have himage := hin.image_le
  have hhelloEnd := hin.helloEnd
  have hshellEnd := hin.shellEnd
  have hboot := env.boot_heapEnd
  simp only [setupPages, kheapInitialSize, kheapMaxSize] at hroom
  -- the test of the heap
  obtain ⟨heap, htest, hi₀, hk₀, hs₀⟩ := kmallocSelfTest_spec (h := env.boot.heap) env
    (heapInv_kheapInit env.heapMem (vmmInit env.start).2)
    (by simp only [kheapStart, kheapMaxSize]; omega)
  have hend₀ := hs₀.heapEnd
  have hk₀' : SettledKept env.heapMem heap.mem [] := env.boot_settled.trans hk₀
  -- `hello.elf`
  have hinv₀ : (⟨Ramfs.init heap, [], []⟩ : RamfsHistory (Mach Pmm)).Inv := ⟨hi₀, rfl⟩
  have hargs₁ := storeArgs_below [] hk₀' hin.helloName hin.helloBytes (by omega)
    (by omega)
  obtain ⟨R₁, p, hc₁, hp, hk₁, hs₁⟩ := Ramfs.create_setup env hinv₀.heap hinv₀.fileList_lt hargs₁
    hpos.1
    (by simp only [Ramfs.init, kheapStart, kheapMaxSize]; omega)
  have hend₁ := hs₁.heapEnd
  have hinv₁ := hinv₀.create hargs₁ hc₁ hp
  -- `shell.elf`
  have hk₁' : SettledKept env.heapMem R₁.heap.mem [] := hk₀'.trans hk₁
  have hargs₂ := fun live => storeArgs_below live hk₁' hin.shellName hin.shellBytes (by omega)
    (by omega)
  obtain ⟨R₂, q, hc₂, hq, hk₂, hs₂⟩ := Ramfs.create_setup env hinv₁.heap hinv₁.fileList_lt
    (hargs₂ _) hpos.2
    (by simp only [Ramfs.init, kheapStart, kheapMaxSize] at hend₁ ⊢; omega)
  have hinv₂ := hinv₁.create (hargs₂ _) hc₂ hq
  rw [hkept.1, hkept.2] at hinv₂
  refine ⟨R₂, _, _, ?_, hinv₂, ⟨rfl, rfl⟩, ⟨rfl, rfl⟩, ?_, ?_⟩
  · refine ⟨heap, R₁, p, q, htest, ?_, ?_⟩
    · rw [hhelloEnd, Nat.add_sub_cancel_left]
      exact hc₁
    · rw [hshellEnd, Nat.add_sub_cancel_left]
      exact hc₂
  · exact hin.shellName.congr fun x _ hx =>
      (hk₂ x (Or.inl (by omega))).trans (hk₁' x (Or.inl (by omega)))
  · have hpages : setupPages hello shell
        = 3 + (1 + growPages hello.length) + (1 + growPages shell.length) := by
      rw [setupPages]
      omega
    rw [hpages]
    exact (hs₀.trans hs₁).trans hs₂

/-- The state of the system calls when the shell is started. -/
def shellServices (hello shell : Image) : Services :=
  { initialServices with
    files := [⟨text "shell.elf", shell⟩, ⟨text "hello.elf", hello⟩], shellElf := some shell }

variable {R : Ramfs (Mach Pmm)} {helloFile shellFile : StoredFile}

theorem Stored.list (h : Stored env e hello shell R helloFile shellFile) (stack : Mem) :
    R.list stack = some (serialWrite
      (listing [(text "shell.elf", shell.length), (text "hello.elf", hello.length)])) := by
  have hlist := h.inv.sysListfiles stack
  simp only [List.map_cons, List.map_nil, StoredFile.listed, h.helloFile.1, h.helloFile.2,
    h.shellFile.1, h.shellFile.2] at hlist
  rw [Ramfs.sysListfiles] at hlist
  cases hout : R.list stack with
  | none =>
      rw [hout] at hlist
      cases hlist
  | some out =>
      rw [hout] at hlist
      exact congrArg some (Prod.mk.inj (Option.some.inj hlist)).1

/-- `ramfs_find` finds the shell. -/
theorem Stored.find (h : Stored env e hello shell R helloFile shellFile) :
    R.find e.shellName = some shellFile.node ∧ shellFile.node ≠ 0 := by
  obtain ⟨p, hfind, hfound⟩ := h.inv.find h.shellName
  have hnew : newest [shellFile, helloFile] (text "shell.elf") = some shellFile :=
    List.find?_cons_of_pos (by rw [h.shellFile.1]; exact decide_eq_true rfl)
  rw [hnew] at hfound
  obtain ⟨rfl, hne, -⟩ := hfound
  exact ⟨hfind, hne⟩

theorem Stored.files (h : Stored env e hello shell R helloFile shellFile) :
    Ramfs.filesFrom R.heap.mem R.heap.walkFuel R.fileList
      = some [⟨text "shell.elf", fileImage R.heap.mem shellFile.node⟩,
          ⟨text "hello.elf", fileImage R.heap.mem helloFile.node⟩] := by
  have hfiles := Ramfs.filesFrom_eq h.inv.linked (fun f hf => (h.inv.node_bounds hf).1)
    h.inv.length_lt
  rw [List.map_cons, List.map_cons, List.map_nil, h.shellFile.1, h.helloFile.1] at hfiles
  exact hfiles

/-- The files are copies of what is linked into the kernel. -/
theorem Stored.copied (h : Stored env e hello shell R helloFile shellFile) :
    (program hello).Copied (fileImage R.heap.mem helloFile.node) ∧
      (program shell).Copied (fileImage R.heap.mem shellFile.node) := by
  obtain ⟨_, hhello⟩ := h.inv.linked.fileAt (f := helloFile)
    (List.mem_cons_of_mem _ List.mem_cons_self)
  obtain ⟨_, hshell⟩ := h.inv.linked.fileAt (f := shellFile) List.mem_cons_self
  have h₁ := hhello.copied
  have h₂ := hshell.copied
  rw [h.helloFile.2] at h₁
  rw [h.shellFile.2] at h₂
  exact ⟨h₁, h₂⟩

theorem Stored.kernelMain (h : Stored env e hello shell R helloFile shellFile) (stack : Mem) :
    kernelMain env e stack = some
      (serialWrite (listing [(text "shell.elf", shell.length), (text "hello.elf", hello.length)]),
        ⟨R.heap.withEnv (usermodeExecElf (fileImage R.heap.mem shellFile.node) R.heap.env).2,
          shellServices (fileImage R.heap.mem helloFile.node)
            (fileImage R.heap.mem shellFile.node)⟩,
        (usermodeExecElf (fileImage R.heap.mem shellFile.node) R.heap.env).1) := by
  obtain ⟨heap, R₁, p, q, htest, hc₁, hc₂⟩ := h.created
  obtain ⟨hfind, hne⟩ := h.find
  rw [TunaOs.kernelMain, htest, Option.bind_eq_bind, Option.bind_some, hc₁, Option.bind_eq_bind,
    Option.bind_some]
  dsimp only
  rw [hc₂, Option.bind_eq_bind, Option.bind_some]
  dsimp only
  rw [h.list stack, hfind, h.files]
  simp only [Option.bind_eq_bind, Option.bind_some, if_pos hne]
  generalize usermodeExecElf (fileImage R.heap.mem shellFile.node) R.heap.env = r
  cases r with
  | mk iret M => rfl

/-- Pointers that are physical addresses do not fault. -/
theorem BootEnv.Reaches.faultless {k : Kernel Pmm} (hk : env.Reaches SetupStep k)
    (hbus : env.bus = .phys) : k.mach.bus = .phys ∧ k.mach.fault = false := by
  refine hk.invariant (I := fun k => k.mach.bus = .phys ∧ k.mach.fault = false) ?_
    fun k op k' hcalm hs hC => ?_
  · rw [env.boot_mach]
    exact primitive_faultless.kheapMapPages _ _ _ (primitive_faultless.vmmInit _ ⟨hbus, rfl⟩)
  · cases hs with
    | kmalloc hm =>
        exact kmalloc_env (Q := fun M _ => M.bus = .phys ∧ M.fault = false)
          (fun M _ _ hM => primitive_faultless.kheapMapPages _ _ M hM) hm hcalm
    | kfree hf =>
        rw [Kernel.mach, (kfree_env hf).1]
        exact hcalm
    | heapMem => exact hcalm
    | addFile => exact hcalm
    | setShellElf => exact hcalm
    | usermode =>
        exact primitive_faultless.toClosed.usermodeExecElf (primitive_faultless.elfLoad _)
          (primitive_faultless.mapStack _ _) _ hcalm
    | user => exact hC.elim
    | syscall => exact hC.elim

/-- The kernel when `usermode_exec_elf` is called is one of the set up ones. -/
theorem Stored.reaches (h : Stored env e hello shell R helloFile shellFile) (img img' : Image) :
    env.Reaches SetupStep ⟨R.heap, shellServices img' img⟩ := by
  have hheap := h.setup.reaches initialServices (.boot env SetupStep)
  have hhello := hheap.next (.addFile (f := ⟨text "hello.elf", img'⟩)) trivial
  have hshell := hhello.next (.addFile (f := ⟨text "shell.elf", img⟩)) trivial
  have hset := hshell.next (@KernelStep.setShellElf _ _ _ img) trivial
  exact hset

/-- What is there when the two files have been created. -/
theorem Stored.ready (h : Stored env e hello shell R helloFile shellFile) (hbus : env.bus = .phys)
    {n : Nat} (hplenty : Plenty env.start.frames (21 + 4 * setupPages hello shell + n)) :
    Ready (FrameSource.avail env.start.frames) n R.heap.env := by
  rw [Nat.add_assoc, Nat.add_comm (4 * _)] at hplenty
  obtain ⟨h21, hrest⟩ := (plenty_add ..).mp hplenty
  obtain ⟨hboot, hoom, -⟩ := env.boot_enough hbus h21
  rw [Kernel.mach] at hboot hoom
  rw [← hboot] at hrest
  obtain ⟨hframes, hoom'⟩ := h.setup.supply n hrest
  have hend : R.heap.env.oom = false := hoom'.trans hoom
  have hreach := h.setup.reaches initialServices (.boot env SetupStep)
  refine ⟨?_, (hreach.faultless hbus).2, hend, hframes⟩
  rcases hreach.rooted_or_bare hbus with hr | hb
  · exact hr
  · exact absurd (hb.oom.symm.trans hend) (by decide)

end

section

variable {prog img : Image} {A : Nat → Prop} {M : Mach Pmm} {c : Nat}

end

end TunaOs
