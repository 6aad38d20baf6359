import TunaOs.Kernel.Identity

/-!
# The heap and its pages

`kheap_map_region` returns nothing, and so does `vmm_map_page`.  When there is no
frame for a page, or for a table above it, `kheap_expand` does not hear of it: it
writes the header and moves `heap_end` all the same.

As long as frames suffice whenever the heap grows, every page of the heap is mapped
and may be written (`heap_mapped`).  The invariant has the chain in it, because the
block that `kmalloc` returns is in the heap only if the chain is in order.  Steps
that keep this are `HeapUse`: before a call of `kmalloc` there are the frames that the growth
takes, clients write to their own blocks, free live pointers once, and no program is mapped
over the heap.  The stores of `kheap.c` are not translated in the model, so `MappedCall` asks that
what they change is in mapped pages.  In `heapBlock_unmapped` the frames do not suffice, and
`kmalloc` returns a block without pages, with no store outside mapped ones.
-/

namespace TunaOs

open FrameSource (avail)

section

variable {σ : Type} [FrameSource σ] {A P : Nat → Prop} {M M' : Mach σ}

/-! ## Writable pages -/

/-- The address is mapped, and it may be written. -/
def Mach.Writable (M : Mach σ) (a : Nat) : Prop := ∃ t, M.translate a = some t ∧ t.write = true

/-- The same of the leaf entry. -/
def Mach.WritableLeaf (M : Mach σ) (a : Nat) : Prop :=
  (M.leaf a).testBit 0 = true ∧ (M.leaf a).testBit 1 = true

theorem Rooted.writable (h : Rooted A M) {a : Nat} (ha : M.WritableLeaf a) : M.Writable a :=
  ⟨_, (h.translate a).trans (if_pos ha.1), ha.2⟩

/-- `vmm_map_page` for the kernel makes a page writable, if it does not run out of
frames, and takes this right from no page. -/
theorem vmmMapPage_writable {virt phys : Nat} (hinv : VmInv M) (hp : phys < 2 ^ 64)
    (hM' : (vmmMapPage virt phys kernelFlags M).2 = M') :
    (∀ a, M.WritableLeaf a → M'.WritableLeaf a) ∧
      (M'.oom = false → ∀ a, pageOf a = pageOf virt → M'.WritableLeaf a) := by
  obtain ⟨-, -, -, ⟨hoom, -, hleaf⟩ | ⟨-, -, hleaf⟩⟩ := vmmMapPage_spec hinv (by decide) hp hM'
  · refine ⟨fun a ha => ?_, fun h => ?_⟩
    · rw [Mach.WritableLeaf, hleaf a]
      exact ha
    · rw [hoom] at h
      cases h
  · have hnew : ∀ a, pageOf a = pageOf virt → M'.WritableLeaf a := by
      intro a ha
      rw [Mach.WritableLeaf, hleaf a, if_pos ha]
      exact ⟨testBit_or_right (by decide), testBit_or_right (by decide)⟩
    refine ⟨fun a ha => ?_, fun _ => hnew⟩
    by_cases hav : pageOf a = pageOf virt
    · exact hnew a hav
    · rw [Mach.WritableLeaf, hleaf a, if_neg hav]
      exact ha

/-- The loop of `kheap_map_region`. -/
theorem kheapMapPages_writable : ∀ (n virt : Nat) {M M' : Mach σ}, VmInv M →
    (kheapMapPages n virt M).2 = M' →
    (∀ a, M.WritableLeaf a → M'.WritableLeaf a) ∧
      (M'.oom = false → ∀ j, j < n → ∀ a, pageOf a = pageOf (virt + 4096 * j) →
        M'.WritableLeaf a)
  | 0, _, M, _, _, rfl => ⟨fun _ h => h, fun _ j hj => absurd hj (Nat.not_lt_zero j)⟩
  | n + 1, virt, M, M', hinv, hM' => by
      simp only [kheapMapPages, Act.bind_apply] at hM'
      obtain ⟨-, ⟨h0, -, hg, -, ho⟩ | ⟨h0, hhand⟩⟩ := allocFrame_spec (fun _ => False) hinv
      · rw [if_pos h0] at hM'
        subst hM'
        refine ⟨fun a ha => ?_, fun hoom => absurd (ho.symm.trans hoom) (by decide)⟩
        rw [Mach.WritableLeaf, Act.pure_apply, hg.leaf a id]
        exact ha
      · rw [if_neg h0, Act.bind_apply, Act.bind_apply] at hM'
        generalize (allocFrame M).1 = f at hhand hM'
        generalize (allocFrame M).2 = N at hhand hM'
        obtain ⟨-, -, hf64⟩ := FrameSource.avail_frame hhand.drawn
        have hnote : VmInv (noteHeapFrame f N).2 :=
          ⟨hhand.inv.bus, hhand.inv.tables, hhand.inv.fresh⟩
        generalize hM₁ : (vmmMapPage virt f kernelFlags (noteHeapFrame f N).2).2 = M₁ at hM'
        obtain ⟨hinv₁, -, -, -, -⟩ := mapHeapPage_spec virt hhand hM₁
        obtain ⟨hkeep₁, hnew₁⟩ := vmmMapPage_writable hnote (by omega) hM₁
        obtain ⟨hkeep, hnew⟩ := kheapMapPages_writable n _ hinv₁ hM'
        have hfirst : ∀ a, M.WritableLeaf a → M₁.WritableLeaf a := by
          intro a ha
          refine hkeep₁ a ?_
          have hN : N.WritableLeaf a := by
            rw [Mach.WritableLeaf, hhand.grows.leaf a id]
            exact ha
          exact hN
        refine ⟨fun a ha => hkeep a (hfirst a ha), fun hoom j hj a ha => ?_⟩
        cases j with
        | zero =>
            obtain ⟨-, hg, -, -⟩ := kheapMapPages_spec n _ hinv₁ hM'
            exact hkeep a (hnew₁ (hg.oom hoom) a ha)
        | succ j =>
            refine hnew hoom j (by omega) a (ha.trans ?_)
            rw [pageOf_wrap64, Nat.mul_succ, Nat.add_comm (4096 * j), Nat.add_assoc]

/-- `kheap_map_region` on whole pages. -/
theorem kheapMapRegion_writable {start size : Nat} (hstart : start % 4096 = 0) (hinv : VmInv M)
    (hM' : (kheapMapRegion start size M).2 = M') :
    (∀ a, M.WritableLeaf a → M'.WritableLeaf a) ∧
      (M'.oom = false → ∀ a, start ≤ a → a < start + size → M'.WritableLeaf a) := by
  obtain ⟨hkeep, hnew⟩ := kheapMapPages_writable ((size + 4095) / 4096) start hinv hM'
  refine ⟨hkeep, fun hoom a h1 h2 => hnew hoom ((a - start) / 4096) (by omega) a ?_⟩
  simp only [pageOf]
  omega

/-- `kmalloc` takes the right to write from no page, and the pages it adds to the
heap have it if frames do not run out. -/
theorem kmalloc_writable {h h' : Heap (Mach σ)} {size p : Nat} (hinv : VmInv h.env)
    (halign : h.heapEnd % 4096 = 0) (hm : kmalloc h size = some (h', p)) :
    (∀ a, h.env.WritableLeaf a → h'.env.WritableLeaf a) ∧
      (h'.env.oom = false → ∀ a, h.heapEnd ≤ a → a < h'.heapEnd → h'.env.WritableLeaf a) := by
  have hrun := kmalloc_env
    (Q := fun M e => VmInv M ∧ e % 4096 = 0 ∧ (∀ a, h.env.WritableLeaf a → M.WritableLeaf a) ∧
      (M.oom = false → ∀ a, h.heapEnd ≤ a → a < e → M.WritableLeaf a)) ?_ hm
    ⟨hinv, halign, fun _ ha => ha, fun _ a h1 h2 => absurd h1 (Nat.not_le.mpr h2)⟩
  · exact hrun.2.2
  · rintro M e - ⟨hi, he, hkeep, hnew⟩
    have hmod := expandSize_mod (requestSize size)
    generalize expandSize (requestSize size) = x at hmod
    have hmap : (kheapMapRegion e x M).2 = HeapBacking.mapRegion M e x := rfl
    obtain ⟨hi', hg, -, -⟩ := kheapMapRegion_spec he hi hmap
    obtain ⟨hkeep', hnew'⟩ := kheapMapRegion_writable he hi hmap
    refine ⟨hi', ?_, fun a ha => hkeep' a (hkeep a ha), fun hoom a h1 h2 => ?_⟩
    · simp only [Word.wrap64]
      omega
    · by_cases hold : a < e
      · exact hkeep' a (hnew (hg.oom hoom) a h1 hold)
      · exact hnew' hoom a (Nat.le_of_not_lt hold) (Nat.lt_of_lt_of_le h2 (Nat.mod_le _ _))

/-! ## Using the heap -/

omit [FrameSource σ] in
theorem HeapRep.withEnv {h : Heap (Mach σ)} {bs : List Block} (hr : HeapRep h bs) (M : Mach σ) :
    HeapRep (h.withEnv M) bs := ⟨hr.start, hr.chain, hr.sized, hr.low, hr.high⟩

/-- The pointer is that of a used block. -/
def Heap.Live (h : Heap (Mach σ)) (p : Nat) : Prop :=
  ∃ pre size post, HeapRep h (pre ++ ⟨size, false⟩ :: post) ∧
    p = h.heapStart + span pre + headerSize

/-- The heap is written through its blocks only. -/
def Heap.KeepsChain (h : Heap (Mach σ)) (m : Mem) : Prop :=
  ∀ bs, HeapRep h bs → HeapRep (h.withMem m) bs

end

/-- Clients use the heap as they should, there are frames for it to grow, and no program
is mapped over it. -/
def HeapUse : StepCond
  | k, .kmalloc size, _ => size < 2 ^ 63 ∧ Plenty k.mach.frames (k.heap.growthCost size)
  | k, .kfree p, _ => p = 0 ∨ k.heap.Live p
  | k, .heapMem m, _ => k.heap.KeepsChain m
  | k, op, k' => HeapApart k op k'

theorem busFree_heapUse : BusFree HeapUse := by
  intro k k' op b h
  cases op with
  | kfree p =>
      refine h.imp id ?_
      rintro ⟨pre, size, post, hr, hp⟩
      exact ⟨pre, size, post, hr.withEnv _, hp⟩
  | heapMem m => exact fun bs hr => (h bs (hr.withEnv k.mach)).withEnv _
  | kmalloc size =>
      obtain ⟨hsize, hplenty⟩ := h
      rw [← k.heap.growthCost_withBus b] at hplenty
      exact ⟨hsize, hplenty⟩
  | syscall frame input =>
      exact fun n hn => h n ((callPage_withBus k.services frame k.mach b n).mp hn)
  | _ => exact h

theorem sized_of_heapUse {k k' : Kernel Pmm} {op : KernelOp} (hC : HeapUse k op k') : op.Sized := by
  cases op with
  | kmalloc size => exact hC.1
  | _ => trivial

section

variable {σ : Type} [FrameSource σ] {A : Nat → Prop}

/-- Every page of the heap is mapped and may be written. -/
def Kernel.HeapMapped (k : Kernel σ) : Prop :=
  ∀ a, kheapStart ≤ a → a < k.heap.heapEnd → k.mach.Writable a

/-- The invariant of runs that use the heap well. -/
structure HeapSound (A : Nat → Prop) (k : Kernel σ) : Prop where
  rooted : Rooted A k.mach
  limits : HeapLimits k.heap.heapEnd
  chain : ∃ bs, HeapRep k.heap bs
  writable : ∀ a, kheapStart ≤ a → a < k.heap.heapEnd → k.mach.WritableLeaf a

theorem HeapSound.heapMapped {k : Kernel σ} (h : HeapSound A k) : k.HeapMapped :=
  fun a h1 h2 => h.rooted.writable (h.writable a h1 h2)

/-- A call of `kmalloc` that uses mapped memory only. -/
structure MappedCall (h : Heap (Mach σ)) (size : Nat) (h' : Heap (Mach σ)) (p : Nat) : Prop where
  /-- Every byte that is changed is in a mapped page. -/
  writes : ∀ x, h'.mem x ≠ h.mem x → h'.env.Writable x
  /-- So is the header that `kheap_expand` puts at the old end. -/
  header : h'.heapEnd ≠ h.heapEnd →
    ∀ x, h.heapEnd ≤ x → x < h.heapEnd + headerSize → h'.env.Writable x
  /-- So is the block that is returned. -/
  block : p ≠ 0 → ∀ x, p - headerSize ≤ x → x < p + size → h'.env.Writable x
  /-- Without a block nothing changes. -/
  null : p = 0 → h'.mem = h.mem ∧ h'.heapEnd = h.heapEnd

theorem HeapSound.kmalloc {k : Kernel σ} (h : HeapSound A k) {size p : Nat} {h' : Heap (Mach σ)}
    (hm : kmalloc k.heap size = some (h', p)) (hsize : size < 2 ^ 63)
    (hplenty : Plenty k.mach.frames (k.heap.growthCost size)) :
    HeapSound A { k with heap := h' } ∧ MappedCall k.heap size h' p := by
  obtain ⟨bs, hr⟩ := h.chain
  have hinv := h.rooted.isolated.inv
  obtain ⟨hrep, hmem, hblock, hnull⟩ := kmalloc_bounds hr hsize hm
  obtain ⟨-, hlim, hle, hg⟩ := kmalloc_grows hinv h.limits hsize hm
  obtain ⟨hkeep, -⟩ := kmalloc_writable hinv h.limits.aligned hm
  -- no request fails during the call
  have hsupply := kmalloc_supplied hinv h.limits
    ⟨fun _ => heapEnd_expand_lt h.limits.max hsize, hplenty⟩ hm
  have hinv0 : VmInv (k.heap.withEnv (k.heap.env.withOom false)).env :=
    ⟨hinv.bus, hinv.tables, hinv.fresh⟩
  obtain ⟨-, hnew⟩ := kmalloc_writable hinv0 h.limits.aligned hsupply
  have hleaf : ∀ a, kheapStart ≤ a → a < h'.heapEnd → h'.env.WritableLeaf a := by
    intro a h1 h2
    by_cases hold : a < k.heap.heapEnd
    · exact hkeep a (h.writable a h1 hold)
    · exact hnew rfl a (Nat.le_of_not_lt hold) h2
  have hroot : Rooted A h'.env := rooted_kept.kmalloc hm h.rooted
  have hwrite : ∀ a, kheapStart ≤ a → a < h'.heapEnd → h'.env.Writable a :=
    fun a h1 h2 => hroot.writable (hleaf a h1 h2)
  refine ⟨⟨hroot, hlim, hrep, hleaf⟩, ?_, ?_, ?_, ?_⟩
  · exact fun x hx => hwrite x (hmem x hx).1 (hmem x hx).2
  · intro hne x h1 h2
    have hlow := hr.low
    have hmod := h.limits.aligned
    have hmod' := hlim.aligned
    simp only [headerSize] at h2
    exact hwrite x (by omega) (by omega)
  · intro hp x h1 h2
    obtain ⟨hlow, hhigh⟩ := hblock hp
    exact hwrite x (by omega) (by omega)
  · intro hp
    rw [hnull hp]
    exact ⟨rfl, rfl⟩

theorem HeapSound.step {k k' : Kernel Pmm} {op : KernelOp} (h : HeapSound A k)
    (hs : KernelStep k op k') (hC : HeapUse k op k') : HeapSound A k' := by
  have hroot := rooted_kept.step h.rooted hs
  obtain ⟨hlim, hle, hleaf⟩ := hs.frame h.rooted.isolated h.limits (sized_of_heapUse hC)
  -- a step that does not touch the heap
  have hkeep : k'.heap.heapEnd = k.heap.heapEnd →
      (∀ n, op.Pages k k' n → ¬ k.HeapPage n) →
      ∀ a, kheapStart ≤ a → a < k'.heap.heapEnd → k'.mach.WritableLeaf a := by
    intro hend hpages a h1 h2
    rw [hend] at h2
    rw [Mach.WritableLeaf, hleaf a fun hp => hpages _ hp ⟨a, h1, h2, rfl⟩]
    exact h.writable a h1 h2
  have hno : ∀ n, False → ¬ k.HeapPage n := fun _ => False.elim
  cases hs with
  | kmalloc hm => exact (h.kmalloc hm hC.1 hC.2).1
  | kfree hf =>
      have hend := (kfree_env hf).2
      refine ⟨hroot, hlim, ?_, hkeep hend hno⟩
      rcases hC with rfl | ⟨pre, size, post, hr, rfl⟩
      · rw [kfree, if_pos rfl] at hf
        cases hf
        exact h.chain
      · obtain ⟨m', hfree, hr', -⟩ := kfree_spec hr
        rw [headerSize, hfree] at hf
        cases hf
        exact ⟨_, hr'⟩
  | heapMem =>
      obtain ⟨bs, hr⟩ := h.chain
      exact ⟨hroot, hlim, ⟨bs, hC bs hr⟩, hkeep rfl hno⟩
  | addFile => exact ⟨hroot, hlim, h.chain, hkeep rfl hno⟩
  | setShellElf => exact ⟨hroot, hlim, h.chain, hkeep rfl hno⟩
  | usermode => exact ⟨hroot, hlim, h.chain.imp fun _ hr => hr.withEnv _, hkeep rfl hC⟩
  | user => exact ⟨hroot, hlim, h.chain.imp fun _ hr => hr.withEnv _, hkeep rfl hno⟩
  | syscall => exact ⟨hroot, hlim, h.chain.imp fun _ hr => hr.withEnv _, hkeep rfl hC⟩

end

/-! ## Runs -/

/-- A boot that has its frames maps the heap. -/
theorem BootEnv.boot_heapSound {env : BootEnv} (hbus : env.bus = .phys)
    (hplenty : Plenty env.start.frames 21) : HeapSound (avail env.start.frames) env.boot := by
  have hoom := (env.boot_enough hbus hplenty).2.1
  have hroot := env.root_ne_zero hoom
  have hiso := Isolated.vmmInit hbus hroot rfl rfl (A := avail env.start.frames) fun _ h => h
  have hmap : (kheapMapRegion kheapStart kheapInitialSize (vmmInit env.start).2).2
      = env.boot.mach := env.boot_mach.symm
  obtain ⟨-, hnew⟩ := kheapMapRegion_writable (by decide) hiso.inv hmap
  exact ⟨BootEnv.boot_rooted hbus hroot, env.boot_heapEnd ▸ ⟨by decide, by decide⟩,
    ⟨_, heapRep_kheapInit _ _⟩, hnew hoom⟩

theorem BootEnv.Reaches.heapSound {env : BootEnv} (hbus : env.bus = .phys)
    (hplenty : Plenty env.start.frames 21) {k : Kernel Pmm} (hk : env.Reaches HeapUse k) :
    HeapSound (avail env.start.frames) k :=
  hk.invariant (BootEnv.boot_heapSound hbus hplenty) fun _ _ _ h hs hC => h.step hs hC

/-- In runs that use the heap well every page of it is mapped and may be written, and
`kmalloc` writes to such pages and returns such a block, or it changes nothing. -/
theorem heap_mapped {env : BootEnv} (hboot : Plenty env.start.frames 21) {k : Kernel Pmm}
    (hk : env.Reaches HeapUse k) :
    (env.bus = .phys ∨ k.mach.stray = false → k.HeapMapped) ∧
      ∀ size h p, kmalloc k.heap size = some (h, p) →
        size < 2 ^ 63 → Plenty k.mach.frames (k.heap.growthCost size) →
        env.bus = .phys ∨ h.env.stray = false → MappedCall k.heap size h p := by
  -- the same run on the bus `phys`
  have hframes : (env.onBus .phys).start.frames = env.start.frames := rfl
  have hrun : k.mach.stray = false →
      HeapSound (avail (env.onBus .phys).start.frames) (k.onBus .phys) := fun hstray =>
    (hk.onBus busFree_heapUse .phys hstray).heapSound rfl (hframes ▸ hboot)
  constructor
  · rintro (hbus | hstray)
    · exact (hk.heapSound hbus hboot).heapMapped
    · have hmapped := (hrun hstray).heapMapped
      exact hmapped
  · rintro size h p hm hsize hplenty (hbus | hstray)
    · exact ((hk.heapSound hbus hboot).kmalloc hm hsize hplenty).2
    · have hstep : KernelStep k (.kmalloc size) { k with heap := h } := .kmalloc hm
      obtain ⟨hstray0, -⟩ := hstep.onBus (b := .phys) hstray
      obtain ⟨N, hm', htwin⟩ := kmalloc_withEnv (R := fun M N => Twin .phys N M)
        (N := k.mach.withBus .phys)
        (fun M N e size h => (primitive_robust.kheapMapPages _ _).twin h) (fun _ => rfl) hm
      obtain rfl : N = h.env.withBus .phys := htwin hstray
      rw [← k.heap.growthCost_withBus .phys] at hplenty
      obtain ⟨hwrites, hheader, hblock, hnull⟩ := ((hrun hstray0).kmalloc hm' hsize hplenty).2
      exact ⟨hwrites, hheader, hblock, hnull⟩

theorem BootEnv.inOrder_boot (env : BootEnv) : env.boot.heap.InOrder :=
  (heapRep_kheapInit _ _).inOrder

/-- An allocation of 2 MiB right after boot, with enough memory. -/
theorem heap_mapped_roomy :
    roomyBoot.boot.HeapMapped ∧ ∃ h,
      kmalloc roomyBoot.boot.heap 0x200000 = some (h, kheapStart + 16)
      ∧ h.heapEnd = 0x411000 ∧ MappedCall roomyBoot.boot.heap 0x200000 h (kheapStart + 16) := by
  have hstart : Plenty roomyBoot.start.frames 21 :=
    roomyBoot.plenty (a := 0x110) fun f h1 h2 => usable_roomyBoot h1 (by omega)
  have hmapped := heap_mapped hstart (.boot roomyBoot _)
  obtain ⟨h, hm, hend, -⟩ := roomyBoot.kmalloc_boot 0x200000 (by decide) (by decide) (by decide)
  have hcost := roomyBoot.inOrder_boot.growthCost_le (show 0x200000 < 2 ^ 63 by decide)
  have hfew : 4 * (expandSize (requestSize 0x200000) / 4096) ≤ 0x3000 := by decide
  have hle := Nat.le_trans hcost hfew
  have hcall := hmapped.2 _ h _ hm (by decide)
  generalize roomyBoot.boot.heap.growthCost 0x200000 = n at hle hcall
  exact ⟨hmapped.1 (Or.inl rfl), h, hm, hend, hcall (oom_roomyBoot hle).1 (Or.inl rfl)⟩

/-! ## Too few frames -/

/-- Each page of the heap takes a frame, so with few frames few pages are mapped. -/
theorem kheapMapPages_few {σ : Type} [FrameSource σ] : ∀ (n virt : Nat) {M M' : Mach σ}
    (L : List Nat), VmInv M → (∀ f, avail M.frames f → f ∈ L) → (kheapMapPages n virt M).2 = M' →
    Grows (fun m => ∃ j, j < L.length ∧ m = pageOf (virt + 4096 * j)) M M'
  | 0, _, M, _, _, _, _, rfl => .refl M
  | n + 1, virt, M, M', L, hinv, hL, hM' => by
      simp only [kheapMapPages, Act.bind_apply] at hM'
      obtain ⟨-, ⟨h0, -, hg, -, -⟩ | ⟨h0, hhand⟩⟩ := allocFrame_spec (fun _ => False) hinv
      · rw [if_pos h0] at hM'
        subst hM'
        exact hg.mono fun _ => False.elim
      · rw [if_neg h0, Act.bind_apply, Act.bind_apply] at hM'
        -- the frame drawn is gone
        have hrest : ∀ f, avail (allocFrame M).2.frames f → f ∈ L.erase (allocFrame M).1 := by
          intro f hf
          obtain ⟨hf, hne⟩ := FrameSource.avail_alloc hf
          exact (List.mem_erase_of_ne hne).mpr (hL f hf)
        have hlen := List.length_erase_of_mem (hL _ hhand.drawn)
        have hpos := List.length_pos_of_mem (hL _ hhand.drawn)
        generalize (allocFrame M).1 = f at hhand hM' hrest hlen
        generalize (allocFrame M).2 = N at hhand hM' hrest
        generalize hM₁ : (vmmMapPage virt f kernelFlags (noteHeapFrame f N).2).2 = M₁ at hM'
        have hrest₁ : ∀ g, avail M₁.frames g → g ∈ L.erase f := by
          have hkeeps := (primitive_frames (I := fun s : σ => ∀ g, avail s g → g ∈ L.erase f)
            fun s hs g hg => hs g (FrameSource.avail_alloc hg).1).vmmMapPage virt f kernelFlags
          rw [← hM₁]
          exact hkeeps _ hrest
        obtain ⟨hinv₁, hg₁, -, -, -⟩ := mapHeapPage_spec virt hhand hM₁
        have hg := kheapMapPages_few n _ _ hinv₁ hrest₁ hM'
        refine (hg₁.mono ?_).trans hinv₁ (hg.mono ?_)
        · rintro m rfl
          exact ⟨0, hpos, rfl⟩
        · rintro m ⟨j, hj, rfl⟩
          refine ⟨j + 1, by omega, ?_⟩
          rw [pageOf_wrap64, Nat.mul_succ, Nat.add_comm (4096 * j), Nat.add_assoc]

theorem mapRegion_pages {σ : Type} [FrameSource σ] {M : Mach σ} {start size n : Nat}
    (h : (size + 4095) / 4096 = n) :
    HeapBacking.mapRegion M start size = (kheapMapPages n start M).2 := by
  subst h
  rfl

theorem root_smallBoot : (allocTable smallBoot.start).1 ≠ 0 :=
  (smallBoot.plenty (n := 1) (a := 0x110) fun _ h1 h2 => usable_smallBoot h1 (by omega)).allocTable

theorem frames_smallBoot {f : Nat} (hf : avail smallBoot.boot.mach.frames f) :
    f ∈ (List.range 100).map fun i => 0x110000 + 4096 * i := by
  have hkeeps := primitive_frames
    (I := fun s : Pmm => ∀ f, avail s f → f ∈ (List.range 100).map fun i => 0x110000 + 4096 * i)
    fun s hs g hg => hs g (FrameSource.avail_alloc hg).1
  rw [smallBoot.boot_mach] at hf
  exact hkeeps.kheapMapPages _ _ _ (hkeeps.vmmInit _ fun f hf => avail_smallBoot hf) f hf

/-- Pages for a heap that grows over identity-mapped pages, with few frames in a window: pages
that were there stay, those beyond the frames do not come, and no access strays. -/
theorem Windowed.kheapMapPages_few {A W : Nat → Prop} {k : Kernel Pmm} {N : Mach Pmm}
    {n virt : Nat} {L : List Nat} (h : Windowed A W k) (hfault : k.mach.fault = false)
    (hdrawn : ∀ f, avail k.mach.frames f → W f ∧ f ∈ L)
    (hspared : ∀ t, W t → ∀ j, j < n → pageOf t ≠ pageOf (virt + 4096 * j))
    {b : Bus} (hN : (kheapMapPages n virt (k.mach.withBus b)).2 = N) :
    N.stray = false ∧ N.fault = false ∧ (∀ a, k.mach.WritableLeaf a → N.Writable a)
      ∧ ∀ a, k.mach.leaf a = 0 → (∀ j, j < L.length → pageOf a ≠ pageOf (virt + 4096 * j)) →
          N.translate a = none := by
  obtain ⟨hM, -, htables, hwin, hcalm⟩ := h
  generalize k.mach = M at *
  have hinv := hM.isolated.inv
  generalize hN' : (kheapMapPages n virt M).2 = N'
  have hrooted := rooted_kept.kheapMapPages n virt M hM
  have hfault' := primitive_faultless.kheapMapPages n virt M ⟨hinv.bus, hfault⟩
  have hrobust := primitive_robust.kheapMapPages (σ := Pmm) n virt
  obtain ⟨-, hg, -, -⟩ := kheapMapPages_spec n virt hinv hN'
  have hfew := TunaOs.kheapMapPages_few n virt L hinv (fun f hf => (hdrawn f hf).2) hN'
  obtain ⟨hkeep, -⟩ := kheapMapPages_writable n virt hinv hN'
  have hstray : N'.stray = false := by
    refine (hg.calm W htables (fun f hf _ => (hdrawn f hf).1) (.inr fun t ht => ?_) hwin).trans
      hcalm
    rintro ⟨j, hj, hp⟩
    exact hspared t ht j hj hp
  have hagree := hrobust.agree M b (by rw [hN']; exact hstray)
  rw [hN'] at hrooted hfault' hagree
  obtain rfl : N'.withBus b = N := by rw [← hN, hagree]
  refine ⟨hstray, hfault'.2, fun a ha => hrooted.writable (hkeep a ha), fun a hzero hout => ?_⟩
  have htrans : (N'.withBus b).translate a = N'.translate a := rfl
  rw [htrans, hrooted.translate, hfew.leaf, hzero]
  · rfl
  · rintro ⟨j, hj, hp⟩
    exact hout j hj hp

/-- The page behind the heap is identity-mapped. -/
theorem writableLeaf_smallBoot {a : Nat} (h1 : 0x210000 ≤ a) (h2 : a < 0x210010) :
    smallBoot.boot.mach.WritableLeaf a := by
  obtain ⟨-, -, hident⟩ := BootEnv.boot_tables (show smallBoot.bus = .phys from rfl) root_smallBoot
  have hframe : frameOf a = 0x210 * 4096 := by
    simp only [frameOf]
    omega
  rw [Mach.WritableLeaf, ← Mach.leaf_frameOf, hframe,
    hident oom_smallBoot 0x210 (by decide) (by decide)]
  exact ⟨testBit_or_right (by decide), testBit_or_right (by decide)⟩

/-- The frames are below the heap. -/
theorem spared_smallBoot {t : Nat} (ht : avail smallBoot.start.frames t) (j : Nat)
    (hj : j < 0x200) : pageOf t ≠ pageOf (0x210000 + 4096 * j) := by
  obtain ⟨i, hi, rfl⟩ := List.mem_map.mp (avail_smallBoot ht)
  have hlt := List.mem_range.mp hi
  simp only [pageOf]
  omega

/-- With 100 frames, after a request for the whole heap, a request for 2 MiB is granted: all that
is written is in a mapped page, but the block returned reaches into pages that are not mapped. -/
theorem heapBlock_unmapped :
    ∃ k h, (smallBoot.onBus .mmu).Reaches HeapUse k
      ∧ kmalloc (smallBoot.onBus .mmu).boot.heap 0xFFF0 = some (k.heap, 0x200010)
      ∧ kmalloc k.heap 0x1FFFF0 = some (h, 0x210010) ∧ h.heapEnd = 0x410000
      ∧ h.env.stray = false ∧ h.env.fault = false
      ∧ (∀ x, h.mem x ≠ k.heap.mem x → h.env.Writable x)
      ∧ ∀ a, 0x400000 ≤ a → a < 0x210010 + 0x1FFFF0 → h.env.translate a = none := by
  have hboot := windowed_smallBoot
  obtain ⟨-, hzero, -⟩ := BootEnv.boot_tables (show smallBoot.bus = .phys from rfl) root_smallBoot
  have hmach := (BootEnv.boot_windowedTwin hboot .mmu).2
  -- the first request
  have hneed : requestSize 0xFFF0 = kheapInitialSize ∧ requestSize 0x1FFFF0 = 0x200000 := by decide
  have hr0 : HeapRep (smallBoot.onBus .mmu).boot.heap [⟨requestSize 0xFFF0, true⟩] := by
    rw [hneed.1]
    exact heapRep_kheapInit _ _
  obtain ⟨m, hm, hr⟩ := kmalloc_whole hr0 (by decide) (by decide)
  have hno : ¬ (smallBoot.onBus .mmu).boot.heap.Grows 0xFFF0 := fun hg =>
    ((hr0.grows_iff (by decide)).mp hg).2.1 _ List.mem_cons_self ⟨rfl, Nat.le_refl _⟩
  have hcost := Heap.growthCost_within hno
  have hreach := (BootEnv.Reaches.boot (smallBoot.onBus .mmu) HeapUse).next (.kmalloc hm)
    ⟨by decide, hcost ▸ trivial⟩
  -- the second
  have hend0 : ((smallBoot.onBus .mmu).boot.heap.withMem m).heapEnd = 0x210000 := by
    rw [Heap.withMem]
    exact (smallBoot.onBus .mmu).boot_heapEnd
  obtain ⟨h, hm', hend, henv, hwrites⟩ := kmalloc_behind hr (show 0x1FFFF0 ≠ 0 by decide)
    (by decide) (by decide) (by rw [hend0]; decide)
  rw [hend0] at hm' hwrites
  rw [hend0, hneed.2] at hend henv
  have henv0 : ∀ k : Kernel Pmm, (k.heap.withMem m).env = k.mach := fun _ => rfl
  rw [henv0, hmach, mapRegion_pages (n := 0x200) (by decide)] at henv
  obtain ⟨hstray, hfault, hwrite, hnone⟩ := hboot.kheapMapPages_few (BootEnv.boot_fault rfl)
    (fun f hf => ⟨hboot.rooted.isolated.origin f hf, frames_smallBoot hf⟩)
    (fun _ ht => spared_smallBoot ht) henv.symm
  refine ⟨_, h, hreach, hm, hm', hend, hstray, hfault, fun x hx => ?_, fun a h1 h2 => ?_⟩
  · -- only the header of the new block is written
    obtain ⟨h1, h2⟩ := hwrites x hx
    exact hwrite x (writableLeaf_smallBoot h1 h2)
  · refine hnone a (hzero a ?_) fun j hj => ?_
    · simp only [identityPages, pageOf]
      omega
    · simp only [List.length_map, List.length_range] at hj
      simp only [pageOf]
      omega

end TunaOs
