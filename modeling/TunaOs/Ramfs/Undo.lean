import TunaOs.Kheap.Canonical
import TunaOs.Ramfs.Store
import TunaOs.Task.Spec

/-!
# Constructors that fail

`task_create` and `ramfs_create` each take two blocks of the heap.  If there is no
second block they give the first one back, in which they may have written by then.
`Undone` says that the heap is as it was: the same allocations with the same
contents, in the same chain of blocks, which may have grown at its end.
-/

namespace TunaOs

open Run (Reachable)

section

variable {σ : Type} [HeapBacking σ]

/-! ## The heap -/

/-- A chain of blocks after a call: the same chain, or one with `extra` bytes of
free memory more at its end. -/
def SameOrGrown (h g : Heap σ) : Prop :=
  (g.heapEnd = h.heapEnd ∧ g.blocks = h.blocks) ∨
    ∃ extra, 0 < extra ∧ g.heapEnd = h.heapEnd + extra ∧ g.blocks = grow extra h.blocks

/-- The heap `g` holds the allocations of the history, with their contents. -/
structure Undone (h : HeapHistory σ) (g : Heap σ) : Prop where
  /-- The allocations are the same. -/
  live : HeapInv g h.live
  /-- Their contents are the same. -/
  kept : PayloadKept h.heap.mem g.mem h.live
  /-- The chain is the same, apart from growth. -/
  chain : SameOrGrown h.heap g

variable {h : HeapHistory σ}

omit [HeapBacking σ] in
theorem Undone.refl (ht : h.Tidy) : Undone h h.heap :=
  ⟨ht.1, fun _ _ _ _ _ _ => rfl, Or.inl ⟨rfl, rfl⟩⟩

theorem HeapHistory.Tidy.takenFrom (ht : h.Tidy) {g : Heap σ} {size : Nat}
    (hsize : size < 2 ^ 63) (hfrom : TakenFrom h.heap g size) : SameOrGrown h.heap g := by
  rcases hfrom with rfl | ⟨hexp, hne⟩
  · exact Or.inl ⟨rfl, rfl⟩
  · obtain ⟨⟨bs, hr, -⟩, -⟩ := ht
    have hle := (requestSize_spec hsize).2.2.2
    rcases kheapExpand_cases hr (show requestSize size ≤ 2 ^ 63 + 2 ^ 12 by omega) with
      ⟨-, hexp'⟩ | ⟨-, g', hexp', hg, hend, -⟩
    · cases (Option.some.inj (hexp.symm.trans hexp'))
    · obtain ⟨rfl, -⟩ := Prod.mk.inj (Option.some.inj (hexp.symm.trans hexp'))
      refine Or.inr ⟨_, expandSize_pos _, hend, ?_⟩
      rw [hg.blocks_eq, hr.blocks_eq]

/-- A block is taken, its payload is written, and it is given back. -/
theorem HeapHistory.Tidy.undone (ht : h.Tidy) {size p : Nat} {h' g : Heap σ}
    (hsize : size < 2 ^ 63) (hk : kmalloc h.heap size = some (h', p)) (hp : p ≠ 0) {m' : Mem}
    (hm : ∀ x, x < p ∨ p + size ≤ x → m' x = h'.mem x)
    (hf : kfree (h'.withMem m') p = some g) : Undone h g := by
  obtain ⟨g', f, hf', hfrom, hend, hblocks⟩ := ht.kmalloc_write_kfree hsize hk hp hm
  obtain rfl := Option.some.inj (hf.symm.trans hf')
  have hchain := ht.takenFrom hsize hfrom
  rw [SameOrGrown, ← hend, ← hblocks] at hchain
  rcases ht.1.kmalloc size hsize with hk' | ⟨h₁, p₁, hk', -, hinv, hkept⟩
  · exact absurd (Prod.mk.inj (Option.some.inj (hk.symm.trans hk'))).2 hp
  obtain ⟨rfl, rfl⟩ := Prod.mk.inj (Option.some.inj (hk'.symm.trans hk))
  obtain ⟨hinv', hsettled⟩ := hinv.write_head m' hm
  obtain ⟨m'', hf'', hinv'', hkept''⟩ := hinv'.kfree_head
  obtain rfl := Option.some.inj (hf''.symm.trans hf)
  refine ⟨hinv'', fun q t hq x hx1 hx2 => ?_, hchain⟩
  rw [Heap.withMem_mem, hkept''.payload q t hq x hx1 hx2, Heap.withMem_mem,
    hsettled.payload q t hq x hx1 hx2, hkept.payload q t hq x hx1 hx2]

/-! ## `task_create` -/

theorem taskCreate_undone (ht : h.Tidy) {T T' : Tasks σ} (hT : T.heap = h.heap)
    {trampoline entry : Nat} (hk : taskCreate trampoline entry T = some (T', 0)) :
    (T'.taskList = T.taskList ∧ T'.currentTask = T.currentTask ∧ T'.nextId = T.nextId) ∧
      Undone h T'.heap := by
  rw [taskCreate, hT] at hk
  rcases ht.1.kmalloc taskSize (by decide) with hk₁ | ⟨h₁, t, hk₁, hne, hinv₁, -⟩
  · -- there is no control block
    simp only [hk₁, if_true] at hk
    obtain ⟨rfl, -⟩ := Prod.mk.inj (Option.some.inj hk)
    exact ⟨⟨rfl, rfl, rfl⟩, .refl ht⟩
  simp only [hk₁, if_neg hne] at hk
  rcases hinv₁.kmalloc taskStackSize (by decide) with hk₂ | ⟨h₂, stack, hk₂, hne₂, -, -⟩
  · -- there is no stack
    obtain ⟨m, hf, -, -⟩ := hinv₁.kfree_head
    simp only [hk₂, if_true, hf] at hk
    obtain ⟨rfl, -⟩ := Prod.mk.inj (Option.some.inj hk)
    exact ⟨⟨rfl, rfl, rfl⟩, ht.undone (by decide) hk₁ hne (fun _ _ => rfl) hf⟩
  · -- both are there, and the task is returned
    simp only [hk₂, if_neg hne₂] at hk
    split at hk
    · split at hk
      · cases hk
      · exact absurd (Prod.mk.inj (Option.some.inj hk)).2 hne
    · exact absurd (Prod.mk.inj (Option.some.inj hk)).2 hne

/-! ## `ramfs_create` -/

theorem Ramfs.create_undone (ht : h.Tidy) {R R' : Ramfs σ} (hR : R.heap = h.heap)
    {name data size : Nat} (hsize : size < 2 ^ 63)
    (hk : R.create name data size = some (R', 0)) :
    R'.fileList = R.fileList ∧ Undone h R'.heap := by
  rw [Ramfs.create, hR] at hk
  rcases ht.1.kmalloc ramfsFileSize (by decide) with hk₁ | ⟨h₁, f, hk₁, hne, hinv₁, -⟩
  · -- there is no node
    simp only [hk₁, if_true] at hk
    obtain ⟨rfl, -⟩ := Prod.mk.inj (Option.some.inj hk)
    exact ⟨rfl, .refl ht⟩
  simp only [hk₁, if_neg hne] at hk
  have hname : ∀ x, x < f ∨ f + ramfsFileSize ≤ x →
      Ramfs.copyName f name (ramfsNameMax - 1) 0 h₁.mem x = h₁.mem x := fun x hx =>
    Ramfs.copyName_other _ _ _ (by
      simp only [ramfsFileSize, ramfsNameMax] at hx ⊢
      omega)
  generalize Ramfs.copyName f name (ramfsNameMax - 1) 0 h₁.mem = m₁ at hk hname
  obtain ⟨hinv₂, -⟩ := hinv₁.write_head m₁ hname
  rcases hinv₂.kmalloc size hsize with hk₂ | ⟨h₂, d, hk₂, hne₂, -, -⟩
  · -- there is no room for the data: the node holds the name and a null pointer
    have hnode : ∀ x, x < f ∨ f + ramfsFileSize ≤ x → setFileData m₁ f 0 x = h₁.mem x :=
      fun x hx => by
        rw [← hname x hx]
        simp only [ramfsFileSize] at hx
        exact Mem.store_other (by omega)
    obtain ⟨hinv₃, -⟩ := hinv₁.write_head (setFileData m₁ f 0) hnode
    obtain ⟨m, hf, -, -⟩ := hinv₃.kfree_head
    simp only [hk₂, if_true, Heap.withMem_mem, Heap.withMem_withMem] at hk
    simp only [hf] at hk
    obtain ⟨rfl, -⟩ := Prod.mk.inj (Option.some.inj hk)
    exact ⟨rfl, ht.undone (by decide) hk₁ hne hnode hf⟩
  · -- both are there, and the node is returned
    simp only [hk₂, if_neg hne₂] at hk
    exact absurd (Prod.mk.inj (Option.some.inj hk)).2 hne

/-! ## Both constructors -/

/-- A file node is the same in both memories. -/
structure SameFile (m m' : Mem) (f : Nat) : Prop where
  /-- Its name. -/
  name : ∀ i < ramfsNameMax, m' (f + i) = m (f + i)
  /-- The pointer to its data. -/
  data : fileData m' f = fileData m f
  /-- Its size. -/
  size : fileSize m' f = fileSize m f
  /-- The file behind it. -/
  next : fileNext m' f = fileNext m f

omit [HeapBacking σ] in
theorem sameFile_of_kept {m m' : Mem} {live : List (Nat × Nat)} (hkept : PayloadKept m m' live)
    {f : Nat} (hf : (f, ramfsFileSize) ∈ live) : SameFile m m' f := by
  have hbyte : ∀ x, f ≤ x → x < f + 88 → m' x = m x := fun x h1 h2 =>
    hkept f ramfsFileSize hf x h1 h2
  refine ⟨fun i hi => ?_, ?_, ?_, ?_⟩
  · rw [ramfsNameMax] at hi
    exact hbyte _ (by omega) (by omega)
  all_goals exact Mem.load_congr fun x h1 h2 => hbyte x (by omega) (by omega)

/-- A constructor that fails leaves everything as it was: its own variables, every
task and file, and the allocations of the heap. -/
theorem failedCreate_undone (hr : Reachable HeapHistory.Start HeapCall h) :
    (∀ (T T' : Tasks σ) (trampoline entry : Nat), T.heap = h.heap →
      taskCreate trampoline entry T = some (T', 0) →
        T'.taskList = T.taskList ∧ T'.currentTask = T.currentTask ∧ T'.nextId = T.nextId ∧
        (∀ t, (t, taskSize) ∈ h.live → taskAt T'.heap.mem t = taskAt T.heap.mem t) ∧
        Undone h T'.heap) ∧
    ∀ (R R' : Ramfs σ) (name data size : Nat), R.heap = h.heap → size < 2 ^ 63 →
      R.create name data size = some (R', 0) →
        R'.fileList = R.fileList ∧
        (∀ f, (f, ramfsFileSize) ∈ h.live → SameFile R.heap.mem R'.heap.mem f) ∧
        Undone h R'.heap := by
  have ht := HeapHistory.tidy_of_reachable hr
  constructor
  · intro T T' trampoline entry hT hk
    obtain ⟨⟨hlist, hcur, hid⟩, hundone⟩ := taskCreate_undone ht hT hk
    refine ⟨hlist, hcur, hid, fun t hmem => ?_, hundone⟩
    rw [hT]
    exact taskAt_congr (hundone.kept t taskSize hmem)
  · intro R R' name data size hR hsize hk
    obtain ⟨hlist, hundone⟩ := Ramfs.create_undone ht hR hsize hk
    refine ⟨hlist, fun f hmem => ?_, hundone⟩
    rw [hR]
    exact sameFile_of_kept hundone.kept hmem

end

/-- The largest heap with one large block in use. -/
def wideHeap : Heap Unit :=
  ((kmalloc (kheapInit (fun _ => 0) ()) 0xfefff0).get (by decide +kernel)).1

/-- The largest heap with 4096 bytes left. -/
def fullHeap : Heap Unit := ((kmalloc wideHeap 0xeff0).get (by decide +kernel)).1

theorem kmalloc_wideHeap :
    kmalloc (kheapInit (fun _ => 0) ()) 0xfefff0 = some (wideHeap, 0x200010) := by
  have hsnd : ((kmalloc (kheapInit (fun _ => 0) ()) 0xfefff0).get (by decide +kernel)).2
      = 0x200010 := by decide +kernel
  rw [wideHeap, ← hsnd, Option.some_get]

theorem kmalloc_fullHeap : kmalloc wideHeap 0xeff0 = some (fullHeap, 0x11f0010) := by
  have hsnd : ((kmalloc wideHeap 0xeff0).get (by decide +kernel)).2 = 0x11f0010 := by
    decide +kernel
  rw [fullHeap, ← hsnd, Option.some_get]

/-- With 4096 bytes left there is room for a control block or a file node, but not
for a stack or the data of a large file. -/
theorem failedCreate_undone_full :
    ∃ live T' R', Reachable HeapHistory.Start HeapCall ⟨fullHeap, live⟩ ∧
      taskCreate 0x100500 0x100600 ⟨fullHeap, 0, 0, 0⟩ = some (T', 0) ∧
      Undone ⟨fullHeap, live⟩ T'.heap ∧
      Ramfs.create 0x100700 0x100800 8192 ⟨fullHeap, 0⟩ = some (R', 0) ∧
      Undone ⟨fullHeap, live⟩ R'.heap := by
  have hr : Reachable HeapHistory.Start HeapCall
      (⟨fullHeap, [(0x11f0010, 0xeff0), (0x200010, 0xfefff0)]⟩ : HeapHistory Unit) :=
    .step (.step (.init ⟨_, _, rfl⟩) (.client (.malloc (by decide) kmalloc_wideHeap (by decide))))
      (.client (.malloc (by decide) kmalloc_fullHeap (by decide)))
  obtain ⟨⟨T', _⟩, hT, rfl⟩ := Option.map_eq_some_iff.mp
    (show (taskCreate 0x100500 0x100600 ⟨fullHeap, 0, 0, 0⟩).map Prod.snd = some 0 by
      decide +kernel)
  obtain ⟨⟨R', _⟩, hR, rfl⟩ := Option.map_eq_some_iff.mp
    (show (Ramfs.create 0x100700 0x100800 8192 ⟨fullHeap, 0⟩).map Prod.snd = some 0 by
      decide +kernel)
  obtain ⟨htask, hfile⟩ := failedCreate_undone hr
  exact ⟨_, T', R', hr, hT, (htask _ _ _ _ rfl hT).2.2.2.2, hR,
    (hfile _ _ _ _ _ rfl (by decide) hR).2.2⟩

end TunaOs
