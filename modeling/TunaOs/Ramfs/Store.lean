import TunaOs.Kernel.Model
import TunaOs.Kheap.Client
import TunaOs.Lib.Bytes
import TunaOs.Ramfs.Model

/-!
# The file store keeps what it is given

A history is the state of `ramfs.c` with the files that were created, the newest
first, and the allocations of the other clients of the heap.  The invariant says
that the list in memory is the list of files, and that every node and every data
block is an allocation of its own, so that no other client disturbs it.
`ramfs_faithful` states that `ramfs_find` returns the newest file of a name, with
the size and the bytes it was created with.  The model of the system calls keeps
files by value, and `RamfsHistory.Inv.find_image` connects its `ramfsFind` to the
list in memory.
-/

namespace TunaOs

open Loop (forRange forRange_induct)
open Mem (Holds HoldsStr holdsStr_nil holdsStr_cons)
open Run (Reachable)

/-! ## Strings and copies -/

/-- `str_eq` compares strings, as long as the first is shorter than the fuel. -/
theorem Ramfs.strEq_eq {m : Mem} : ∀ {s t : List UInt8} {a b fuel : Nat},
    HoldsStr m a s → HoldsStr m b t → s.length < fuel →
    Ramfs.strEq m fuel a b = some (decide (s = t))
  | [], [], a, b, fuel + 1, hs, ht, _ => by
      rw [Ramfs.strEq, if_neg fun h => h.1 (holdsStr_nil.mp hs), holdsStr_nil.mp hs,
        holdsStr_nil.mp ht]
      rfl
  | [], d :: t, a, b, fuel + 1, hs, ht, _ => by
      obtain ⟨hd, hne, -⟩ := holdsStr_cons.mp ht
      rw [Ramfs.strEq, if_neg fun h => h.1 (holdsStr_nil.mp hs), holdsStr_nil.mp hs, hd]
      simpa using Ne.symm hne
  | c :: s, [], a, b, fuel + 1, hs, ht, _ => by
      obtain ⟨hc, hne, -⟩ := holdsStr_cons.mp hs
      rw [Ramfs.strEq, if_neg fun h => h.2 (holdsStr_nil.mp ht), holdsStr_nil.mp ht, hc]
      simpa using hne
  | c :: s, d :: t, a, b, fuel + 1, hs, ht, hlen => by
      obtain ⟨hc, hcne, hs'⟩ := holdsStr_cons.mp hs
      obtain ⟨hd, hdne, ht'⟩ := holdsStr_cons.mp ht
      rw [Ramfs.strEq, hc, hd, if_pos ⟨hcne, hdne⟩]
      by_cases heq : c = d
      · rw [if_neg (not_not.mpr heq), strEq_eq hs' ht' (Nat.lt_of_succ_lt_succ hlen)]
        simp [heq]
      · rw [if_pos heq]
        simp [heq]

/-- The copy of a name writes at most `n + 1` bytes, whatever it is copied from. -/
theorem Ramfs.copyName_other {f name x : Nat} : ∀ (n i : Nat) (m : Mem),
    x < f + i ∨ f + i + n < x → Ramfs.copyName f name n i m x = m x
  | 0, i, m, hx => Mem.set_other (by omega)
  | n + 1, i, m, hx => by
      rw [Ramfs.copyName]
      split
      · rw [Ramfs.copyName_other n (i + 1) _ (by omega)]
        exact Mem.set_other (by omega)
      · exact Mem.set_other (by omega)

/-- The copy of a name that does not meet the node.  At most `n` bytes of it are
kept. -/
theorem Ramfs.copyName_holds {f name : Nat} : ∀ {s : List UInt8} {n i : Nat} {m : Mem},
    HoldsStr m (name + i) s →
    (∀ x, name + i ≤ x → x < name + i + (s.length + 1) → x < f + i ∨ f + i + n < x) →
    HoldsStr (Ramfs.copyName f name n i m) (f + i) (s.take n)
  | s, 0, i, m, _, _ => by
      rw [List.take_zero]
      exact holdsStr_nil.mpr (Mem.set_self ..)
  | [], n + 1, i, m, hs, _ => by
      rw [Ramfs.copyName, if_neg (not_not.mpr (holdsStr_nil.mp hs)), List.take_nil]
      exact holdsStr_nil.mpr (Mem.set_self ..)
  | c :: s, n + 1, i, m, hs, hapart => by
      obtain ⟨hc, hne, hs'⟩ := holdsStr_cons.mp hs
      rw [List.length_cons] at hapart
      rw [Ramfs.copyName, hc, if_pos hne, List.take_succ_cons]
      have hs'' : HoldsStr (m.set (f + i) c) (name + (i + 1)) s :=
        hs'.congr fun x h1 h2 => Mem.set_other (by have := hapart x; omega)
      have hstr := Ramfs.copyName_holds (f := f) (n := n) hs'' fun x h1 h2 => by
        have := hapart x
        omega
      refine holdsStr_cons.mpr ⟨?_, hne, hstr⟩
      rw [Ramfs.copyName_other n (i + 1) _ (by omega), Mem.set_self]

/-- The copy of data that does not meet its destination. -/
theorem Ramfs.copyData_eq {dst src size : Nat} {m : Mem}
    (hapart : ∀ x, src ≤ x → x < src + size → x < dst ∨ dst + size ≤ x) :
    Ramfs.copyData dst src size m = m.overlay dst size fun j => m (src + j) := by
  refine forRange_induct (P := fun j m' => m' = m.overlay dst j fun j => m (src + j)) _
    (Nat.zero_le _) (Mem.overlay_zero ..).symm fun j m' _ hj hm' => ?_
  have hsrc : m' (src + j) = m (src + j) := by
    have := hapart (src + j)
    rw [hm', Mem.overlay_other (by omega)]
  rw [hsrc, hm', Mem.set, Mem.overlay_succ]

/-! ## Files in memory -/

/-- A file that was created: its node, the block of its data, and what it was
created with. -/
structure StoredFile where
  /-- The node. -/
  node : Nat
  /-- The block of the data. -/
  buffer : Nat
  /-- The name. -/
  name : List UInt8
  /-- The data. -/
  bytes : List UInt8

/-- The allocations of a file. -/
def StoredFile.blocks (f : StoredFile) : List (Nat × Nat) :=
  [(f.node, ramfsFileSize), (f.buffer, f.bytes.length)]

/-- The allocations of the files. -/
def fileBlocks (files : List StoredFile) : List (Nat × Nat) := files.flatMap StoredFile.blocks

/-- The file lies in memory, and `next` is the node behind it. -/
structure FileAt (m : Mem) (f : StoredFile) (next : Nat) : Prop where
  /-- The name. -/
  name : HoldsStr m f.node f.name
  /-- The name fits into the node. -/
  short : f.name.length < ramfsNameMax
  /-- The pointer to the data. -/
  data : fileData m f.node = f.buffer
  /-- The size. -/
  size : fileSize m f.node = f.bytes.length
  /-- The data. -/
  bytes : Holds m f.buffer f.bytes
  /-- The link. -/
  next : fileNext m f.node = next

/-- The files are linked from `p` on. -/
def Linked (m : Mem) : List StoredFile → Nat → Prop
  | [], p => p = 0
  | f :: files, p => p = f.node ∧ ∃ next, FileAt m f next ∧ Linked m files next

section

variable {m m' : Mem} {f : StoredFile} {files : List StoredFile}

theorem mem_fileBlocks (hf : f ∈ files) {e : Nat × Nat} (he : e ∈ f.blocks) :
    e ∈ fileBlocks files := List.mem_flatMap.mpr ⟨f, hf, he⟩

theorem FileAt.congr {next : Nat} (h : FileAt m f next) (hkept : PayloadKept m m' f.blocks) :
    FileAt m' f next := by
  have hnode := hkept f.node ramfsFileSize List.mem_cons_self
  have hbytes := hkept f.buffer f.bytes.length (List.mem_cons_of_mem _ List.mem_cons_self)
  have hshort := h.short
  simp only [ramfsFileSize, ramfsNameMax] at hnode hshort
  have hfield : ∀ k n, k + n ≤ 88 → m'.load (f.node + k) n = m.load (f.node + k) n := fun k n hk =>
    Mem.load_congr fun x h1 h2 => hnode x (by omega) (by omega)
  exact ⟨h.name.congr fun x h1 h2 => hnode x (by omega) (by omega), h.short,
    (hfield 64 8 (by decide)).trans h.data, (hfield 72 8 (by decide)).trans h.size,
    h.bytes.congr hbytes, (hfield 80 8 (by decide)).trans h.next⟩

theorem Linked.congr : ∀ {files : List StoredFile} {p : Nat}, Linked m files p →
    PayloadKept m m' (fileBlocks files) → Linked m' files p
  | [], _, h, _ => h
  | f :: files, _, ⟨hp, next, hf, hrest⟩, hkept => by
      refine ⟨hp, next, hf.congr fun p s hps => hkept p s ?_,
        hrest.congr fun p s hps => hkept p s ?_⟩
      · exact List.mem_append_left _ hps
      · exact List.mem_append_right _ hps

/-- A file of the list lies in memory. -/
theorem Linked.fileAt : ∀ {files : List StoredFile} {p : Nat}, Linked m files p → f ∈ files →
    ∃ next, FileAt m f next
  | g :: files, _, ⟨_, next, hg, hrest⟩, hf => by
      rcases List.mem_cons.mp hf with rfl | hf
      · exact ⟨next, hg⟩
      · exact hrest.fileAt hf

/-- The newest file of a name. -/
def newest (files : List StoredFile) (s : List UInt8) : Option StoredFile :=
  files.find? fun f => decide (f.name = s)

/-- The node of a file, or the null pointer. -/
def nodeOf : Option StoredFile → Nat
  | none => 0
  | some f => f.node

/-- The loop of `ramfs_find` over a linked list. -/
theorem Ramfs.findFrom_eq {name fuel p : Nat} {s : List UInt8} (hname : HoldsStr m name s)
    (hlinked : Linked m files p) (hne : ∀ f ∈ files, f.node ≠ 0) (hlen : files.length < fuel) :
    Ramfs.findFrom m name fuel p = some (nodeOf (newest files s)) := by
  induction files generalizing p fuel with
  | nil =>
      obtain ⟨fuel, rfl⟩ := Nat.exists_eq_succ_of_ne_zero (Nat.ne_of_gt hlen)
      have hp : p = 0 := hlinked
      rw [Ramfs.findFrom, if_pos hp]
      rfl
  | cons f files ih =>
      obtain ⟨fuel, rfl⟩ := Nat.exists_eq_succ_of_ne_zero (Nat.ne_of_gt (Nat.zero_lt_of_lt hlen))
      obtain ⟨rfl, next, hf, hrest⟩ := hlinked
      rw [Ramfs.findFrom, if_neg (hne f List.mem_cons_self),
        Ramfs.strEq_eq hf.name hname hf.short, newest, List.find?_cons]
      cases hs : decide (f.name = s) with
      | true => rfl
      | false =>
          simp only [hf.next]
          exact ih hrest (fun g hg => hne g (List.mem_cons_of_mem _ hg))
            (Nat.lt_of_succ_lt_succ hlen)

end

/-! ## `ramfs_create` -/

section

variable {σ : Type} [HeapBacking σ] {R R' : Ramfs σ} {live : List (Nat × Nat)}
  {name data size : Nat} {s bytes : List UInt8}

/-- The arguments of a call of `ramfs_create`: a name and data of less than `2 ^ 63`
bytes, in memory that no allocation touches. -/
structure StoreArgs (m : Mem) (live : List (Nat × Nat)) (name data size : Nat)
    (s bytes : List UInt8) : Prop where
  /-- The name. -/
  nameHolds : HoldsStr m name s
  /-- It stays where it is. -/
  nameSettled : ∀ x, name ≤ x → x < name + (s.length + 1) → Settled live x
  /-- The data. -/
  dataHolds : Holds m data bytes
  /-- Its length. -/
  length : bytes.length = size
  /-- Sizes are below `2 ^ 63`. -/
  size_lt : size < 2 ^ 63
  /-- It stays where it is. -/
  dataSettled : ∀ x, data ≤ x → x < data + size → Settled live x

/-- Such arguments, with a name of at most 63 bytes. -/
structure CreateArgs (m : Mem) (live : List (Nat × Nat)) (name data size : Nat)
    (s bytes : List UInt8) : Prop extends StoreArgs m live name data size s bytes where
  /-- The length of the name. -/
  short : s.length < ramfsNameMax

/-- What a node keeps of a name. -/
def keptName (s : List UInt8) : List UInt8 := s.take (ramfsNameMax - 1)

theorem keptName_length_lt (s : List UInt8) : (keptName s).length < ramfsNameMax :=
  Nat.lt_of_le_of_lt (List.length_take_le _ _) (by decide)

theorem keptName_eq (hs : s.length < ramfsNameMax) : keptName s = s :=
  List.take_of_length_le (Nat.le_pred_of_lt hs)

omit [HeapBacking σ] in
/-- The stores of `ramfs_create` after both allocations. -/
theorem fileAt_create {h : Heap σ} {f d next : Nat}
    (hinv : HeapInv h ((d, size) :: (f, ramfsFileSize) :: live)) (hname : HoldsStr h.mem f s)
    (hshort : s.length < ramfsNameMax) (hdata : Holds h.mem data bytes)
    (hlength : bytes.length = size)
    (hsettled : ∀ x, data ≤ x → x < data + size → Settled live x) (hnext : next < 2 ^ 64) :
    ∃ m', setFileNext (setFileSize (Ramfs.copyData d data size (setFileData h.mem f d)) f size)
          f next = m' ∧
      HeapInv (h.withMem m') ((d, size) :: (f, ramfsFileSize) :: live) ∧
      SettledKept h.mem m' live ∧ FileAt m' ⟨f, d, s, bytes⟩ next := by
  have hswap := hinv.perm (List.Perm.swap _ _ _)
  have hd := hinv.bounds List.mem_cons_self
  have hapart := hinv.disjoint List.mem_cons_self (List.mem_cons_of_mem _ List.mem_cons_self)
    (hswap.head_ne List.mem_cons_self)
  -- the source meets neither block
  have hsrc : ∀ x, data ≤ x → x < data + size →
      (x < d ∨ d + size ≤ x) ∧ (x < f ∨ f + ramfsFileSize ≤ x) := fun x h1 h2 =>
    ⟨hinv.settled_apart ((hsettled x h1 h2).mono fun _ he => List.mem_cons_of_mem _ he),
      hswap.settled_apart ((hsettled x h1 h2).mono fun _ he => List.mem_cons_of_mem _ he)⟩
  simp only [ramfsFileSize, ramfsNameMax] at hapart hsrc hshort
  rw [Ramfs.copyData_eq fun x h1 h2 => (hsrc x h1 h2).1]
  refine ⟨_, rfl, ?_⟩
  generalize hm' : setFileNext (setFileSize ((setFileData h.mem f d).overlay d size
    fun j => setFileData h.mem f d (data + j)) f size) f next = m'
  -- what is written, block by block
  have hother : ∀ x, x < d ∨ d + size ≤ x → x < f + 64 ∨ f + 88 ≤ x → m' x = h.mem x := by
    intro x hxd hxf
    rw [← hm', setFileNext, Mem.store_other (by omega), setFileSize, Mem.store_other (by omega),
      Mem.overlay_other hxd, setFileData, Mem.store_other (by omega)]
  have hcopied : ∀ j, j < size → m' (d + j) = h.mem (data + j) := by
    intro j hj
    have := hsrc (data + j) (by omega) (by omega)
    rw [← hm', setFileNext, Mem.store_other (by omega), setFileSize, Mem.store_other (by omega),
      Mem.overlay_in (by omega) (by omega), Nat.add_sub_cancel_left, setFileData,
      Mem.store_other (by omega)]
  have hdata' : fileData m' f = d := by
    rw [← hm', fileData, setFileNext, Mem.load_store_other (by omega), setFileSize,
      Mem.load_store_other (by omega), Mem.load_overlay_other (by omega), setFileData,
      Mem.load_store_self, Nat.mod_eq_of_lt (by omega)]
  have hsize' : fileSize m' f = size := by
    rw [← hm', fileSize, setFileNext, Mem.load_store_other (by omega), setFileSize,
      Mem.load_store_self, Nat.mod_eq_of_lt (by omega)]
  have hnext' : fileNext m' f = next := by
    rw [← hm', fileNext, setFileNext, Mem.load_store_self, Nat.mod_eq_of_lt (by omega)]
  obtain ⟨hinv', hkept⟩ := hinv.write_pair m' fun x hxd hxf => hother x hxd (by
    simp only [ramfsFileSize] at hxf
    omega)
  refine ⟨hinv', hkept, ⟨?_, hshort, hdata', ?_, ?_, hnext'⟩⟩
  · exact hname.congr fun x h1 h2 => hother x (by omega) (by omega)
  · rw [hsize', hlength]
  · rw [Mem.holds_iff] at hdata ⊢
    intro j hj
    rw [hcopied j (hlength ▸ hj), hdata j hj]

/-- `ramfs_create` fails and keeps all payloads, or it links a new file with what a
node keeps of the name. -/
theorem Ramfs.create_spec (hinv : HeapInv R.heap live) (hlist : R.fileList < 2 ^ 64)
    (hargs : StoreArgs R.heap.mem live name data size s bytes) :
    (∃ h', R.create name data size = some (⟨h', R.fileList⟩, 0) ∧ HeapInv h' live ∧
      PayloadKept R.heap.mem h'.mem live) ∨
    (∃ h' f d, R.create name data size = some (⟨h', f⟩, f) ∧ f ≠ 0 ∧
      HeapInv h' ((d, size) :: (f, ramfsFileSize) :: live) ∧
      SettledKept R.heap.mem h'.mem live ∧
      FileAt h'.mem ⟨f, d, keptName s, bytes⟩ R.fileList) := by
  rcases hinv.kmalloc ramfsFileSize (by decide) with hk | ⟨h₁, f, hk, hne, hinv₁, -⟩
  · refine Or.inl ⟨R.heap, ?_, hinv, fun _ _ _ _ _ _ => rfl⟩
    rw [Ramfs.create, hk]
    rfl
  have hkept₁ := hinv.kmalloc_settled (by decide) hk
  -- the name
  have hname₁ : HoldsStr h₁.mem name s :=
    hargs.nameHolds.congr fun x h1 h2 => hkept₁ x (hargs.nameSettled x h1 h2)
  have hname₂ : HoldsStr (Ramfs.copyName f name (ramfsNameMax - 1) 0 h₁.mem) f (keptName s) :=
    Ramfs.copyName_holds (i := 0) hname₁ fun x h1 h2 => by
      have := hinv₁.settled_apart (hargs.nameSettled x h1 h2)
      simp only [ramfsFileSize, ramfsNameMax] at this ⊢
      omega
  have hother₂ : ∀ x, x < f + 0 ∨ f + 0 + (ramfsNameMax - 1) < x →
      Ramfs.copyName f name (ramfsNameMax - 1) 0 h₁.mem x = h₁.mem x := fun x =>
    Ramfs.copyName_other _ _ _
  generalize hm₂ : Ramfs.copyName f name (ramfsNameMax - 1) 0 h₁.mem = m₂ at hname₂ hother₂
  obtain ⟨hinv₂, hkept₂⟩ := hinv₁.write_head m₂ fun x hx => hother₂ x (by
    simp only [ramfsFileSize, ramfsNameMax] at hx ⊢
    omega)
  -- the block of the data
  rcases hinv₂.kmalloc size hargs.size_lt with hk₃ | ⟨h₃, d, hk₃, hne₃, hinv₃, hblocks₃⟩
  · obtain ⟨hinv₃, hkept₃⟩ := hinv₂.write_head (setFileData m₂ f 0) fun x hx =>
      Mem.store_other (by simp only [ramfsFileSize] at hx; omega)
    obtain ⟨m₄, hk₄, hinv₄, hkept₄⟩ := hinv₃.kfree_head
    refine Or.inl ⟨_, ?_, hinv₄, fun p t hp x h1 h2 => ?_⟩
    · rw [Ramfs.create, hk]
      simp only [if_neg hne, hm₂, hk₃, Heap.withMem_mem, hk₄]
      rfl
    · exact (hkept₄.payload p t hp x h1 h2).trans
        (((hkept₁.trans hkept₂).trans hkept₃).payload p t hp x h1 h2)
  · have hkept₃ := hinv₂.kmalloc_settled hargs.size_lt hk₃
    have hkept := (hkept₁.trans hkept₂).trans
      (hkept₃.mono fun _ he => List.mem_cons_of_mem _ he)
    have hname₃ : HoldsStr h₃.mem f (keptName s) := hname₂.congr fun x h1 h2 => by
      have hshort := keptName_length_lt s
      simp only [ramfsNameMax] at hshort
      exact hblocks₃.payload f ramfsFileSize List.mem_cons_self x h1
        (by simp only [ramfsFileSize]; omega)
    have hdata₃ : Holds h₃.mem data bytes := hargs.dataHolds.congr fun x h1 h2 =>
      hkept x (hargs.dataSettled x h1 (hargs.length ▸ h2))
    obtain ⟨m₄, hm₄, hinv₄, hkept₄, hfile⟩ := fileAt_create hinv₃ hname₃ (keptName_length_lt s)
      hdata₃ hargs.length hargs.dataSettled hlist
    refine Or.inr ⟨h₃.withMem m₄, f, d, ?_, hne, hinv₄, hkept.trans hkept₄, hfile⟩
    rw [Ramfs.create, hk]
    simp only [if_neg hne, hm₂, hk₃, if_neg hne₃, hm₄]

end

/-! ## Histories -/

/-- The state of `ramfs.c` with the files that were created, the newest first,
and the allocations of the other clients of the heap. -/
structure RamfsHistory (σ : Type) where
  /-- The state. -/
  ramfs : Ramfs σ
  /-- The files. -/
  files : List StoredFile
  /-- The allocations of the other clients. -/
  live : List (Nat × Nat)

section

variable {σ : Type} [HeapBacking σ]

/-- The history right after `ramfs_init`, on a heap any kernel code may have used
before. -/
def RamfsHistory.Start (h : RamfsHistory σ) : Prop :=
  ∃ heap live, Reachable HeapHistory.Start RequestStep ⟨heap, live⟩ ∧
    h = ⟨Ramfs.init heap, [], live⟩

/-- The allocations that are live. -/
def RamfsHistory.allocs (h : RamfsHistory σ) : List (Nat × Nat) := fileBlocks h.files ++ h.live

/-- A call of `ramfs_create`, a step of another client of the heap, or a write
outside the heap. -/
inductive RamfsStep : RamfsHistory σ → RamfsHistory σ → Prop
  | create {h : RamfsHistory σ} {R : Ramfs σ} {name data size f : Nat} {s bytes : List UInt8} :
      CreateArgs h.ramfs.heap.mem h.allocs name data size s bytes →
      h.ramfs.create name data size = some (R, f) → f ≠ 0 →
      RamfsStep h ⟨R, ⟨f, fileData R.heap.mem f, s, bytes⟩ :: h.files, h.live⟩
  | createFails {h : RamfsHistory σ} {R : Ramfs σ} {name data size : Nat} {s bytes : List UInt8} :
      CreateArgs h.ramfs.heap.mem h.allocs name data size s bytes →
      h.ramfs.create name data size = some (R, 0) → RamfsStep h ⟨R, h.files, h.live⟩
  | other {h : RamfsHistory σ} {heap : Heap σ} {live : List (Nat × Nat)} :
      RequestStep ⟨h.ramfs.heap, h.live⟩ ⟨heap, live⟩ →
      RamfsStep h ⟨{ h.ramfs with heap }, h.files, live⟩
  | outside {h : RamfsHistory σ} {x : Nat} {v : UInt8} :
      x < kheapStart ∨ kheapStart + kheapMaxSize ≤ x →
      RamfsStep h ⟨{ h.ramfs with heap := h.ramfs.heap.withMem (h.ramfs.heap.mem.set x v) },
        h.files, h.live⟩

/-- What holds along every history. -/
structure RamfsHistory.Inv (h : RamfsHistory σ) : Prop where
  /-- Every block of the heap is a file's or another client's. -/
  heap : HeapInv h.ramfs.heap h.allocs
  /-- The list in memory is the list of files. -/
  linked : Linked h.ramfs.heap.mem h.files h.ramfs.fileList

theorem length_le_fileBlocks (files : List StoredFile) :
    files.length ≤ (fileBlocks files).length := by
  induction files with
  | nil => exact Nat.le_refl _
  | cons f files ih =>
      have hblocks : fileBlocks (f :: files) = f.blocks ++ fileBlocks files := List.flatMap_cons
      rw [hblocks, List.length_append, List.length_cons, Nat.add_comm]
      exact Nat.add_le_add (show 1 ≤ f.blocks.length from Nat.succ_pos _) ih

section

omit [HeapBacking σ]

variable {h : RamfsHistory σ}

/-- The fuel of the walks is enough for the list. -/
theorem RamfsHistory.Inv.length_lt (hinv : h.Inv) : h.files.length < h.ramfs.heap.walkFuel := by
  refine Nat.lt_of_le_of_lt ?_ hinv.heap.length_lt_walkFuel
  rw [RamfsHistory.allocs, List.length_append]
  exact Nat.le_add_right_of_le (length_le_fileBlocks _)

theorem RamfsHistory.Inv.node_bounds (hinv : h.Inv) {f : StoredFile} (hf : f ∈ h.files) :
    f.node ≠ 0 ∧ f.node < 2 ^ 64 := by
  have := hinv.heap.bounds (List.mem_append_left _ (mem_fileBlocks hf List.mem_cons_self))
  constructor
  · omega
  · omega

theorem RamfsHistory.Inv.fileList_lt (hinv : h.Inv) : h.ramfs.fileList < 2 ^ 64 := by
  have hlinked := hinv.linked
  have hnode := fun f => hinv.node_bounds (f := f)
  revert hlinked hnode
  cases h.files with
  | nil =>
      intro hp _
      rw [show h.ramfs.fileList = 0 from hp]
      decide
  | cons f files =>
      rintro ⟨hp, -⟩ hnode
      rw [hp]
      exact (hnode f List.mem_cons_self).2

/-- A change that keeps the payloads of the files. -/
theorem RamfsHistory.Inv.keep (hinv : h.Inv) {heap : Heap σ} {live : List (Nat × Nat)}
    (hheap : HeapInv heap (fileBlocks h.files ++ live))
    (hkept : PayloadKept h.ramfs.heap.mem heap.mem (fileBlocks h.files)) :
    (⟨{ h.ramfs with heap }, h.files, live⟩ : RamfsHistory σ).Inv :=
  ⟨hheap, hinv.linked.congr hkept⟩

end

/-- `ramfs_create` puts a file in front of the list. -/
theorem RamfsHistory.Inv.create {h : RamfsHistory σ} (hinv : h.Inv) {R : Ramfs σ}
    {name data size f : Nat} {s bytes : List UInt8}
    (hargs : StoreArgs h.ramfs.heap.mem h.allocs name data size s bytes)
    (hc : h.ramfs.create name data size = some (R, f)) (hne : f ≠ 0) :
    (⟨R, ⟨f, fileData R.heap.mem f, keptName s, bytes⟩ :: h.files, h.live⟩ :
      RamfsHistory σ).Inv := by
  rcases Ramfs.create_spec hinv.heap hinv.fileList_lt hargs with
    ⟨heap, hc', -⟩ | ⟨heap, f', d, hc', -, hheap, hkept, hfile⟩
  · exact absurd (Prod.mk.inj (Option.some.inj (hc.symm.trans hc'))).2 hne
  · obtain ⟨rfl, rfl⟩ := Prod.mk.inj (Option.some.inj (hc.symm.trans hc'))
    have hdata : fileData heap.mem f = d := hfile.data
    refine ⟨?_, rfl, h.ramfs.fileList, ?_, ?_⟩
    · rw [← hargs.length] at hheap
      have hperm := hheap.perm (List.Perm.swap _ _ _)
      rwa [← hdata] at hperm
    · rw [← hdata] at hfile
      exact hfile
    · exact hinv.linked.congr fun p t hp => hkept.payload p t (List.mem_append_left _ hp)

/-- `ramfs_create` that fails keeps the list. -/
theorem RamfsHistory.Inv.createFails {h : RamfsHistory σ} (hinv : h.Inv) {R : Ramfs σ}
    {name data size : Nat} {s bytes : List UInt8}
    (hargs : StoreArgs h.ramfs.heap.mem h.allocs name data size s bytes)
    (hc : h.ramfs.create name data size = some (R, 0)) :
    (⟨R, h.files, h.live⟩ : RamfsHistory σ).Inv := by
  rcases Ramfs.create_spec hinv.heap hinv.fileList_lt hargs with
    ⟨heap, hc', hheap, hkept⟩ | ⟨heap, f', d, hc', hne, -⟩
  · obtain ⟨rfl, -⟩ := Prod.mk.inj (Option.some.inj (hc.symm.trans hc'))
    exact hinv.keep hheap fun p t hp => hkept p t (List.mem_append_left _ hp)
  · exact absurd (Prod.mk.inj (Option.some.inj (hc.symm.trans hc'))).2.symm hne

theorem RamfsHistory.Inv.other {h : RamfsHistory σ} (hinv : h.Inv) {heap : Heap σ}
    {live : List (Nat × Nat)} (hst : RequestStep ⟨h.ramfs.heap, h.live⟩ ⟨heap, live⟩) :
    (⟨{ h.ramfs with heap }, h.files, live⟩ : RamfsHistory σ).Inv := by
  obtain ⟨hheap, hkept⟩ := hst.others hinv.heap
  exact hinv.keep hheap hkept

omit [HeapBacking σ] in
theorem RamfsHistory.Inv.outside {h : RamfsHistory σ} (hinv : h.Inv) {x : Nat} {v : UInt8}
    (hx : x < kheapStart ∨ kheapStart + kheapMaxSize ≤ x) :
    (⟨{ h.ramfs with heap := h.ramfs.heap.withMem (h.ramfs.heap.mem.set x v) }, h.files,
      h.live⟩ : RamfsHistory σ).Inv := by
  obtain ⟨hheap, hkept⟩ := hinv.heap.write_outside (h.ramfs.heap.mem.set x v)
    fun y h1 h2 => Mem.set_other (by omega)
  exact hinv.keep hheap fun p t hp => hkept p t (List.mem_append_left _ hp)

theorem RamfsStep.inv {h h' : RamfsHistory σ} (hinv : h.Inv) (hst : RamfsStep h h') : h'.Inv := by
  cases hst with
  | create hargs hc hne =>
      have hinv' := hinv.create hargs.toStoreArgs hc hne
      rwa [keptName_eq hargs.short] at hinv'
  | createFails hargs hc => exact hinv.createFails hargs.toStoreArgs hc
  | other hst => exact hinv.other hst
  | outside hx => exact hinv.outside hx

theorem RamfsHistory.inv_of_reachable {h : RamfsHistory σ}
    (hr : Reachable RamfsHistory.Start RamfsStep h) : h.Inv := by
  refine hr.invariant ?_ fun _ _ hinv hst => hst.inv hinv
  rintro h ⟨heap, live, hheap, rfl⟩
  exact ⟨HeapHistory.inv_of_requests hheap, rfl⟩

/-! ## What is found -/

/-- The pointer `p` is the file, with its name, its size and its bytes, or the
null pointer if there is no file. -/
def Found (m : Mem) (p : Nat) : Option StoredFile → Prop
  | none => p = 0
  | some f => p = f.node ∧ p ≠ 0 ∧ HoldsStr m p f.name ∧ fileSize m p = f.bytes.length ∧
      Holds m (fileData m p) f.bytes

omit [HeapBacking σ] in
/-- `ramfs_find` returns the newest file of a name. -/
theorem RamfsHistory.Inv.find {h : RamfsHistory σ} (hinv : h.Inv) {name : Nat} {s : List UInt8}
    (hname : HoldsStr h.ramfs.heap.mem name s) :
    ∃ p, h.ramfs.find name = some p ∧ Found h.ramfs.heap.mem p (newest h.files s) := by
  refine ⟨_, Ramfs.findFrom_eq hname hinv.linked (fun f hf => (hinv.node_bounds hf).1)
    hinv.length_lt, ?_⟩
  cases hnew : newest h.files s with
  | none => rfl
  | some f =>
      have hf : f ∈ h.files := List.mem_of_find?_eq_some hnew
      obtain ⟨next, hat⟩ := hinv.linked.fileAt hf
      refine ⟨rfl, (hinv.node_bounds hf).1, hat.name, hat.size, ?_⟩
      rw [nodeOf, hat.data]
      exact hat.bytes

/-! ## Files by value -/

theorem strEq_eq_decide : ∀ {s t : List UInt8}, 0 ∉ s → 0 ∉ t → strEq s t = decide (s = t)
  | [], [], _, _ => rfl
  | [], d :: t, _, ht => by
      have hd : d ≠ 0 := fun h => ht (h ▸ List.mem_cons_self)
      simp [strEq, hd]
  | c :: s, [], hs, _ => by
      have hc : c ≠ 0 := fun h => hs (h ▸ List.mem_cons_self)
      simp [strEq, hc]
  | c :: s, d :: t, hs, ht => by
      have hc : c ≠ 0 := fun h => hs (h ▸ List.mem_cons_self)
      have hd : d ≠ 0 := fun h => ht (h ▸ List.mem_cons_self)
      rw [strEq, if_pos ⟨hc, hd⟩]
      by_cases heq : c = d
      · rw [if_neg (not_not.mpr heq), strEq_eq_decide (fun h => hs (List.mem_cons_of_mem _ h))
          fun h => ht (List.mem_cons_of_mem _ h)]
        simp [heq]
      · rw [if_pos heq]
        simp [heq]

/-- A file as the model of the system calls keeps it. -/
def StoredFile.byValue (f : StoredFile) : RamfsFile :=
  ⟨f.name, ⟨Mem.ofBytes 0 f.bytes, f.bytes.length⟩⟩

theorem ramfsFind_byValue {files : List StoredFile} {s : List UInt8} (hs : 0 ∉ s)
    (hnames : ∀ f ∈ files, 0 ∉ f.name) :
    ramfsFind (files.map StoredFile.byValue) s = (newest files s).map StoredFile.byValue := by
  rw [ramfsFind, List.find?_map, newest]
  congr 1
  induction files with
  | nil => rfl
  | cons f files ih =>
      have hf : strEq f.byValue.name s = decide (f.name = s) :=
        strEq_eq_decide (hnames f List.mem_cons_self) hs
      rw [List.find?_cons, List.find?_cons, Function.comp_apply, hf,
        ih fun g hg => hnames g (List.mem_cons_of_mem _ hg)]

omit [HeapBacking σ] in
/-- What `ramfs_find` returns is the image that the list of files by value has
under the name. -/
theorem RamfsHistory.Inv.find_image {h : RamfsHistory σ} (hinv : h.Inv) {name : Nat}
    {s : List UInt8} (hname : HoldsStr h.ramfs.heap.mem name s) :
    ∃ p, h.ramfs.find name = some p ∧
      match ramfsFind (h.files.map StoredFile.byValue) s with
      | none => p = 0
      | some f => p ≠ 0 ∧ fileSize h.ramfs.heap.mem p = f.image.size ∧
          ∀ i < f.image.size,
            h.ramfs.heap.mem (fileData h.ramfs.heap.mem p + i) = f.image.bytes i := by
  obtain ⟨p, hfind, hfound⟩ := hinv.find hname
  have hnames : ∀ f ∈ h.files, 0 ∉ f.name := fun f hf => by
    obtain ⟨next, hat⟩ := hinv.linked.fileAt hf
    exact hat.name.nonzero
  refine ⟨p, hfind, ?_⟩
  rw [ramfsFind_byValue hname.nonzero hnames]
  cases hnew : newest h.files s with
  | none =>
      rw [hnew] at hfound
      exact hfound
  | some f =>
      rw [hnew] at hfound
      obtain ⟨-, hne, -, hsize, hbytes⟩ := hfound
      refine ⟨hne, hsize, fun i hi => ?_⟩
      have hi' : i < f.bytes.length := hi
      have himage := Mem.holds_iff.mp (Mem.holds_ofBytes 0 f.bytes) i hi'
      rw [Nat.zero_add] at himage
      exact (Mem.holds_iff.mp hbytes i hi').trans himage.symm

/-! ## What holds in every history -/

/-- The store is faithful. -/
structure RamfsHistory.Faithful (h : RamfsHistory σ) : Prop where
  /-- `ramfs_create` returns. -/
  create_returns : ∀ name data size s bytes,
    CreateArgs h.ramfs.heap.mem h.allocs name data size s bytes →
    (h.ramfs.create name data size).isSome
  /-- `ramfs_find` returns the file of the newest successful `ramfs_create` with
  the name, and the null pointer if there was none. -/
  find : ∀ name s, HoldsStr h.ramfs.heap.mem name s →
    ∃ p, h.ramfs.find name = some p ∧ Found h.ramfs.heap.mem p (newest h.files s)
  /-- `ramfs_create` does not change what is found under another name, or under
  any name if it fails. -/
  create_keeps : ∀ name data size s bytes R f,
    CreateArgs h.ramfs.heap.mem h.allocs name data size s bytes →
    h.ramfs.create name data size = some (R, f) →
    ∀ t, t ≠ s ∨ f = 0 → ∀ a b, HoldsStr h.ramfs.heap.mem a t → HoldsStr R.heap.mem b t →
      ∃ p file, h.ramfs.find a = some p ∧ R.find b = some p ∧
        Found h.ramfs.heap.mem p file ∧ Found R.heap.mem p file

/-- In every history of calls of `ramfs_create` and of other uses of the heap
the store is faithful. -/
theorem ramfs_faithful {h : RamfsHistory σ} (hr : Reachable RamfsHistory.Start RamfsStep h) :
    h.Faithful := by
  have hinv := RamfsHistory.inv_of_reachable hr
  constructor
  case create_returns =>
    intro name data size s bytes hargs
    rcases Ramfs.create_spec hinv.heap hinv.fileList_lt hargs.toStoreArgs with
      ⟨_, hc, -⟩ | ⟨_, _, _, hc, -⟩
    · rw [hc]
      rfl
    · rw [hc]
      rfl
  case find => exact fun name s hname => hinv.find hname
  case create_keeps =>
    intro name data size s bytes R f hargs hc t ht a b ha hb
    obtain ⟨p, hfind, hfound⟩ := hinv.find ha
    -- the history after the call, in which the newest file called `t` is the same
    obtain ⟨files, hstep, hnew⟩ : ∃ files, RamfsStep h ⟨R, files, h.live⟩ ∧
        newest files t = newest h.files t := by
      by_cases hf : f = 0
      · exact ⟨h.files, .createFails hargs (hf ▸ hc), rfl⟩
      · refine ⟨_, .create hargs hc hf, ?_⟩
        have hne : s ≠ t := fun heq => (ht.resolve_right hf) heq.symm
        rw [newest, List.find?_cons_of_neg (by simpa using hne), newest]
    obtain ⟨q, hfind', hfound'⟩ := (hstep.inv hinv).find hb
    rw [hnew] at hfound'
    have hpq : q = p := by
      cases hcase : newest h.files t with
      | none =>
          rw [hcase] at hfound hfound'
          exact hfound'.trans hfound.symm
      | some g =>
          rw [hcase] at hfound hfound'
          exact hfound'.1.trans hfound.1.symm
    rw [hpq] at hfind' hfound'
    exact ⟨p, newest h.files t, hfind, hfind', hfound, hfound'⟩

end

/-! ## A store with two files of one name -/

/-- A file store on a fresh heap.  Below the heap there are the name `a` and three
bytes. -/
def sampleRamfs : Ramfs Unit :=
  Ramfs.init (kheapInit (Mem.ofBytes 0x100000 [0x61, 0, 1, 2, 3]) ())

/-- The store with the three bytes in a file of that name. -/
def sampleStored : Ramfs Unit :=
  ((sampleRamfs.create 0x100000 0x100002 3).get (by decide +kernel)).1

/-- The store with the last two of them in another file of that name. -/
def sampleShadowed : Ramfs Unit :=
  ((sampleStored.create 0x100000 0x100003 2).get (by decide +kernel)).1

/-- Arguments of `ramfs_create` from the bytes below the heap. -/
theorem createArgs_sample {m : Mem} {live : List (Nat × Nat)} {data : Nat} {bytes : List UInt8}
    (hname : HoldsStr m 0x100000 [0x61]) (hdata : Holds m data bytes)
    (hend : data + bytes.length ≤ 0x100005) :
    CreateArgs m live 0x100000 data bytes.length [0x61] bytes := by
  have hlow : ∀ x, x < 0x100005 → Settled live x := fun x hx =>
    Or.inl (by simp only [kheapStart]; omega)
  refine ⟨⟨hname, fun x _ hx => hlow x ?_, hdata, rfl, by omega, fun x _ hx => hlow x (by omega)⟩,
    by decide⟩
  simp only [List.length_cons, List.length_nil] at hx
  omega

/-- The second file hides the first. -/
theorem ramfs_faithful_sample :
    (⟨sampleShadowed, [⟨0x200098, fileData sampleShadowed.heap.mem 0x200098, [0x61], [2, 3]⟩,
      ⟨0x200010, fileData sampleStored.heap.mem 0x200010, [0x61], [1, 2, 3]⟩], []⟩ :
      RamfsHistory Unit).Faithful := by
  have hcreate : sampleRamfs.create 0x100000 0x100002 3 = some (sampleStored, 0x200010) := by
    have hsnd : ((sampleRamfs.create 0x100000 0x100002 3).get (by decide +kernel)).2
        = 0x200010 := by decide +kernel
    rw [sampleStored, ← hsnd, Option.some_get]
  have hcreate' : sampleStored.create 0x100000 0x100003 2 = some (sampleShadowed, 0x200098) := by
    have hsnd : ((sampleStored.create 0x100000 0x100003 2).get (by decide +kernel)).2
        = 0x200098 := by decide +kernel
    rw [sampleShadowed, ← hsnd, Option.some_get]
  have hname : HoldsStr sampleRamfs.heap.mem 0x100000 [0x61] ∧
      HoldsStr sampleStored.heap.mem 0x100000 [0x61] :=
    ⟨⟨⟨by decide +kernel, by decide +kernel, trivial⟩, by decide⟩,
      ⟨by decide +kernel, by decide +kernel, trivial⟩, by decide⟩
  have hdata : Holds sampleRamfs.heap.mem 0x100002 [1, 2, 3] :=
    ⟨by decide +kernel, by decide +kernel, by decide +kernel, trivial⟩
  have hdata' : Holds sampleStored.heap.mem 0x100003 [2, 3] :=
    ⟨by decide +kernel, by decide +kernel, trivial⟩
  have hstart : RamfsHistory.Start (⟨sampleRamfs, [], []⟩ : RamfsHistory Unit) :=
    ⟨_, _, .init ⟨_, _, rfl⟩, rfl⟩
  have hstored := Reachable.step (.init hstart)
    (RamfsStep.create (createArgs_sample hname.1 hdata (by decide)) hcreate (by decide))
  exact ramfs_faithful (.step hstored
    (.create (createArgs_sample hname.2 hdata' (by decide)) hcreate' (by decide)))

end TunaOs
