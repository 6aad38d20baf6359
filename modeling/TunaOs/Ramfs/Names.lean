import TunaOs.Kheap.Canonical
import TunaOs.Ramfs.Store

/-!
# Names and contents of any length

`ramfs_create` copies at most 63 bytes of a name into the node and goes on, while
`ramfs_find` compares the name it is given in full.  And `ramfs_create` asks
`kmalloc` for a block of the size of the contents, which refuses to return a block
of no bytes.  `NamedHistory` records the names that files were created under beside
the names their nodes keep, so that what is found can be compared with what was
created.
-/

namespace TunaOs

open Mem (Holds HoldsStr)
open Run (Reachable)

section

variable {σ : Type} [HeapBacking σ]

/-! ## Room -/

/-- The heap has room for an allocation: nothing is needed, a free block is large
enough, or the heap may grow by what is needed. -/
def Heap.RoomFor (h : Heap σ) (size : Nat) : Prop :=
  size = 0 ∨ (∃ b ∈ h.blocks, b.Fits (requestSize size)) ∨
    h.heapEnd + expandSize (requestSize size) ≤ kheapStart + kheapMaxSize

/-- The heap has room for the node of a file and then for its contents. -/
def Ramfs.RoomFor (R : Ramfs σ) (size : Nat) : Prop :=
  R.heap.RoomFor ramfsFileSize ∧
    ∀ h f, kmalloc R.heap ramfsFileSize = some (h, f) → h.RoomFor size

/-- With room, an allocation of some bytes succeeds. -/
theorem HeapRep.kmalloc_ne_zero {h h' : Heap σ} {bs : List Block} {size p : Nat}
    (hr : HeapRep h bs) (hroom : h.RoomFor size) (hpos : size ≠ 0) (hsize : size < 2 ^ 63)
    (hk : TunaOs.kmalloc h size = some (h', p)) : p ≠ 0 := by
  have hroom' := hroom.resolve_left hpos
  rw [hr.blocks_eq] at hroom'
  rcases kmalloc_cases hr hpos hsize with
    ⟨pre, b, post, -, -, -, hk'⟩ | ⟨hall, hfull, -⟩ |
    ⟨-, -, g, -, -, -, -, pre, b, post, -, -, -, hk'⟩
  · rw [(Prod.mk.inj (Option.some.inj (hk.symm.trans hk'))).2]
    exact Nat.succ_ne_zero _
  · rcases hroom' with ⟨b, hb, hfits⟩ | hgrow
    · exact absurd hfits (hall b hb)
    · omega
  · rw [(Prod.mk.inj (Option.some.inj (hk.symm.trans hk'))).2]
    exact Nat.succ_ne_zero _

variable {R R' : Ramfs σ} {live : List (Nat × Nat)} {name data size f : Nat}

/-- With room for the node and for some bytes of contents, `ramfs_create`
succeeds. -/
theorem Ramfs.create_ne_zero (hinv : HeapInv R.heap live) (hroom : R.RoomFor size)
    (hpos : size ≠ 0) (hsize : size < 2 ^ 63)
    (hc : R.create name data size = some (R', f)) : f ≠ 0 := by
  obtain ⟨hnode, hdata⟩ := hroom
  obtain ⟨bs, hr, hl⟩ := hinv
  rw [Ramfs.create] at hc
  rcases hr.kmalloc hl (show ramfsFileSize < 2 ^ 63 by decide) with
    hk | ⟨h₁, f₁, bs₁, hk, hne, hr₁, hl₁, -⟩
  · exact absurd rfl (hr.kmalloc_ne_zero hnode (by decide) (by decide) hk)
  simp only [hk, if_neg hne] at hc
  -- the copy of the name leaves the chain as it is
  have hw : HeapRep (h₁.withMem (Ramfs.copyName f₁ name (ramfsNameMax - 1) 0 h₁.mem)) bs₁ :=
    hr₁.write hl₁ List.mem_cons_self fun x hx => Ramfs.copyName_other _ _ _ (by
      simp only [ramfsFileSize, ramfsNameMax] at hx ⊢
      omega)
  have hroom : (h₁.withMem (Ramfs.copyName f₁ name (ramfsNameMax - 1) 0 h₁.mem)).RoomFor size := by
    have := hdata h₁ f₁ hk
    rw [Heap.RoomFor, hr₁.blocks_eq] at this
    rw [Heap.RoomFor, hw.blocks_eq]
    exact this
  generalize h₁.withMem (Ramfs.copyName f₁ name (ramfsNameMax - 1) 0 h₁.mem) = h₂ at hc hw hroom
  cases hk₂ : kmalloc h₂ size with
  | none =>
      rw [hk₂] at hc
      cases hc
  | some r =>
      have hne₂ := hw.kmalloc_ne_zero hroom hpos hsize hk₂
      simp only [hk₂, if_neg hne₂] at hc
      exact (Prod.mk.inj (Option.some.inj hc)).2 ▸ hne

/-- Without contents `ramfs_create` fails. -/
theorem Ramfs.create_empty (hinv : HeapInv R.heap live)
    (hc : R.create name data 0 = some (R', f)) : f = 0 := by
  rw [Ramfs.create] at hc
  rcases hinv.kmalloc ramfsFileSize (by decide) with hk | ⟨h₁, f₁, hk, hne, -, -⟩
  · simp only [hk, if_true] at hc
    exact (Prod.mk.inj (Option.some.inj hc)).2.symm
  · have hk₂ : ∀ h : Heap σ, kmalloc h 0 = some (h, 0) := fun h => by rw [kmalloc, if_pos rfl]
    simp only [hk, if_neg hne, hk₂, if_true] at hc
    split at hc
    · cases hc
    · exact (Prod.mk.inj (Option.some.inj hc)).2.symm

/-! ## Histories of names -/

/-- A file with the name it was created under. -/
structure NamedFile where
  /-- The file. -/
  file : StoredFile
  /-- The name it was created under. -/
  created : List UInt8

/-- The state of `ramfs.c` with the files that were created and the allocations of
the other clients of the heap. -/
structure NamedHistory (σ : Type) where
  /-- The state. -/
  ramfs : Ramfs σ
  /-- The files, the newest first. -/
  files : List NamedFile
  /-- The allocations of the other clients. -/
  live : List (Nat × Nat)

/-- The history without the names files were created under. -/
def NamedHistory.stored (h : NamedHistory σ) : RamfsHistory σ :=
  ⟨h.ramfs, h.files.map NamedFile.file, h.live⟩

/-- The allocations that are live. -/
def NamedHistory.allocs (h : NamedHistory σ) : List (Nat × Nat) := h.stored.allocs

/-- The history right after `ramfs_init`. -/
def NamedHistory.Start (h : NamedHistory σ) : Prop := h.files = [] ∧ h.stored.Start

/-- The steps of `RamfsStep`, with names of any length. -/
inductive NamedStep : NamedHistory σ → NamedHistory σ → Prop
  | create {h : NamedHistory σ} {R : Ramfs σ} {name data size f : Nat} {s bytes : List UInt8} :
      StoreArgs h.ramfs.heap.mem h.allocs name data size s bytes →
      h.ramfs.create name data size = some (R, f) → f ≠ 0 →
      NamedStep h
        ⟨R, ⟨⟨f, fileData R.heap.mem f, keptName s, bytes⟩, s⟩ :: h.files, h.live⟩
  | createFails {h : NamedHistory σ} {R : Ramfs σ} {name data size : Nat} {s bytes : List UInt8} :
      StoreArgs h.ramfs.heap.mem h.allocs name data size s bytes →
      h.ramfs.create name data size = some (R, 0) → NamedStep h ⟨R, h.files, h.live⟩
  | other {h : NamedHistory σ} {heap : Heap σ} {live : List (Nat × Nat)} :
      RequestStep ⟨h.ramfs.heap, h.live⟩ ⟨heap, live⟩ →
      NamedStep h ⟨{ h.ramfs with heap }, h.files, live⟩
  | outside {h : NamedHistory σ} {x : Nat} {v : UInt8} :
      x < kheapStart ∨ kheapStart + kheapMaxSize ≤ x →
      NamedStep h ⟨{ h.ramfs with heap := h.ramfs.heap.withMem (h.ramfs.heap.mem.set x v) },
        h.files, h.live⟩

/-- What holds along every history. -/
structure NamedHistory.Inv (h : NamedHistory σ) : Prop where
  /-- The list in memory is the list of files. -/
  stored : h.stored.Inv
  /-- Nodes keep the first 63 bytes of a name. -/
  kept : ∀ f ∈ h.files, f.file.name = keptName f.created

theorem NamedStep.inv {h h' : NamedHistory σ} (hinv : h.Inv) (hst : NamedStep h h') : h'.Inv := by
  cases hst with
  | create hargs hc hne =>
      refine ⟨hinv.stored.create hargs hc hne, fun f hf => ?_⟩
      rcases List.mem_cons.mp hf with rfl | hf
      · rfl
      · exact hinv.kept f hf
  | createFails hargs hc => exact ⟨hinv.stored.createFails hargs hc, hinv.kept⟩
  | other hst => exact ⟨hinv.stored.other hst, hinv.kept⟩
  | outside hx => exact ⟨hinv.stored.outside hx, hinv.kept⟩

theorem NamedHistory.inv_of_reachable {h : NamedHistory σ}
    (hr : Reachable NamedHistory.Start NamedStep h) : h.Inv := by
  refine hr.invariant ?_ fun _ _ hinv hst => hst.inv hinv
  rintro h ⟨hfiles, hstart⟩
  refine ⟨RamfsHistory.inv_of_reachable (.init hstart), fun f hf => ?_⟩
  rw [hfiles] at hf
  cases hf

/-! ## What is found -/

/-- `ramfs_create` succeeds, and `ramfs_find` then returns the file under the same
name, with the contents it was created with. -/
def Ramfs.CreateFinds (R : Ramfs σ) (name data size : Nat) (bytes : List UInt8) : Prop :=
  ∃ R' f, R.create name data size = some (R', f) ∧ f ≠ 0 ∧ R'.find name = some f ∧
    fileSize R'.heap.mem f = bytes.length ∧ Holds R'.heap.mem (fileData R'.heap.mem f) bytes

/-- What `ramfs_find` returns for the name `t` was created under that name. -/
def NamedHistory.FindsOwn (h : NamedHistory σ) (name : Nat) (t : List UInt8) : Prop :=
  ∀ f ∈ h.files, h.ramfs.find name = some f.file.node → f.created = t

/-- The newest file of which the first 63 bytes of the name are `t`. -/
def newestKept (files : List NamedFile) (t : List UInt8) : Option NamedFile :=
  files.find? fun f => decide (keptName f.created = t)

variable {h : NamedHistory σ} {s bytes t : List UInt8}

/-- The name is still there after the call. -/
theorem StoreArgs.name_after {m m' : Mem} (hargs : StoreArgs m live name data size s bytes)
    (hkept : SettledKept m m' live) : HoldsStr m' name s :=
  hargs.nameHolds.congr fun x h1 h2 => hkept x (hargs.nameSettled x h1 h2)

omit [HeapBacking σ] in
/-- A long name is the name of no node. -/
theorem NamedHistory.Inv.newest_long (hinv : h.Inv) (hlong : ramfsNameMax ≤ s.length) :
    newest h.stored.files s = none := by
  refine List.find?_eq_none.mpr fun g hg => ?_
  obtain ⟨f, hf, rfl⟩ := List.mem_map.mp hg
  rw [decide_eq_true_eq, hinv.kept f hf]
  rintro rfl
  exact absurd (keptName_length_lt f.created) (Nat.not_lt.mpr hlong)

/-- Create then find works for names of at most 63 bytes and contents of at least
one byte. -/
theorem NamedHistory.Inv.createFinds_iff (hinv : h.Inv)
    (hargs : StoreArgs h.ramfs.heap.mem h.allocs name data size s bytes)
    (hroom : h.ramfs.RoomFor size) :
    h.ramfs.CreateFinds name data size bytes ↔ s.length < ramfsNameMax ∧ bytes ≠ [] := by
  have hempty : bytes = [] ↔ size = 0 := by rw [← hargs.length, List.length_eq_zero_iff]
  rw [Ne, hempty]
  have hspec := Ramfs.create_spec hinv.stored.heap hinv.stored.fileList_lt hargs
  constructor
  · rintro ⟨R', f, hc, hne, hfind, -, -⟩
    constructor
    · by_contra hlong
      rcases hspec with ⟨h', hc', -⟩ | ⟨h', f', d, hc', -, -, hkept, -⟩
      · exact hne (Prod.mk.inj (Option.some.inj (hc.symm.trans hc'))).2
      obtain ⟨rfl, rfl⟩ := Prod.mk.inj (Option.some.inj (hc.symm.trans hc'))
      -- the name is too long for every node, the new one included
      have hinv' := NamedStep.inv hinv (.create hargs hc hne)
      obtain ⟨p, hfind', hfound⟩ := hinv'.stored.find (hargs.name_after hkept)
      rw [hinv'.newest_long (Nat.not_lt.mp hlong)] at hfound
      obtain rfl := Option.some.inj (hfind.symm.trans hfind')
      exact hne hfound
    · rintro rfl
      exact hne (Ramfs.create_empty hinv.stored.heap hc)
  · rintro ⟨hshort, hpos⟩
    rcases hspec with ⟨h', hc', -⟩ | ⟨h', f, d, hc, hne, -, hkept, hfile⟩
    · exact absurd rfl (Ramfs.create_ne_zero hinv.stored.heap hroom hpos hargs.size_lt hc')
    have hinv' := NamedStep.inv hinv (.create hargs hc hne)
    obtain ⟨p, hfind, hfound⟩ := hinv'.stored.find (hargs.name_after hkept)
    have hnew : newest (NamedHistory.stored
        ⟨⟨h', f⟩, ⟨⟨f, fileData h'.mem f, keptName s, bytes⟩, s⟩ :: h.files, h.live⟩).files s
          = some ⟨f, fileData h'.mem f, keptName s, bytes⟩ :=
      List.find?_cons_of_pos (decide_eq_true (keptName_eq hshort))
    rw [hnew] at hfound
    obtain ⟨rfl, -, -, hsize, hbytes⟩ := hfound
    exact ⟨_, _, hc, hne, hfind, hsize, hbytes⟩

theorem newestKept_spec {files : List NamedFile} {f : NamedFile}
    (h : newestKept files t = some f) : f ∈ files ∧ keptName f.created = t := by
  rw [newestKept] at h
  exact ⟨List.mem_of_find?_eq_some h, of_decide_eq_true (List.find?_some h :)⟩

theorem newest_map {files : List NamedFile}
    (hkept : ∀ f ∈ files, f.file.name = keptName f.created) (t : List UInt8) :
    newest (files.map NamedFile.file) t = (newestKept files t).map NamedFile.file := by
  induction files with
  | nil => rfl
  | cons f files ih =>
      have hih := ih fun g hg => hkept g (List.mem_cons_of_mem _ hg)
      rw [newest, newestKept] at hih ⊢
      rw [List.map_cons, List.find?_cons, List.find?_cons, hkept f List.mem_cons_self, hih]
      split
      · rfl
      · rfl

theorem nodes_sublist : ∀ files : List StoredFile,
    (files.map StoredFile.node).Sublist ((fileBlocks files).map Prod.fst)
  | [] => List.Sublist.slnil
  | f :: files => by
      have hblocks : (fileBlocks (f :: files)).map Prod.fst
          = f.node :: f.buffer :: (fileBlocks files).map Prod.fst := rfl
      rw [hblocks]
      exact ((nodes_sublist files).cons _).cons_cons _

omit [HeapBacking σ] in
/-- Files with the same node are the same. -/
theorem NamedHistory.Inv.node_inj (hinv : h.Inv) {f g : NamedFile} (hf : f ∈ h.files)
    (hg : g ∈ h.files) (heq : f.file.node = g.file.node) : f = g := by
  obtain ⟨bs, -, hl⟩ := hinv.stored.heap
  have hnd : (h.files.map fun f => f.file.node).Nodup := by
    have hsub := nodes_sublist h.stored.files
    rw [NamedHistory.stored, List.map_map] at hsub
    refine hsub.nodup ?_
    have := hl.nodup
    rw [RamfsHistory.allocs, List.map_append] at this
    exact this.of_append_left
  exact List.inj_on_of_nodup_map hnd hf hg heq

omit [HeapBacking σ] in
/-- A lookup returns files of its own name unless the newest file that keeps the
name was created under a longer one. -/
theorem NamedHistory.Inv.findsOwn_iff (hinv : h.Inv) (hname : HoldsStr h.ramfs.heap.mem name t) :
    h.FindsOwn name t ↔ ∀ f, newestKept h.files t = some f → f.created.length < ramfsNameMax := by
  obtain ⟨p, hfind, hfound⟩ := hinv.stored.find hname
  rw [show newest h.stored.files t = _ from newest_map hinv.kept t] at hfound
  constructor
  · intro hown f hf
    rw [hf] at hfound
    obtain ⟨hmem, hkept⟩ := newestKept_spec hf
    have hcreated := hown f hmem (hfound.1 ▸ hfind)
    rw [hcreated, ← hkept]
    exact keptName_length_lt _
  · intro hshort f hf hnode
    obtain rfl := Option.some.inj (hfind.symm.trans hnode)
    cases hnew : newestKept h.files t with
    | none =>
        rw [hnew] at hfound
        exact absurd hfound (hinv.stored.node_bounds (List.mem_map_of_mem hf)).1
    | some g =>
        rw [hnew] at hfound
        obtain ⟨hmem, hkept⟩ := newestKept_spec hnew
        obtain rfl := hinv.node_inj hf hmem hfound.1
        rw [← keptName_eq (hshort f hnew), hkept]

/-- In every history, create then find works exactly for names of at most 63 bytes
and contents of at least one byte, and a lookup returns a file of another name
exactly if that file was created under a longer name. -/
theorem createThenFind_iff (hr : Reachable NamedHistory.Start NamedStep h) :
    (∀ name data size s bytes, StoreArgs h.ramfs.heap.mem h.allocs name data size s bytes →
      h.ramfs.RoomFor size →
      (h.ramfs.CreateFinds name data size bytes ↔ s.length < ramfsNameMax ∧ bytes ≠ [])) ∧
    ∀ name t, HoldsStr h.ramfs.heap.mem name t →
      (h.FindsOwn name t ↔
        ∀ f, newestKept h.files t = some f → f.created.length < ramfsNameMax) := by
  have hinv := NamedHistory.inv_of_reachable hr
  constructor
  · intro name data size s bytes hargs hroom
    exact hinv.createFinds_iff hargs hroom
  · intro name t hname
    exact hinv.findsOwn_iff hname

end

/-! ## A name of 64 bytes -/

/-- A file store on a fresh heap.  Below the heap there are a name of 64 bytes and
three bytes. -/
def longRamfs : Ramfs Unit :=
  Ramfs.init (kheapInit (Mem.ofBytes 0x100000 (List.replicate 64 0x61 ++ [0, 1, 2, 3])) ())

/-- The history of a fresh store. -/
def freshNames : NamedHistory Unit := ⟨longRamfs, [], []⟩

theorem freshNames_reachable : Reachable NamedHistory.Start NamedStep freshNames :=
  .init ⟨rfl, _, _, .init ⟨_, _, rfl⟩, rfl⟩

theorem longRamfs_bytes :
    Holds longRamfs.heap.mem 0x100000 (List.replicate 64 0x61 ++ [0, 1, 2, 3]) := by
  refine (Mem.holds_ofBytes 0x100000 _).congr fun x _ hx => newBlock_other (Or.inl ?_)
  exact Nat.lt_trans hx (by decide)

/-- The last `k` bytes of the name and the first `n` bytes behind it, as the
arguments of a call. -/
theorem longRamfs_args {k n : Nat} (hk : k ≤ 64) (hn : n ≤ 3) :
    StoreArgs longRamfs.heap.mem [] (0x100040 - k) 0x100041 n (List.replicate k 0x61)
      ([1, 2, 3].take n) := by
  have hlow : ∀ x, x < 0x100044 → Settled [] x := fun x hx =>
    Or.inl (by simp only [kheapStart]; omega)
  have hbytes := longRamfs_bytes
  have hsplit : List.replicate 64 (0x61 : UInt8)
      = List.replicate (64 - k) 0x61 ++ List.replicate k 0x61 := by
    rw [List.replicate_append_replicate, Nat.sub_add_cancel hk]
  rw [hsplit, show ([0, 1, 2, 3] : List UInt8) = [0] ++ ([1, 2, 3].take n ++ [1, 2, 3].drop n) by
    rw [List.take_append_drop]; rfl, List.append_assoc, Mem.holds_append, Mem.holds_append,
    Mem.holds_append, Mem.holds_append] at hbytes
  obtain ⟨-, hname, hzero, hdata, -⟩ := hbytes
  simp only [List.length_replicate, List.length_singleton] at hname hzero hdata
  rw [show 0x100000 + (64 - k) = 0x100040 - k by omega] at hname hzero hdata
  rw [show 0x100040 - k + k = 0x100040 by omega] at hzero hdata
  have hlength : ([1, 2, 3].take n : List UInt8).length = n := by
    rw [List.length_take]
    exact Nat.min_eq_left hn
  refine ⟨⟨?_, fun h0 => ?_⟩, fun x _ hx => hlow x ?_, hdata, hlength, by omega,
    fun x _ hx => hlow x (by omega)⟩
  · rw [Mem.holds_append, List.length_replicate, show 0x100040 - k + k = 0x100040 by omega]
    exact ⟨hname, hzero⟩
  · exact absurd (List.eq_of_mem_replicate h0) (by decide)
  · rw [List.length_replicate] at hx
    omega

theorem longRamfs_room {n : Nat} (hn : n ≤ 3) : longRamfs.RoomFor n := by
  refine ⟨Or.inr (Or.inr (by decide)), fun h f hk => Or.inr (Or.inr ?_)⟩
  have hend : (kmalloc longRamfs.heap ramfsFileSize).map (fun r => r.1.heapEnd)
      = some 0x210000 := by decide +kernel
  rw [hk] at hend
  rw [show h.heapEnd = 0x210000 from Option.some.inj hend]
  match n, hn with
  | 0, _ | 1, _ | 2, _ | 3, _ => decide

/-- With a name of 63 bytes and three bytes of contents, create then find works. -/
theorem createThenFind_sample :
    longRamfs.CreateFinds 0x100001 0x100041 3 [1, 2, 3] :=
  ((createThenFind_iff freshNames_reachable).1 0x100001 0x100041 3 _ _
    (longRamfs_args (k := 63) (n := 3) (by decide) (by decide)) (longRamfs_room (by decide))).mpr
    ⟨by decide, by decide⟩

/-- With a name of 64 bytes it does not: `ramfs_find` does not find the file under
its name, and it returns the file under the first 63 bytes of its name.  Without
contents it does not work either. -/
theorem longName_lost :
    Reachable NamedHistory.Start NamedStep freshNames ∧
      (longRamfs.RoomFor 3 ∧
        StoreArgs longRamfs.heap.mem freshNames.allocs 0x100000 0x100041 3
          (List.replicate 64 0x61) [1, 2, 3] ∧
        ¬ longRamfs.CreateFinds 0x100000 0x100041 3 [1, 2, 3]) ∧
      (longRamfs.RoomFor 0 ∧
        StoreArgs longRamfs.heap.mem freshNames.allocs 0x100001 0x100041 0
          (List.replicate 63 0x61) [] ∧
        ¬ longRamfs.CreateFinds 0x100001 0x100041 0 []) ∧
      ∃ h, NamedStep freshNames h ∧
        HoldsStr h.ramfs.heap.mem 0x100001 (List.replicate 63 0x61) ∧
        ¬ h.FindsOwn 0x100001 (List.replicate 63 0x61) := by
  have hinv := NamedHistory.inv_of_reachable freshNames_reachable
  have hlong := longRamfs_args (k := 64) (n := 3) (by decide) (by decide)
  have hempty := longRamfs_args (k := 63) (n := 0) (by decide) (by decide)
  refine ⟨freshNames_reachable, ⟨longRamfs_room (by decide), hlong, fun hfinds => ?_⟩,
    ⟨longRamfs_room (by decide), hempty, fun hfinds => ?_⟩, ?_⟩
  · have hshort := ((hinv.createFinds_iff hlong (longRamfs_room (by decide))).mp hfinds).1
    exact absurd hshort (by decide)
  · exact ((hinv.createFinds_iff hempty (longRamfs_room (by decide))).mp hfinds).2 rfl
  · have hspec := Ramfs.create_spec hinv.stored.heap hinv.stored.fileList_lt hlong
    rcases hspec with ⟨h', hc, -⟩ | ⟨h', f, d, hc, hne, -, hkept, -⟩
    · exact absurd rfl (Ramfs.create_ne_zero hinv.stored.heap (longRamfs_room (by decide))
        (by decide) (by decide) hc)
    · have hstep := NamedStep.create (h := freshNames) hlong hc hne
      have hname := hempty.name_after hkept
      refine ⟨_, hstep, hname, fun hown => ?_⟩
      have hshort := ((hstep.inv hinv).findsOwn_iff hname).mp hown _
        (List.find?_cons_of_pos (decide_eq_true
          (show keptName (List.replicate 64 0x61) = List.replicate 63 0x61 from rfl)))
      exact absurd hshort (show ¬ (List.replicate 64 (0x61 : UInt8)).length < ramfsNameMax by
        decide)

end TunaOs
