import Mathlib.Data.List.Perm.Subperm
import Mathlib.Data.List.Nodup
import TunaOs.Kheap.Spec
import TunaOs.Lib.Run

/-!
# Safety of the heap

`HeapInv h live` ties a heap to the list of its live allocations, pairs of a
pointer and the size that was asked for.  The three lemmas `HeapInv.kmalloc`,
`HeapInv.kfree` and `HeapInv.write` are what clients of the heap use: they
never look at the chain.  `heap_safe` states what holds in every history of
calls.
-/

namespace TunaOs

open Run (Reachable)

/-! ## Live allocations and used blocks -/

/-- The live allocations are the payloads of the used blocks. -/
structure LiveOf (live used : List (Nat × Nat)) : Prop where
  /-- Pointers are live once. -/
  nodup : (live.map Prod.fst).Nodup
  /-- A live allocation is the payload of a used block that is large enough. -/
  block : ∀ p s, (p, s) ∈ live → ∃ y size, (y, size) ∈ used ∧ p = y + 16 ∧ s + 16 ≤ size
  /-- A used block is a live allocation. -/
  owned : ∀ y size, (y, size) ∈ used → ∃ s, (y + 16, s) ∈ live

theorem LiveOf.alloc {live used used' : List (Nat × Nat)} {x size s : Nat}
    (h : LiveOf live used) (hfresh : ∀ z, (x, z) ∉ used) (hs : s + 16 ≤ size)
    (hused : ∀ e, e ∈ used' ↔ e = (x, size) ∨ e ∈ used) :
    LiveOf ((x + 16, s) :: live) used' := by
  constructor
  · rw [List.map_cons, List.nodup_cons]
    refine ⟨fun hmem => ?_, h.nodup⟩
    obtain ⟨⟨p, t⟩, hmem, heq⟩ := List.mem_map.mp hmem
    obtain ⟨y, z, hy, hpy, -⟩ := h.block p t hmem
    have hxy : x = y := by
      simp only at heq
      omega
    exact hfresh z (hxy ▸ hy)
  · intro p t hmem
    rcases List.mem_cons.mp hmem with heq | hmem
    · obtain ⟨rfl, rfl⟩ := Prod.mk.injEq .. ▸ heq
      exact ⟨x, size, (hused _).mpr (Or.inl rfl), rfl, hs⟩
    · obtain ⟨y, z, hy, hp, ht⟩ := h.block p t hmem
      exact ⟨y, z, (hused _).mpr (Or.inr hy), hp, ht⟩
  · intro y z hmem
    rcases (hused _).mp hmem with heq | hmem
    · obtain ⟨rfl, rfl⟩ := Prod.mk.injEq .. ▸ heq
      exact ⟨s, List.mem_cons_self⟩
    · obtain ⟨t, ht⟩ := h.owned y z hmem
      exact ⟨t, List.mem_cons_of_mem _ ht⟩

/-- With pointers live once, a pointer determines its allocation. -/
theorem LiveOf.fst_inj {live used : List (Nat × Nat)} (h : LiveOf live used) {p s t : Nat}
    (hs : (p, s) ∈ live) (ht : (p, t) ∈ live) : s = t :=
  (Prod.mk.inj (List.inj_on_of_nodup_map h.nodup hs ht rfl)).2

theorem LiveOf.release {live used used' : List (Nat × Nat)} {x s : Nat}
    (h : LiveOf live used) (hmem : (x + 16, s) ∈ live)
    (hused : ∀ e, e ∈ used' ↔ e ∈ used ∧ e.1 ≠ x) :
    LiveOf (live.erase (x + 16, s)) used' := by
  have hnd : live.Nodup := List.Nodup.of_map _ h.nodup
  constructor
  · exact h.nodup.sublist (List.Sublist.map _ List.erase_sublist)
  · intro p t hp
    obtain ⟨hne, hlive⟩ := (hnd.mem_erase_iff).mp hp
    obtain ⟨y, z, hy, rfl, ht⟩ := h.block p t hlive
    refine ⟨y, z, (hused _).mpr ⟨hy, ?_⟩, rfl, ht⟩
    rintro rfl
    simp only at hmem hne
    exact hne (by rw [h.fst_inj hmem hlive])
  · intro y z hy
    obtain ⟨hy, hne⟩ := (hused _).mp hy
    obtain ⟨t, ht⟩ := h.owned y z hy
    refine ⟨t, (hnd.mem_erase_iff).mpr ⟨fun heq => hne ?_, ht⟩⟩
    have := (Prod.mk.inj heq).1
    simp only
    omega

/-- A free block of a chain has the address of no used block. -/
theorem not_mem_usedBlocks {a : Nat} {pre post : List Block} {b : Block} (hfree : b.free = true)
    (hw : WellSized (pre ++ b :: post)) (z : Nat) :
    (a + span pre, z) ∉ usedBlocks a (pre ++ b :: post) := by
  intro hmem
  have hb : (a + span pre, b) ∈ placed a (pre ++ b :: post) := by
    rw [placed_append]
    exact List.mem_append_right _ List.mem_cons_self
  have hz := mem_usedBlocks.mp hmem
  have hzsize := (hw _ (mem_placed_bounds hz).1).1
  have hbsize := (hw _ (mem_placed_bounds hb).1).1
  rcases placed_disjoint hb hz with ⟨-, heq⟩ | hlt | hlt
  · rw [heq] at hfree
    cases hfree
  · omega
  · omega

/-- Taking a block adds it to the used blocks. -/
theorem mem_usedBlocks_take {a need : Nat} {pre post : List Block} {b : Block}
    (hfree : b.free = true) (e : Nat × Nat) :
    e ∈ usedBlocks a (pre ++ (carve need b ++ post)) ↔
      e = (a + span pre, carvedSize need b) ∨ e ∈ usedBlocks a (pre ++ b :: post) := by
  simp only [usedBlocks_append, usedBlocks_carve, span_carve, usedBlocks_cons, hfree, if_true,
    List.mem_append, List.mem_singleton]
  grind

/-- Freeing a block removes it from the used blocks. -/
theorem mem_usedBlocks_release {a size : Nat} {pre post : List Block}
    (hw : WellSized (pre ++ ⟨size, false⟩ :: post)) (e : Nat × Nat) :
    e ∈ usedBlocks a (pre ++ ⟨size, true⟩ :: post) ↔
      e ∈ usedBlocks a (pre ++ ⟨size, false⟩ :: post) ∧ e.1 ≠ a + span pre := by
  have hw' : WellSized (pre ++ ⟨size, true⟩ :: post) := by
    simp only [WellSized.append, WellSized.cons] at hw ⊢
    exact hw
  have hnot := not_mem_usedBlocks (a := a) rfl hw'
  have hmem : e ∈ usedBlocks a (pre ++ ⟨size, false⟩ :: post) ↔
      e = (a + span pre, size) ∨ e ∈ usedBlocks a (pre ++ ⟨size, true⟩ :: post) := by
    simp only [usedBlocks_append, usedBlocks_cons, Bool.false_eq_true, if_true, if_false,
      List.mem_append, List.mem_cons]
    grind
  rw [hmem]
  constructor
  · intro he
    refine ⟨Or.inr he, fun heq => hnot e.2 ?_⟩
    rw [← heq]
    exact he
  · rintro ⟨rfl | he, hne⟩
    · exact absurd rfl hne
    · exact he

/-! ## The invariant and the operations -/

/-- The heap is well formed and `live` lists its allocations. -/
def HeapInv {σ : Type} (h : Heap σ) (live : List (Nat × Nat)) : Prop :=
  ∃ bs, HeapRep h bs ∧ LiveOf live (usedBlocks h.heapStart bs)

/-- The bytes that were asked for are the same in both memories. -/
def PayloadKept (m m' : Mem) (live : List (Nat × Nat)) : Prop :=
  ∀ p s, (p, s) ∈ live → ∀ x, p ≤ x → x < p + s → m' x = m x

/-- The headers and the bytes that were asked for are the same in both memories. -/
def BlocksKept (m m' : Mem) (live : List (Nat × Nat)) : Prop :=
  ∀ p s, (p, s) ∈ live → ∀ x, p ≤ x + 16 → x < p + s → m' x = m x

/-- The sizes of the blocks are the same in both memories. -/
def HeadersKept (m m' : Mem) (live : List (Nat × Nat)) : Prop :=
  ∀ p s, (p, s) ∈ live → blockSize m' (p - 16) = blockSize m (p - 16)

theorem BlocksKept.payload {m m' : Mem} {live : List (Nat × Nat)} (h : BlocksKept m m' live) :
    PayloadKept m m' live := fun p s hp x h1 h2 => h p s hp x (Nat.le_add_right_of_le h1) h2

theorem BlocksKept.trans {m m' m'' : Mem} {live : List (Nat × Nat)} (h : BlocksKept m m' live)
    (h' : BlocksKept m' m'' live) : BlocksKept m m'' live :=
  fun p s hp x h1 h2 => (h' p s hp x h1 h2).trans (h p s hp x h1 h2)

theorem BlocksKept.mono {m m' : Mem} {live live' : List (Nat × Nat)} (h : BlocksKept m m' live)
    (hsub : ∀ e ∈ live', e ∈ live) : BlocksKept m m' live' := fun p s hp => h p s (hsub _ hp)

theorem HeadersKept.refl (m : Mem) (live : List (Nat × Nat)) : HeadersKept m m live :=
  fun _ _ _ => rfl

theorem HeadersKept.mono {m m' : Mem} {live live' : List (Nat × Nat)} (h : HeadersKept m m' live)
    (hsub : ∀ e ∈ live', e ∈ live) : HeadersKept m m' live' :=
  fun p s hp => h p s (hsub _ hp)

theorem HeadersKept.trans {m m' m'' : Mem} {live : List (Nat × Nat)}
    (h : HeadersKept m m' live) (h' : HeadersKept m' m'' live) : HeadersKept m m'' live :=
  fun p s hp => (h' p s hp).trans (h p s hp)

theorem UsedKept.blocks {m m' : Mem} {a : Nat} {bs : List Block} {live : List (Nat × Nat)}
    (h : UsedKept m m' a bs) (hl : LiveOf live (usedBlocks a bs)) : BlocksKept m m' live := by
  intro p s hp x hx1 hx2
  obtain ⟨y, size, hy, rfl, hs⟩ := hl.block p s hp
  exact h y size hy x (by omega) (by omega)

section

variable {σ : Type} {h : Heap σ} {live : List (Nat × Nat)} {bs : List Block}

theorem heapInv_kheapInit [HeapBacking σ] (m : Mem) (env : σ) : HeapInv (kheapInit m env) [] := by
  refine ⟨_, heapRep_kheapInit m env, List.nodup_nil, fun _ _ h => absurd h List.not_mem_nil, ?_⟩
  intro y size hy
  simp [usedBlocks_cons] at hy

/-- What `kmalloc` does to a heap: it fails and changes nothing, or it returns
the payload of a block that was not used. -/
theorem HeapRep.kmalloc [HeapBacking σ] (hr : HeapRep h bs)
    (hl : LiveOf live (usedBlocks h.heapStart bs)) {size : Nat} (hsize : size < 2 ^ 63) :
    TunaOs.kmalloc h size = some (h, 0) ∨
      ∃ h' p bs', TunaOs.kmalloc h size = some (h', p) ∧ p ≠ 0 ∧ HeapRep h' bs' ∧
        LiveOf ((p, size) :: live) (usedBlocks h'.heapStart bs') ∧
        UsedKept h.mem h'.mem h.heapStart bs := by
  by_cases hzero : size = 0
  · left
    rw [TunaOs.kmalloc, if_pos hzero]
  obtain ⟨hmod, hmin, hge, -⟩ := requestSize_spec hsize
  have hcarved : ∀ b : Block, b.Fits (requestSize size) →
      size + 16 ≤ carvedSize (requestSize size) b := by
    intro b hb
    have := hb.2
    unfold carvedSize
    split <;> omega
  rcases kmalloc_cases hr hzero hsize with
    ⟨pre, b, post, rfl, -, hb, hk⟩ | ⟨-, -, hk⟩ |
    ⟨-, -, h', -, hr', -, hkept, pre, b, post, hgrow, -, hb, hk⟩
  · right
    obtain ⟨hr', hkept⟩ := hr.take hb hmin hmod
    exact ⟨_, _, _, hk, by omega, hr', hl.alloc (not_mem_usedBlocks hb.1 hr.sized) (hcarved b hb)
      (mem_usedBlocks_take hb.1), hkept⟩
  · exact Or.inl hk
  · right
    have hstart : h'.heapStart = h.heapStart := by rw [hr'.start, hr.start]
    have hsame : usedBlocks h'.heapStart (pre ++ b :: post) = usedBlocks h.heapStart bs := by
      rw [← hgrow, usedBlocks_grow, hstart]
    have hl' : LiveOf live (usedBlocks h'.heapStart (pre ++ b :: post)) := hsame ▸ hl
    rw [hgrow] at hr'
    obtain ⟨hr'', hkept'⟩ := hr'.take hb hmin hmod
    refine ⟨_, _, _, hk, by omega, hr'', hl'.alloc (not_mem_usedBlocks hb.1 hr'.sized)
      (hcarved b hb) (mem_usedBlocks_take hb.1), ?_⟩
    intro y s hy x hx1 hx2
    exact (hkept' y s (hsame ▸ hy) x hx1 hx2).trans (hkept y s hy x hx1 hx2)

/-- What `kfree` of a live pointer does: its block leaves the used blocks. -/
theorem HeapRep.kfree (hr : HeapRep h bs) (hl : LiveOf live (usedBlocks h.heapStart bs))
    {p s : Nat} (hp : (p, s) ∈ live) :
    ∃ m' bs', TunaOs.kfree h p = some (h.withMem m') ∧
      HeapRep (h.withMem m') bs' ∧
      LiveOf (live.erase (p, s)) (usedBlocks h.heapStart bs') ∧
      ∀ y size, (y, size) ∈ usedBlocks h.heapStart bs → y + 16 ≠ p →
        ∀ x, y ≤ x → x < y + size → m' x = h.mem x := by
  obtain ⟨y, size, hy, rfl, -⟩ := hl.block p s hp
  obtain ⟨pre, post, rfl, rfl⟩ := placed_split (mem_usedBlocks.mp hy)
  obtain ⟨m', hk, hr', hkept⟩ := kfree_spec hr
  have hmem := mem_usedBlocks_release (a := h.heapStart) hr.sized
  refine ⟨m', _, hk, hr', ?_, ?_⟩
  · rw [usedBlocks_coalesce]
    exact hl.release hp hmem
  · intro z t hz hne x hx1 hx2
    exact hkept z t ((hmem _).mpr ⟨hz, fun heq => hne (by simp only at heq; omega)⟩) x hx1 hx2

/-- A client's writes to a live payload keep the representation. -/
theorem HeapRep.write (hr : HeapRep h bs) (hl : LiveOf live (usedBlocks h.heapStart bs))
    {p s : Nat} (hp : (p, s) ∈ live) {m' : Mem}
    (hm : ∀ x, x < p ∨ p + s ≤ x → m' x = h.mem x) : HeapRep (h.withMem m') bs := by
  obtain ⟨y, size, hy, rfl, hs⟩ := hl.block p s hp
  obtain ⟨pre, post, rfl, rfl⟩ := placed_split (mem_usedBlocks.mp hy)
  obtain ⟨hpre, hsize, hfree, hpost⟩ := chain_append.mp hr.chain
  obtain ⟨hwpre, hwrest⟩ := WellSized.append.mp hr.sized
  obtain ⟨hb, hwpost⟩ := WellSized.cons.mp hwrest
  simp only at hb hsize hpost
  have hchain : Chain m' h.heapStart (pre ++ ⟨size, false⟩ :: post) h.heapEnd := by
    refine chain_append.mpr ⟨?_, ?_, ?_, ?_⟩
    · exact hpre.congr hwpre fun x _ hx => hm x (by omega)
    · rw [← hsize]
      exact Mem.load_congr fun x _ hx => hm x (by omega)
    · rw [← hfree, show blockFree m' _ = blockFree h.mem _ from
        Mem.load_congr fun x _ hx => hm x (by omega)]
    · exact hpost.congr hwpost fun x hx _ => hm x (by simp only at hx; omega)
  exact ⟨hr.start, hchain, hr.sized, hr.low, hr.high⟩

/-- Two used blocks that meet are one. -/
theorem LiveOf.disjoint (hl : LiveOf live (usedBlocks h.heapStart bs)) {p s q t : Nat}
    (hp : (p, s) ∈ live) (hq : (q, t) ∈ live) (hne : p ≠ q) : p + s ≤ q ∨ q + t ≤ p := by
  obtain ⟨y, size, hy, rfl, hs⟩ := hl.block p s hp
  obtain ⟨z, size', hz, rfl, ht⟩ := hl.block q t hq
  rcases placed_disjoint (mem_usedBlocks.mp hy) (mem_usedBlocks.mp hz) with ⟨heq, -⟩ | hle | hle
  · exact absurd (by rw [heq]) hne
  · simp only at hle
    omega
  · simp only at hle
    omega

end

/-! ## The interface for clients -/

section

variable {σ : Type} {h : Heap σ} {live : List (Nat × Nat)}

theorem HeapInv.kmalloc [HeapBacking σ] (hi : HeapInv h live) (size : Nat)
    (hsize : size < 2 ^ 63) :
    TunaOs.kmalloc h size = some (h, 0) ∨
      ∃ h' p, TunaOs.kmalloc h size = some (h', p) ∧ p ≠ 0 ∧ HeapInv h' ((p, size) :: live) ∧
        BlocksKept h.mem h'.mem live := by
  obtain ⟨bs, hr, hl⟩ := hi
  rcases hr.kmalloc hl hsize with hk | ⟨h', p, bs', hk, hne, hr', hl', hkept⟩
  · exact Or.inl hk
  · exact Or.inr ⟨h', p, hk, hne, ⟨bs', hr', hl'⟩, hkept.blocks hl⟩

theorem HeapInv.kfree (hi : HeapInv h live) {p s : Nat} (hp : (p, s) ∈ live) :
    ∃ m', TunaOs.kfree h p = some (h.withMem m') ∧
      HeapInv (h.withMem m') (live.erase (p, s)) ∧
      BlocksKept h.mem m' (live.erase (p, s)) := by
  obtain ⟨bs, hr, hl⟩ := hi
  obtain ⟨m', bs', hk, hr', hl', hkept⟩ := hr.kfree hl hp
  refine ⟨m', hk, ⟨bs', hr', hl'⟩, ?_⟩
  intro q t hq x hx1 hx2
  obtain ⟨hne, hlive⟩ := (List.Nodup.of_map _ hl.nodup).mem_erase_iff.mp hq
  obtain ⟨z, size, hz, rfl, ht⟩ := hl.block q t hlive
  refine hkept z size hz (fun heq => hne ?_) x (by omega) (by omega)
  subst heq
  rw [hl.fst_inj hp hlive]

theorem HeapInv.write (hi : HeapInv h live) {p s : Nat} (hp : (p, s) ∈ live) {m' : Mem}
    (hm : ∀ x, x < p ∨ p + s ≤ x → m' x = h.mem x) : HeapInv (h.withMem m') live := by
  obtain ⟨bs, hr, hl⟩ := hi
  exact ⟨bs, hr.write hl hp hm, hl⟩

/-- Writes to a live payload leave all headers alone. -/
theorem HeapInv.write_headers (hi : HeapInv h live) {p s : Nat} (hp : (p, s) ∈ live) {m' : Mem}
    (hm : ∀ x, x < p ∨ p + s ≤ x → m' x = h.mem x) : HeadersKept h.mem m' live := by
  obtain ⟨bs, hr, hl⟩ := hi
  intro q t hq
  obtain ⟨y, size, hy, rfl, hs⟩ := hl.block p s hp
  obtain ⟨z, size', hz, rfl, ht⟩ := hl.block q t hq
  rw [Nat.add_sub_cancel]
  refine Mem.load_congr fun x h1 h2 => hm x ?_
  rcases placed_disjoint (mem_usedBlocks.mp hy) (mem_usedBlocks.mp hz) with ⟨rfl, -⟩ | hle | hle
  · omega
  · simp only at hle
    omega
  · simp only at hle
    omega

/-- The order of the list of live allocations does not matter. -/
theorem HeapInv.perm (hi : HeapInv h live) {live' : List (Nat × Nat)} (hp : live.Perm live') :
    HeapInv h live' := by
  obtain ⟨bs, hr, hl⟩ := hi
  refine ⟨bs, hr, (hp.map Prod.fst).nodup_iff.mp hl.nodup, ?_, ?_⟩
  · exact fun p s hmem => hl.block p s (hp.mem_iff.mpr hmem)
  · intro y size hy
    obtain ⟨s, hs⟩ := hl.owned y size hy
    exact ⟨s, hp.mem_iff.mp hs⟩

/-- `kfree` of the first allocation of the list. -/
theorem HeapInv.kfree_head {p s : Nat} (hi : HeapInv h ((p, s) :: live)) :
    ∃ m', TunaOs.kfree h p = some (h.withMem m') ∧
      HeapInv (h.withMem m') live ∧ BlocksKept h.mem m' live := by
  have := hi.kfree List.mem_cons_self
  rwa [List.erase_cons_head] at this

/-- Live payloads lie in the heap, which lies below 4 GiB. -/
theorem HeapInv.bounds (hi : HeapInv h live) {p s : Nat} (hp : (p, s) ∈ live) :
    h.heapStart + 16 ≤ p ∧ p + s ≤ h.heapEnd ∧ h.heapEnd < 2 ^ 32 := by
  obtain ⟨bs, hr, hl⟩ := hi
  obtain ⟨y, size, hy, rfl, hs⟩ := hl.block p s hp
  obtain ⟨-, hlow, hhigh⟩ := mem_placed_bounds (mem_usedBlocks.mp hy)
  have hend := hr.chain.end_eq
  simp only at hhigh
  exact ⟨by omega, by omega, hr.end_lt⟩

/-- A heap has fewer live allocations than bytes. -/
theorem HeapInv.length_lt_walkFuel (hi : HeapInv h live) : live.length < h.walkFuel := by
  have hi' := hi
  obtain ⟨bs, -, hl⟩ := hi'
  have hsub : live.map Prod.fst ⊆ List.range' (h.heapStart + 1) (h.heapEnd - h.heapStart) := by
    intro p hp
    obtain ⟨⟨q, s⟩, hq, rfl⟩ := List.mem_map.mp hp
    have := hi.bounds hq
    rw [List.mem_range'_1]
    simp only
    omega
  have := (List.subperm_of_subset hl.nodup hsub).length_le
  rw [List.length_map, List.length_range'] at this
  exact Nat.lt_succ_of_le this

/-- What keeps the blocks keeps their headers. -/
theorem HeapInv.headers (hi : HeapInv h live) {m' : Mem} {live' : List (Nat × Nat)}
    (hsub : ∀ e ∈ live', e ∈ live) (hkept : BlocksKept h.mem m' live') :
    HeadersKept h.mem m' live' := fun p s hp => by
  have := hi.bounds (hsub _ hp)
  exact Mem.load_congr fun x h1 h2 => hkept p s hp x (by omega) (by omega)

/-- The block of a live allocation is marked as used. -/
theorem HeapInv.used (hi : HeapInv h live) {p s : Nat} (hp : (p, s) ∈ live) :
    blockFree h.mem (p - 16) = 0 := by
  obtain ⟨bs, hr, hl⟩ := hi
  obtain ⟨y, size, hy, rfl, -⟩ := hl.block p s hp
  have hfree := (hr.chain.header (mem_usedBlocks.mp hy)).2
  rw [Nat.add_sub_cancel]
  by_contra hne
  exact absurd (hfree.mp hne) (by simp)

/-- A live pointer has one size. -/
theorem HeapInv.fst_inj (hi : HeapInv h live) {p s t : Nat} (hs : (p, s) ∈ live)
    (ht : (p, t) ∈ live) : s = t := by
  obtain ⟨bs, -, hl⟩ := hi
  exact hl.fst_inj hs ht

/-- The first pointer of the list is not live a second time. -/
theorem HeapInv.head_ne {p s q t : Nat} (hi : HeapInv h ((p, s) :: live))
    (hq : (q, t) ∈ live) : q ≠ p := by
  obtain ⟨bs, -, hl⟩ := hi
  rintro rfl
  have hnd := hl.nodup
  rw [List.map_cons, List.nodup_cons] at hnd
  exact hnd.1 (List.mem_map.mpr ⟨_, hq, rfl⟩)

/-- Live payloads do not meet. -/
theorem HeapInv.disjoint (hi : HeapInv h live) {p s q t : Nat} (hp : (p, s) ∈ live)
    (hq : (q, t) ∈ live) (hne : p ≠ q) : p + s ≤ q ∨ q + t ≤ p := by
  obtain ⟨bs, hr, hl⟩ := hi
  exact hl.disjoint hp hq hne

end

/-! ## Histories -/

/-- The heap with the allocations that are live. -/
structure HeapHistory (σ : Type) where
  /-- The heap. -/
  heap : Heap σ
  /-- Pointers returned by `kmalloc` and not freed since, with the sizes asked
  for. -/
  live : List (Nat × Nat)

section

variable {σ : Type} [HeapBacking σ]

/-- The history at the end of `kheap_init`. -/
def HeapHistory.Start (h : HeapHistory σ) : Prop :=
  ∃ m env, h = ⟨kheapInit m env, []⟩

/-- A call of one of the operations, or a client's write to a byte it owns. -/
inductive HeapStep : HeapHistory σ → HeapHistory σ → Prop
  | mallocNull {h h' : Heap σ} {live : List (Nat × Nat)} {size : Nat} :
      size < 2 ^ 63 → kmalloc h size = some (h', 0) → HeapStep ⟨h, live⟩ ⟨h', live⟩
  | malloc {h h' : Heap σ} {live : List (Nat × Nat)} {size p : Nat} :
      size < 2 ^ 63 → kmalloc h size = some (h', p) → p ≠ 0 →
      HeapStep ⟨h, live⟩ ⟨h', (p, size) :: live⟩
  | freeNull {h h' : Heap σ} {live : List (Nat × Nat)} :
      kfree h 0 = some h' → HeapStep ⟨h, live⟩ ⟨h', live⟩
  | free {h h' : Heap σ} {live : List (Nat × Nat)} {p s : Nat} :
      (p, s) ∈ live → kfree h p = some h' → HeapStep ⟨h, live⟩ ⟨h', live.erase (p, s)⟩
  | write {h : Heap σ} {live : List (Nat × Nat)} {p s x : Nat} {v : UInt8} :
      (p, s) ∈ live → p ≤ x → x < p + s →
      HeapStep ⟨h, live⟩ ⟨h.withMem (h.mem.set x v), live⟩

theorem HeapStep.inv {h h' : HeapHistory σ} (hinv : HeapInv h.heap h.live)
    (hst : HeapStep h h') : HeapInv h'.heap h'.live := by
  cases hst with
  | @mallocNull h h' live size hsize hk =>
      rcases hinv.kmalloc size hsize with hk' | ⟨h'', p, hk', hne, -⟩
      · obtain rfl : h' = h := congrArg Prod.fst (Option.some.inj (hk.symm.trans hk'))
        exact hinv
      · exact absurd (congrArg Prod.snd (Option.some.inj (hk.symm.trans hk'))).symm hne
  | @malloc h h' live size p hsize hk hne =>
      rcases hinv.kmalloc size hsize with hk' | ⟨h'', q, hk', -, hinv', -⟩
      · exact absurd (congrArg Prod.snd (Option.some.inj (hk.symm.trans hk'))) hne
      · obtain ⟨rfl, rfl⟩ := Prod.mk.inj (Option.some.inj (hk.symm.trans hk'))
        exact hinv'
  | freeNull hk =>
      rw [kfree, if_pos rfl] at hk
      exact Option.some.inj hk ▸ hinv
  | free hp hk =>
      obtain ⟨m', hk', hinv', -⟩ := hinv.kfree hp
      exact Option.some.inj (hk'.symm.trans hk) ▸ hinv'
  | write hp hx1 hx2 =>
      exact hinv.write hp fun y hy => Mem.set_other (by omega)

theorem HeapHistory.inv_of_reachable {h : HeapHistory σ}
    (hr : Reachable HeapHistory.Start HeapStep h) : HeapInv h.heap h.live := by
  refine hr.invariant ?_ fun _ _ hinv hst => hst.inv hinv
  rintro h ⟨m, env, rfl⟩
  exact heapInv_kheapInit m env

/-! ## What holds in every history -/

/-- The payloads of the used blocks of `bs` are the same in both memories,
except for the allocation `p`. -/
def PayloadsSame (m m' : Mem) (a : Nat) (bs : List Block) (p : Nat) : Prop :=
  ∀ y b, (y, b) ∈ placed a bs → b.free = false → y + 16 ≠ p →
    ∀ x, y + 16 ≤ x → x < y + b.size → m' x = m x

/-- The representation invariant of a heap whose chain is `bs`, and the safety
of its payloads. -/
structure HeapHistory.Safe (h : HeapHistory σ) (bs : List Block) : Prop where
  /-- The blocks tile the heap. -/
  chain : Chain h.heap.mem h.heap.heapStart bs h.heap.heapEnd
  /-- Sizes are multiples of 8 and at least 32. -/
  sizes : ∀ b ∈ bs, b.size % 8 = 0 ∧ 32 ≤ b.size
  /-- The heap starts at its fixed address. -/
  start : h.heap.heapStart = kheapStart
  /-- The heap ends between its first size and its limit. -/
  bounds : kheapStart + kheapInitialSize ≤ h.heap.heapEnd ∧
    h.heap.heapEnd ≤ kheapStart + kheapMaxSize
  /-- The used blocks are the live allocations. -/
  used_iff : ∀ y b, (y, b) ∈ placed h.heap.heapStart bs →
    (b.free = false ↔ ∃ s, (y + 16, s) ∈ h.live)
  /-- A live pointer is aligned, and is the payload of a block that is large
  enough. -/
  payload : ∀ p s, (p, s) ∈ h.live → p % 8 = 0 ∧
    ∃ y b, (y, b) ∈ placed h.heap.heapStart bs ∧ p = y + 16 ∧ s ≤ b.size - 16
  /-- A pointer is live once. -/
  once : (h.live.map Prod.fst).Nodup
  /-- The payload of a used block meets no other payload and no header. -/
  disjoint : ∀ y b z c, (y, b) ∈ placed h.heap.heapStart bs → b.free = false →
    (z, c) ∈ placed h.heap.heapStart bs →
    (y ≠ z → y + b.size ≤ z + 16 ∨ z + c.size ≤ y + 16) ∧
    (z + 16 ≤ y + 16 ∨ y + b.size ≤ z)
  /-- `kmalloc` returns and keeps every live payload. -/
  kmalloc_keeps : ∀ size, size < 2 ^ 63 → ∃ h' p, kmalloc h.heap size = some (h', p) ∧
    PayloadsSame h.heap.mem h'.mem h.heap.heapStart bs 0
  /-- `kheap_expand` returns and keeps every live payload. -/
  kheapExpand_keeps : ∀ size, size < 2 ^ 63 →
    ∃ h' ok, kheapExpand h.heap (requestSize size) = some (h', ok) ∧
      PayloadsSame h.heap.mem h'.mem h.heap.heapStart bs 0
  /-- `kfree` returns and keeps every other live payload. -/
  kfree_keeps : ∀ p, p = 0 ∨ (∃ s, (p, s) ∈ h.live) → ∃ h', kfree h.heap p = some h' ∧
    PayloadsSame h.heap.mem h'.mem h.heap.heapStart bs p

theorem UsedKept.payloadsSame {m m' : Mem} {a : Nat} {bs : List Block} (h : UsedKept m m' a bs)
    (p : Nat) : PayloadsSame m m' a bs p := by
  rintro y ⟨size, free⟩ hy rfl - x hx1 hx2
  exact h y size (mem_usedBlocks.mpr hy) x (by omega) hx2

omit [HeapBacking σ] in
/-- An address in the chain is a multiple of 8. -/
theorem HeapRep.placed_mod {h : Heap σ} {bs : List Block} (hr : HeapRep h bs) {y : Nat}
    {b : Block} (hy : (y, b) ∈ placed h.heapStart bs) : y % 8 = 0 := by
  obtain ⟨pre, post, rfl, rfl⟩ := placed_split hy
  have hmod := (WellSized.append.mp hr.sized).1.span_mod
  have hstart := hr.start
  simp only [kheapStart] at hstart
  omega

/-- In every history of calls of `kmalloc` with sizes below `2 ^ 63`, of
`kfree` of live pointers and of writes to live payloads, the heap is a chain of
blocks that is safe. -/
theorem heap_safe {h : HeapHistory σ} (hr : Reachable HeapHistory.Start HeapStep h) :
    ∃ bs, h.Safe bs := by
  obtain ⟨bs, hrep, hl⟩ := HeapHistory.inv_of_reachable hr
  have hused : ∀ {y : Nat} {b : Block}, (y, b) ∈ placed h.heap.heapStart bs → b.free = false →
      (y, b.size) ∈ usedBlocks h.heap.heapStart bs := by
    rintro y ⟨size, free⟩ hy rfl
    exact mem_usedBlocks.mpr hy
  have hsame : PayloadsSame h.heap.mem h.heap.mem h.heap.heapStart bs 0 :=
    fun _ _ _ _ _ _ _ _ => rfl
  refine ⟨bs, ?_⟩
  constructor
  case chain => exact hrep.chain
  case sizes => exact fun b hb => And.symm (hrep.sized b hb)
  case start => exact hrep.start
  case bounds => exact ⟨hrep.low, hrep.high⟩
  case once => exact hl.nodup
  case used_iff =>
    intro y b hy
    refine ⟨fun hb => hl.owned y b.size (hused hy hb), ?_⟩
    rintro ⟨s, hs⟩
    obtain ⟨z, size, hz, heq, -⟩ := hl.block _ _ hs
    obtain rfl : y = z := by omega
    have hz' := mem_usedBlocks.mp hz
    have h1 := (hrep.sized _ (mem_placed_bounds hy).1).1
    have h2 := (hrep.sized _ (mem_placed_bounds hz').1).1
    rcases placed_disjoint hy hz' with ⟨-, heq⟩ | hle | hle
    · rw [heq]
    · omega
    · omega
  case payload =>
    intro p s hp
    obtain ⟨y, size, hy, rfl, hs⟩ := hl.block p s hp
    have hy' := mem_usedBlocks.mp hy
    have hmod := hrep.placed_mod hy'
    exact ⟨by omega, y, _, hy', rfl, by simp only; omega⟩
  case disjoint =>
    intro y b z c hy hb hz
    have h1 := (hrep.sized _ (mem_placed_bounds hy).1).1
    have h2 := (hrep.sized _ (mem_placed_bounds hz).1).1
    rcases placed_disjoint hy hz with ⟨rfl, -⟩ | hle | hle
    · exact ⟨fun hne => absurd rfl hne, Or.inl (Nat.le_refl _)⟩
    · exact ⟨fun _ => Or.inl (by omega), Or.inr hle⟩
    · exact ⟨fun _ => Or.inr (by omega), Or.inl (by omega)⟩
  case kmalloc_keeps =>
    intro size hsize
    rcases hrep.kmalloc hl hsize with hk | ⟨h', p, bs', hk, -, -, -, hkept⟩
    · exact ⟨_, _, hk, hsame⟩
    · exact ⟨_, _, hk, hkept.payloadsSame 0⟩
  case kheapExpand_keeps =>
    intro size hsize
    have hle := (requestSize_spec hsize).2.2.2
    rcases kheapExpand_cases hrep (show requestSize size ≤ 2 ^ 63 + 2 ^ 12 by omega) with
      ⟨-, hk⟩ | ⟨-, h', hk, -, -, hkept⟩
    · exact ⟨_, _, hk, hsame⟩
    · exact ⟨_, _, hk, hkept.payloadsSame 0⟩
  case kfree_keeps =>
    rintro p (rfl | ⟨s, hp⟩)
    · exact ⟨_, by rw [kfree, if_pos rfl], hsame⟩
    · obtain ⟨m', bs', hk, -, -, hkept⟩ := hrep.kfree hl hp
      refine ⟨_, hk, ?_⟩
      intro y b hy hb hne x hx1 hx2
      exact hkept y b.size (hused hy hb) hne x (by omega) hx2

end

/-- A heap on its own, without frames and page tables behind it. -/
instance : HeapBacking Unit := ⟨fun _ _ _ => ()⟩

/-- The first allocation of a size that fits into the initial heap succeeds. -/
theorem kmalloc_kheapInit {σ : Type} [HeapBacking σ] (m : Mem) (env : σ) {size : Nat}
    (hpos : size ≠ 0) (hsize : size < 2 ^ 63) (hfit : requestSize size ≤ kheapInitialSize) :
    ∃ h p, kmalloc (kheapInit m env) size = some (h, p) ∧ p ≠ 0 := by
  rcases kmalloc_cases (heapRep_kheapInit m env) hpos hsize with
    ⟨pre, b, post, -, -, -, hk⟩ | ⟨hall, -⟩ | ⟨-, -, h, -, -, -, -, pre, b, post, -, -, -, hk⟩
  · exact ⟨_, _, hk, by omega⟩
  · exact absurd ⟨rfl, hfit⟩ (hall _ (List.mem_singleton_self _))
  · exact ⟨_, _, hk, by omega⟩

/-- The heap is safe after `kheap_init` and an allocation of 100 bytes, which
succeeds. -/
theorem heap_safe_first :
    ∃ h p, kmalloc (kheapInit (fun _ => 0) ()) 100 = some (h, p) ∧ p ≠ 0 ∧
      ∃ bs, (⟨h, [(p, 100)]⟩ : HeapHistory Unit).Safe bs := by
  obtain ⟨h, p, hk, hne⟩ :=
    kmalloc_kheapInit (fun _ => 0) () (show 100 ≠ 0 by decide) (by decide) (by decide)
  exact ⟨h, p, hk, hne, heap_safe (.step (.init ⟨_, _, rfl⟩) (.malloc (by decide) hk hne))⟩

end TunaOs
