import Mathlib.Data.List.Chain
import TunaOs.Kheap.Safety

/-!
# The chain is canonical

`kfree`, `kheap_expand` and `kmalloc` each have their own rule about free
neighbours.  Together they never leave two free blocks side by side
(`Coalesced`), and a coalesced chain is determined by where it ends and by its
used blocks (`Coalesced.unique`).  What the heap looks like after calls that give
back what they took therefore does not depend on their order.
-/

namespace TunaOs

open Word
open Run (Reachable)

/-! ## Coalesced lists of blocks -/

/-- No two neighbouring blocks are both free. -/
def Coalesced (bs : List Block) : Prop :=
  bs.IsChain fun b c => ¬ (b.free = true ∧ c.free = true)

instance (bs : List Block) : Decidable (Coalesced bs) :=
  inferInstanceAs (Decidable (List.IsChain _ bs))

theorem Coalesced.cons {b : Block} {bs : List Block} :
    Coalesced (b :: bs) ↔
      (∀ c ∈ bs.head?, ¬ (b.free = true ∧ c.free = true)) ∧ Coalesced bs :=
  List.isChain_cons

theorem Coalesced.append {bs cs : List Block} :
    Coalesced (bs ++ cs) ↔ Coalesced bs ∧ Coalesced cs ∧
      ∀ b ∈ bs.getLast?, ∀ c ∈ cs.head?, ¬ (b.free = true ∧ c.free = true) :=
  List.isChain_append

/-- A free block in front of a coalesced list. -/
theorem Coalesced.mergeFront {size : Nat} {bs : List Block} (h : Coalesced bs) :
    Coalesced (mergeFront size bs) := by
  cases bs with
  | nil => exact List.isChain_singleton _
  | cons b bs =>
      cases hb : b.free with
      | true =>
          obtain ⟨hhead, hbs⟩ := Coalesced.cons.mp h
          simp only [TunaOs.mergeFront, hb, if_true]
          exact Coalesced.cons.mpr ⟨fun c hc hfree => hhead c hc ⟨hb, hfree.2⟩, hbs⟩
      | false =>
          simp only [TunaOs.mergeFront, hb, Bool.false_eq_true, if_false]
          refine Coalesced.cons.mpr ⟨?_, h⟩
          rintro c hc ⟨-, hfree⟩
          cases Option.some.inj hc
          rw [hb] at hfree
          cases hfree

/-- `coalesce` does what its name says. -/
theorem coalesced_coalesce (bs : List Block) : Coalesced (coalesce bs) := by
  induction bs with
  | nil => exact List.isChain_nil
  | cons b bs ih =>
      cases hb : b.free with
      | true =>
          simp only [coalesce, hb, if_true]
          exact ih.mergeFront
      | false =>
          simp only [coalesce, hb, Bool.false_eq_true, if_false]
          refine Coalesced.cons.mpr ⟨?_, ih⟩
          rintro c - ⟨hfree, -⟩
          rw [hb] at hfree
          cases hfree

/-- Space added at the end joins a free last block. -/
theorem Coalesced.grow (extra : Nat) : ∀ {bs : List Block}, Coalesced bs →
    Coalesced (grow extra bs)
  | [], _ => List.isChain_singleton _
  | [b], h => by
      cases hb : b.free with
      | true =>
          simp only [TunaOs.grow, hb, if_true]
          exact List.isChain_singleton _
      | false => simp [TunaOs.grow, hb, Coalesced]
  | b :: c :: bs, h => by
      obtain ⟨hhead, hbs⟩ := Coalesced.cons.mp h
      refine Coalesced.cons.mpr ⟨?_, hbs.grow extra⟩
      -- the block after `b` may have grown, but it is free only if it was
      rintro d hd ⟨hb, hfree⟩
      refine hhead c rfl ⟨hb, ?_⟩
      cases bs with
      | nil =>
          cases hc : c.free with
          | true => rfl
          | false =>
              simp only [TunaOs.grow, hc, Bool.false_eq_true, if_false, List.head?_cons,
                Option.mem_def, Option.some.injEq] at hd
              rw [← hd, hc] at hfree
              exact hfree
      | cons e bs =>
          rw [Option.some.inj hd]
          exact hfree

/-- Taking a free block leaves its rest, if any, in front of a used block. -/
theorem Coalesced.take {need : Nat} {pre post : List Block} {b : Block}
    (h : Coalesced (pre ++ b :: post)) (hb : b.free = true) :
    Coalesced (pre ++ (carve need b ++ post)) := by
  obtain ⟨hpre, hrest, -⟩ := Coalesced.append.mp h
  obtain ⟨hhead, hpost⟩ := Coalesced.cons.mp hrest
  have hnext : ∀ c ∈ post.head?, c.free = false := by
    intro c hc
    cases hc' : c.free with
    | true => exact absurd ⟨hb, hc'⟩ (hhead c hc)
    | false => rfl
  refine Coalesced.append.mpr ⟨hpre, ?_, ?_⟩
  · unfold carve
    split
    · refine Coalesced.cons.mpr ⟨?_, Coalesced.cons.mpr ⟨?_, hpost⟩⟩
      · rintro c - ⟨hfree, -⟩
        cases hfree
      · rintro c hc ⟨-, hfree⟩
        rw [hnext c hc] at hfree
        cases hfree
    · refine Coalesced.cons.mpr ⟨?_, hpost⟩
      rintro c - ⟨hfree, -⟩
      cases hfree
  · rintro c - d hd ⟨-, hfree⟩
    have hd' : d.free = false := by
      unfold carve at hd
      split at hd <;> exact Option.some.inj hd ▸ rfl
    rw [hd'] at hfree
    cases hfree

/-! ## A coalesced list is determined by its used blocks -/

theorem le_of_mem_usedBlocks {a x s : Nat} {bs : List Block} (h : (x, s) ∈ usedBlocks a bs) :
    a ≤ x := (mem_placed_bounds (mem_usedBlocks.mp h)).2.1

/-- Behind a free first block comes a used one or the end. -/
theorem Coalesced.used_next {a : Nat} {b c : Block} {bs : List Block}
    (h : Coalesced (b :: c :: bs)) (hb : b.free = true) :
    (a + b.size, c.size) ∈ usedBlocks a (b :: c :: bs) := by
  have hc : c.free = false := by
    cases hc : c.free with
    | true => exact absurd ⟨hb, hc⟩ ((Coalesced.cons.mp h).1 c rfl)
    | false => rfl
  rw [usedBlocks_cons, if_pos hb, usedBlocks_cons, hc]
  exact List.mem_cons_self

/-- A free first block reaches at least as far as that of another list with the
same used blocks. -/
theorem Coalesced.first_le {a : Nat} {b c : Block} {bs cs : List Block}
    (h : Coalesced (b :: bs)) (hb : b.free = true) (hc : c.free = true)
    (hspan : span (b :: bs) = span (c :: cs))
    (hused : ∀ e, e ∈ usedBlocks a (b :: bs) → e ∈ usedBlocks a (c :: cs)) :
    c.size ≤ b.size := by
  cases bs with
  | nil =>
      simp only [span_cons, span_nil] at hspan
      omega
  | cons d bs =>
      have hmem := hused _ (h.used_next hb)
      rw [usedBlocks_cons, if_pos hc] at hmem
      have := le_of_mem_usedBlocks hmem
      omega

/-- A used first block is the first block of every list with the same used
blocks. -/
theorem first_used {a : Nat} {b c : Block} {bs cs : List Block} (hb : b.free = false)
    (hw : 32 ≤ c.size) (hused : ∀ e, e ∈ usedBlocks a (b :: bs) → e ∈ usedBlocks a (c :: cs)) :
    c = b := by
  have hmem : (a, b.size) ∈ usedBlocks a (c :: cs) := by
    apply hused
    rw [usedBlocks_cons, hb]
    exact List.mem_cons_self
  rw [usedBlocks_cons] at hmem
  have hlater : (a, b.size) ∉ usedBlocks (a + c.size) cs := by
    intro h
    have := le_of_mem_usedBlocks h
    omega
  cases hc : c.free with
  | true =>
      rw [if_pos hc] at hmem
      exact absurd hmem hlater
  | false =>
      rw [hc, if_neg Bool.false_ne_true] at hmem
      rcases List.mem_cons.mp hmem with heq | hmem
      · have hsize := (Prod.mk.inj heq).2
        cases b
        cases c
        simp_all
      · exact absurd hmem hlater

/-- The used blocks behind a first block of either kind. -/
theorem mem_usedBlocks_tail {a : Nat} {b : Block} {bs : List Block} (hw : 32 ≤ b.size)
    (e : Nat × Nat) :
    e ∈ usedBlocks (a + b.size) bs ↔ e ∈ usedBlocks a (b :: bs) ∧ e.1 ≠ a := by
  have hlater : e ∈ usedBlocks (a + b.size) bs → e.1 ≠ a := by
    intro h
    have := le_of_mem_usedBlocks h
    omega
  rw [usedBlocks_cons]
  cases hb : b.free with
  | true =>
      rw [if_pos rfl]
      exact ⟨fun h => ⟨h, hlater h⟩, fun h => h.1⟩
  | false =>
      rw [if_neg Bool.false_ne_true, List.mem_cons]
      refine ⟨fun h => ⟨Or.inr h, hlater h⟩, ?_⟩
      rintro ⟨rfl | h, hne⟩
      · exact absurd rfl hne
      · exact h

/-- Two coalesced lists over the same range with the same used blocks are equal. -/
theorem Coalesced.unique {bs : List Block} : ∀ {cs : List Block} {a : Nat}, WellSized bs →
    WellSized cs → Coalesced bs → Coalesced cs → span bs = span cs →
    (∀ e, e ∈ usedBlocks a bs ↔ e ∈ usedBlocks a cs) → bs = cs := by
  induction bs with
  | nil =>
      intro cs a _ hwc _ _ hspan _
      have hlen := hwc.length_le
      rw [← hspan, span_nil] at hlen
      exact (List.eq_nil_of_length_eq_zero (Nat.le_zero.mp hlen)).symm
  | cons b bs ih =>
      intro cs a hwb hwc hb hc hspan hused
      obtain ⟨hbsize, hwbs⟩ := WellSized.cons.mp hwb
      cases cs with
      | nil =>
          simp only [span_cons, span_nil] at hspan
          omega
      | cons c cs =>
          obtain ⟨hcsize, hwcs⟩ := WellSized.cons.mp hwc
          have hfirst : c = b := by
            cases hbf : b.free with
            | false => exact first_used hbf hcsize.1 fun e he => (hused e).mp he
            | true =>
                cases hcf : c.free with
                | false => exact (first_used hcf hbsize.1 fun e he => (hused e).mpr he).symm
                | true =>
                    have h1 := hb.first_le hbf hcf hspan fun e he => (hused e).mp he
                    have h2 := hc.first_le hcf hbf hspan.symm fun e he => (hused e).mpr he
                    have hsize := Nat.le_antisymm h1 h2
                    cases b
                    cases c
                    simp_all
          subst hfirst
          rw [ih hwbs hwcs (Coalesced.cons.mp hb).2 (Coalesced.cons.mp hc).2
            (a := a + c.size) (by simpa using hspan) fun e => ?_]
          rw [mem_usedBlocks_tail hbsize.1, mem_usedBlocks_tail hcsize.1, hused]

/-! ## The chain of a heap -/

/-- The blocks that the headers describe from `cur` on. -/
def blocksFrom (m : Mem) (heapEnd : Nat) : Nat → Nat → List Block
  | 0, _ => []
  | fuel + 1, cur =>
      if cur < heapEnd then
        ⟨blockSize m cur, blockFree m cur != 0⟩ :: blocksFrom m heapEnd fuel (nextBlock m cur)
      else []

/-- The chain of a heap, read off its headers. -/
def Heap.blocks {σ : Type} (h : Heap σ) : List Block :=
  blocksFrom h.mem h.heapEnd h.walkFuel h.heapStart

theorem blocksFrom_eq {m : Mem} {e : Nat} (he : e < 2 ^ 32) {bs : List Block} {a fuel : Nat}
    (h : Chain m a bs e) (hw : WellSized bs) (hlen : bs.length < fuel) :
    blocksFrom m e fuel a = bs := by
  induction bs generalizing a fuel with
  | nil =>
      obtain ⟨n, rfl⟩ : ∃ n, fuel = n + 1 := Nat.exists_eq_add_one.mpr hlen
      rw [blocksFrom, if_neg (Nat.not_lt.mpr (Nat.le_of_eq (show a = e from h).symm))]
  | cons b bs ih =>
      obtain ⟨n, rfl⟩ : ∃ n, fuel = n + 1 := Nat.exists_eq_add_one.mpr (Nat.zero_lt_of_lt hlen)
      have hfree : (blockFree m a != 0) = b.free := by
        rw [Bool.eq_iff_iff, bne_iff_ne]
        exact h.2.1
      rw [blocksFrom, if_pos (h.lt_end hw), nextBlock_eq h he,
        ih h.2.2 (WellSized.cons.mp hw).2 (Nat.lt_of_succ_lt_succ hlen), hfree, h.1]

section

variable {σ : Type} {h : Heap σ} {bs : List Block}

/-- The chain that a heap represents is the one its headers describe. -/
theorem HeapRep.blocks_eq (hr : HeapRep h bs) : h.blocks = bs :=
  blocksFrom_eq hr.end_lt hr.chain hr.sized hr.length_lt

theorem HeapRep.span_eq (hr : HeapRep h bs) : span bs = h.heapEnd - kheapStart := by
  have hend := hr.chain.end_eq
  rw [hr.start] at hend
  omega

/-- Two coalesced heaps that end at the same address and have the same used
blocks have the same chain. -/
theorem HeapRep.blocks_unique {h' : Heap σ} {bs' : List Block} (hr : HeapRep h bs)
    (hr' : HeapRep h' bs') (hc : Coalesced bs) (hc' : Coalesced bs')
    (hend : h'.heapEnd = h.heapEnd)
    (hused : ∀ e, e ∈ usedBlocks h'.heapStart bs' ↔ e ∈ usedBlocks h.heapStart bs) :
    bs' = bs := by
  rw [hr.start, hr'.start] at hused
  refine Coalesced.unique hr'.sized hr.sized hc' hc ?_ hused
  rw [hr.span_eq, hr'.span_eq, hend]

/-- The heap a successful `kmalloc` takes its block from: the heap before the
call, or that heap expanded. -/
def TakenFrom [HeapBacking σ] (h g : Heap σ) (size : Nat) : Prop :=
  g = h ∨ (kheapExpand h (requestSize size) = some (g, true) ∧ g.heapEnd ≠ h.heapEnd)

/-- What a successful `kmalloc` does to a coalesced chain. -/
theorem HeapRep.kmalloc_taken [HeapBacking σ] {h' : Heap σ} {size p : Nat} (hr : HeapRep h bs)
    (hc : Coalesced bs) (hsize : size < 2 ^ 63) (hk : TunaOs.kmalloc h size = some (h', p))
    (hp : p ≠ 0) :
    ∃ g cs bs' t, TakenFrom h g size ∧ HeapRep g cs ∧ Coalesced cs ∧ HeapRep h' bs' ∧
      Coalesced bs' ∧ h'.heapEnd = g.heapEnd ∧
      (∀ z, (p - 16, z) ∉ usedBlocks g.heapStart cs) ∧
      ∀ e, e ∈ usedBlocks h'.heapStart bs' ↔
        e = (p - 16, t) ∨ e ∈ usedBlocks g.heapStart cs := by
  have hzero : size ≠ 0 := by
    rintro rfl
    rw [TunaOs.kmalloc, if_pos rfl] at hk
    exact hp (Prod.mk.inj (Option.some.inj hk)).2.symm
  obtain ⟨hmod, hmin, -, hle⟩ := requestSize_spec hsize
  -- the part that both ways of finding a block share
  have htake : ∀ {g : Heap σ} {pre post : List Block} {b : Block},
      HeapRep g (pre ++ b :: post) → Coalesced (pre ++ b :: post) → b.Fits (requestSize size) →
      TunaOs.kmalloc h size = some (g.withMem (takeBlock g.mem (g.heapStart + span pre)
        (requestSize size)), g.heapStart + span pre + 16) →
      ∃ bs' t, HeapRep h' bs' ∧ Coalesced bs' ∧ h'.heapEnd = g.heapEnd ∧
        (∀ z, (p - 16, z) ∉ usedBlocks g.heapStart (pre ++ b :: post)) ∧
        ∀ e, e ∈ usedBlocks h'.heapStart bs' ↔
          e = (p - 16, t) ∨ e ∈ usedBlocks g.heapStart (pre ++ b :: post) := by
    intro g pre post b hg hcg hb hkg
    obtain ⟨rfl, rfl⟩ := Prod.mk.inj (Option.some.inj (hk.symm.trans hkg))
    rw [Nat.add_sub_cancel]
    exact ⟨_, _, (hg.take hb hmin hmod).1, hcg.take hb.1, rfl,
      not_mem_usedBlocks hb.1 hg.sized, mem_usedBlocks_take hb.1⟩
  rcases kmalloc_cases hr hzero hsize with
    ⟨pre, b, post, rfl, -, hb, hkg⟩ | ⟨-, -, hkg⟩ |
    ⟨-, -, g, hexp, hg, hend, -, pre, b, post, hgrow, -, hb, hkg⟩
  · obtain ⟨bs', t, hr', hc', hend, hfresh, hused⟩ := htake hr hc hb hkg
    exact ⟨h, _, bs', t, Or.inl rfl, hr, hc, hr', hc', hend, hfresh, hused⟩
  · exact absurd (Prod.mk.inj (Option.some.inj (hk.symm.trans hkg))).2 hp
  · have hcg := hc.grow (expandSize (requestSize size))
    rw [hgrow] at hg hcg
    obtain ⟨bs', t, hr', hc', hend', hfresh, hused⟩ := htake hg hcg hb hkg
    have hpage := (expandSize_spec (show requestSize size ≤ 2 ^ 63 + 2 ^ 12 by omega)).2.1
    exact ⟨g, _, bs', t, Or.inr ⟨hexp, by omega⟩, hg, hcg, hr', hc', hend', hfresh, hused⟩

/-- What `kfree` of the payload of a used block does to a chain. -/
theorem HeapRep.kfree_blocks {y size : Nat} (hr : HeapRep h bs)
    (hy : (y, size) ∈ usedBlocks h.heapStart bs) :
    ∃ h' bs', TunaOs.kfree h (y + 16) = some h' ∧ HeapRep h' bs' ∧ Coalesced bs' ∧
      h'.heapEnd = h.heapEnd ∧
      ∀ e, e ∈ usedBlocks h'.heapStart bs' ↔ e ∈ usedBlocks h.heapStart bs ∧ e.1 ≠ y := by
  obtain ⟨pre, post, rfl, rfl⟩ := placed_split (mem_usedBlocks.mp hy)
  obtain ⟨m', hk, hr', -⟩ := kfree_spec hr
  refine ⟨_, _, hk, hr', coalesced_coalesce _, rfl, fun e => ?_⟩
  rw [usedBlocks_coalesce]
  exact mem_usedBlocks_release hr.sized e

end

/-! ## Histories -/

section

variable {σ : Type} [HeapBacking σ]

/-- A step of a client, or an expansion for a request on its own. -/
inductive HeapCall : HeapHistory σ → HeapHistory σ → Prop
  | client {h h' : HeapHistory σ} : HeapStep h h' → HeapCall h h'
  | expand {h h' : Heap σ} {live : List (Nat × Nat)} {size : Nat} {ok : Bool} :
      size < 2 ^ 63 → kheapExpand h (requestSize size) = some (h', ok) →
      HeapCall ⟨h, live⟩ ⟨h', live⟩

/-- The heap is well formed, `live` lists its allocations, and its chain is
coalesced. -/
def HeapHistory.Tidy (h : HeapHistory σ) : Prop :=
  HeapInv h.heap h.live ∧ Coalesced h.heap.blocks

/-- The two outcomes of `kheap_expand` on a tidy heap. -/
theorem HeapHistory.Tidy.expand {h : HeapHistory σ} (ht : h.Tidy) {h' : Heap σ} {size : Nat}
    {ok : Bool} (hsize : size < 2 ^ 63)
    (hk : kheapExpand h.heap (requestSize size) = some (h', ok)) :
    HeapHistory.Tidy ⟨h', h.live⟩ := by
  obtain ⟨⟨bs, hr, hl⟩, hc⟩ := ht
  rw [hr.blocks_eq] at hc
  have hle := (requestSize_spec hsize).2.2.2
  rcases kheapExpand_cases hr (show requestSize size ≤ 2 ^ 63 + 2 ^ 12 by omega) with
    ⟨-, hk'⟩ | ⟨-, g, hk', hg, -, -⟩
  · obtain ⟨rfl, -⟩ := Prod.mk.inj (Option.some.inj (hk'.symm.trans hk))
    exact ⟨⟨bs, hr, hl⟩, hr.blocks_eq.symm ▸ hc⟩
  · obtain ⟨rfl, -⟩ := Prod.mk.inj (Option.some.inj (hk'.symm.trans hk))
    refine ⟨⟨_, hg, ?_⟩, hg.blocks_eq.symm ▸ hc.grow _⟩
    rw [usedBlocks_grow, hg.start, ← hr.start]
    exact hl

/-- Every step of a client leaves the chain coalesced. -/
theorem HeapHistory.Tidy.client {h h' : HeapHistory σ} (ht : h.Tidy) (hst : HeapStep h h') :
    h'.Tidy := by
  refine ⟨hst.inv ht.1, ?_⟩
  obtain ⟨⟨bs, hr, hl⟩, hc⟩ := ht
  have hc' := hr.blocks_eq ▸ hc
  cases hst with
  | @mallocNull h h' live size hsize hk =>
      rcases hr.kmalloc hl hsize with hk' | ⟨_, p, _, hk', hne, -⟩
      · obtain rfl : h' = h := congrArg Prod.fst (Option.some.inj (hk.symm.trans hk'))
        exact hc
      · exact absurd (congrArg Prod.snd (Option.some.inj (hk.symm.trans hk'))).symm hne
  | malloc hsize hk hne =>
      obtain ⟨_, _, bs', _, -, -, -, hr', hcoal, -⟩ := hr.kmalloc_taken hc' hsize hk hne
      exact hr'.blocks_eq.symm ▸ hcoal
  | freeNull hk =>
      rw [kfree, if_pos rfl] at hk
      exact Option.some.inj hk ▸ hc
  | @free h h' live p s hp hk =>
      obtain ⟨y, size, hy, rfl, -⟩ := hl.block p s hp
      obtain ⟨_, bs', hk', hr', hcoal, -⟩ := hr.kfree_blocks hy
      obtain rfl := Option.some.inj (hk'.symm.trans hk)
      exact hr'.blocks_eq.symm ▸ hcoal
  | @write h live p s x v hp hx1 hx2 =>
      have hr' : HeapRep (h.withMem (h.mem.set x v)) bs :=
        hr.write hl hp fun y hy => Mem.set_other (by omega)
      exact hr'.blocks_eq.symm ▸ hc'

theorem HeapHistory.tidy_of_reachable {h : HeapHistory σ}
    (hr : Reachable HeapHistory.Start HeapCall h) : h.Tidy := by
  refine hr.invariant ?_ ?_
  · rintro h ⟨m, env, rfl⟩
    refine ⟨heapInv_kheapInit m env, ?_⟩
    rw [(heapRep_kheapInit m env).blocks_eq]
    exact List.isChain_singleton _
  · intro h h' ht hst
    cases hst with
    | client hst => exact ht.client hst
    | expand hsize hk => exact ht.expand hsize hk

/-- What it means for a heap to be canonical. -/
structure HeapHistory.Canonical (h : HeapHistory σ) : Prop where
  /-- The chain tiles the heap. -/
  chain : Chain h.heap.mem h.heap.heapStart h.heap.blocks h.heap.heapEnd
  /-- No two neighbouring blocks are both free. -/
  coalesced : Coalesced h.heap.blocks
  /-- The chain is determined by `heap_end` and the set of used blocks. -/
  determined : ∀ h' : HeapHistory σ, Reachable HeapHistory.Start HeapCall h' →
    h'.heap.heapEnd = h.heap.heapEnd →
    (∀ e, e ∈ usedBlocks h'.heap.heapStart h'.heap.blocks ↔
      e ∈ usedBlocks h.heap.heapStart h.heap.blocks) →
    h'.heap.blocks = h.heap.blocks
  /-- Two live pointers can be freed in either order. -/
  kfree_comm : ∀ p s q t, (p, s) ∈ h.live → (q, t) ∈ h.live → p ≠ q →
    ∃ hp hpq hq hqp, kfree h.heap p = some hp ∧ kfree hp q = some hpq ∧
      kfree h.heap q = some hq ∧ kfree hq p = some hqp ∧ hpq.blocks = hqp.blocks
  /-- Freeing what `kmalloc` returned restores the chain it took the block
  from. -/
  kmalloc_kfree : ∀ size h' p, size < 2 ^ 63 → kmalloc h.heap size = some (h', p) → p ≠ 0 →
    ∃ h'', kfree h' p = some h'' ∧
      (h'.heapEnd = h.heap.heapEnd → h''.blocks = h.heap.blocks) ∧
      (h'.heapEnd ≠ h.heap.heapEnd →
        ∃ g, kheapExpand h.heap (requestSize size) = some (g, true) ∧ h''.blocks = g.blocks)
  /-- With nothing allocated the heap is one free block. -/
  empty : h.live = [] → h.heap.blocks = [⟨h.heap.heapEnd - h.heap.heapStart, true⟩]

omit [HeapBacking σ] in
theorem HeapHistory.Tidy.kfree_comm {h : HeapHistory σ} (ht : h.Tidy) {p s q t : Nat}
    (hp : (p, s) ∈ h.live) (hq : (q, t) ∈ h.live) (hne : p ≠ q) :
    ∃ hp hpq hq hqp, kfree h.heap p = some hp ∧ kfree hp q = some hpq ∧
      kfree h.heap q = some hq ∧ kfree hq p = some hqp ∧ hpq.blocks = hqp.blocks := by
  obtain ⟨⟨bs, hr, hl⟩, -⟩ := ht
  obtain ⟨y, ysize, hy, rfl, -⟩ := hl.block p s hp
  obtain ⟨z, zsize, hz, rfl, -⟩ := hl.block q t hq
  have hyz : y ≠ z := fun heq => hne (by rw [heq])
  obtain ⟨h1, bs1, hk1, hr1, -, hend1, hused1⟩ := hr.kfree_blocks hy
  obtain ⟨h2, bs2, hk2, hr2, hc2, hend2, hused2⟩ :=
    hr1.kfree_blocks ((hused1 _).mpr ⟨hz, hyz.symm⟩)
  obtain ⟨h3, bs3, hk3, hr3, -, hend3, hused3⟩ := hr.kfree_blocks hz
  obtain ⟨h4, bs4, hk4, hr4, hc4, hend4, hused4⟩ :=
    hr3.kfree_blocks ((hused3 _).mpr ⟨hy, hyz⟩)
  refine ⟨h1, h2, h3, h4, hk1, hk2, hk3, hk4, ?_⟩
  rw [hr2.blocks_eq, hr4.blocks_eq]
  refine hr4.blocks_unique hr2 hc4 hc2 (by rw [hend2, hend1, hend4, hend3]) fun e => ?_
  rw [hused2, hused1, hused4, hused3, and_assoc, and_assoc, and_comm (a := e.1 ≠ y)]

/-- A block is taken, its payload is written, and it is given back. -/
theorem HeapHistory.Tidy.kmalloc_write_kfree {h : HeapHistory σ} (ht : h.Tidy) {size p : Nat}
    {h' : Heap σ} (hsize : size < 2 ^ 63) (hk : kmalloc h.heap size = some (h', p))
    (hp : p ≠ 0) {m' : Mem} (hm : ∀ x, x < p ∨ p + size ≤ x → m' x = h'.mem x) :
    ∃ h'' g, kfree (h'.withMem m') p = some h'' ∧ TakenFrom h.heap g size ∧
      h''.heapEnd = g.heapEnd ∧ h''.blocks = g.blocks := by
  obtain ⟨⟨bs, hr, hl⟩, hc⟩ := ht
  obtain ⟨g, cs, bs', t, hfrom, hg, hcg, hr', hc', hend, hfresh, hused⟩ :=
    hr.kmalloc_taken (hr.blocks_eq ▸ hc) hsize hk hp
  -- the writes leave the chain as it is
  have hw : HeapRep (h'.withMem m') bs' := by
    rcases hr.kmalloc hl hsize with hk' | ⟨h₁, p₁, bs₁, hk', -, hr₁, hl₁, -⟩
    · exact absurd (Prod.mk.inj (Option.some.inj (hk.symm.trans hk'))).2 hp
    · obtain ⟨rfl, rfl⟩ := Prod.mk.inj (Option.some.inj (hk'.symm.trans hk))
      obtain rfl := hr₁.blocks_eq.symm.trans hr'.blocks_eq
      exact hr'.write hl₁ List.mem_cons_self hm
  have hnew : (p - 16, t) ∈ usedBlocks (h'.withMem m').heapStart bs' :=
    (hused _).mpr (Or.inl rfl)
  have hback : p - 16 + 16 = p := by
    have := le_of_mem_usedBlocks hnew
    rw [hw.start, kheapStart] at this
    omega
  obtain ⟨h'', bs'', hkf, hr'', hc'', hend'', hused''⟩ := hw.kfree_blocks hnew
  rw [hback] at hkf
  refine ⟨h'', g, hkf, hfrom, hend''.trans hend, ?_⟩
  rw [hr''.blocks_eq, hg.blocks_eq]
  refine hg.blocks_unique hr'' hcg hc'' (hend''.trans hend) fun e => ?_
  rw [hused'', Heap.withMem_heapStart, hused]
  constructor
  · rintro ⟨rfl | he, hne⟩
    · exact absurd rfl hne
    · exact he
  · intro he
    refine ⟨Or.inr he, fun heq => hfresh e.2 ?_⟩
    rw [← heq]
    exact he

omit [HeapBacking σ] in
theorem HeapHistory.Tidy.empty {h : HeapHistory σ} (ht : h.Tidy) (hlive : h.live = []) :
    h.heap.blocks = [⟨h.heap.heapEnd - h.heap.heapStart, true⟩] := by
  obtain ⟨⟨bs, hr, hl⟩, hc⟩ := ht
  rw [hr.blocks_eq] at hc ⊢
  have hnone : ∀ e, e ∉ usedBlocks h.heap.heapStart bs := by
    rintro ⟨y, size⟩ hy
    obtain ⟨s, hs⟩ := hl.owned y size hy
    rw [hlive] at hs
    cases hs
  have hspan := hr.span_eq
  rw [← hr.start] at hspan
  cases bs with
  | nil => exact absurd rfl hr.ne_nil
  | cons b bs =>
      have hb : b.free = true := by
        cases hb : b.free with
        | true => rfl
        | false =>
            refine absurd ?_ (hnone (h.heap.heapStart, b.size))
            rw [usedBlocks_cons, hb]
            exact List.mem_cons_self
      cases bs with
      | nil =>
          rw [← hspan, span_cons, span_nil, Nat.add_zero, ← hb]
      | cons c bs => exact absurd (hc.used_next hb) (hnone _)

/-- In every state that `kmalloc`, `kheap_expand` and `kfree` of live pointers
reach from `kheap_init`, the heap is canonical. -/
theorem heap_canonical {h : HeapHistory σ} (hr : Reachable HeapHistory.Start HeapCall h) :
    h.Canonical := by
  have ht := HeapHistory.tidy_of_reachable hr
  constructor
  case chain =>
    obtain ⟨⟨bs, hrep, -⟩, -⟩ := ht
    rw [hrep.blocks_eq]
    exact hrep.chain
  case coalesced => exact ht.2
  case determined =>
    intro h' hr' hend hused
    obtain ⟨⟨bs, hrep, -⟩, hc⟩ := ht
    obtain ⟨⟨bs', hrep', -⟩, hc'⟩ := HeapHistory.tidy_of_reachable hr'
    rw [hrep.blocks_eq] at hc hused ⊢
    rw [hrep'.blocks_eq] at hc' hused ⊢
    exact hrep.blocks_unique hrep' hc hc' hend hused
  case kfree_comm => exact fun p s q t hp hq hne => ht.kfree_comm hp hq hne
  case kmalloc_kfree =>
    intro size h' p hsize hk hp
    obtain ⟨h'', g, hkf, hfrom, hend, hblocks⟩ :=
      ht.kmalloc_write_kfree hsize hk hp fun _ _ => rfl
    rw [(kfree_env hkf).2] at hend
    refine ⟨h'', hkf, fun hsame => ?_, fun hgrew => ?_⟩
    · rcases hfrom with rfl | ⟨-, hne⟩
      · exact hblocks
      · exact absurd (hend.symm.trans hsame) hne
    · rcases hfrom with rfl | ⟨hexp, -⟩
      · exact absurd hend hgrew
      · exact ⟨g, hexp, hblocks⟩
  case empty => exact ht.empty

end

/-- The heap is canonical after `kheap_init` and an allocation of 100 bytes. -/
theorem heap_canonical_first :
    ∃ h p, kmalloc (kheapInit (fun _ => 0) ()) 100 = some (h, p) ∧ p ≠ 0 ∧
      (⟨h, [(p, 100)]⟩ : HeapHistory Unit).Canonical := by
  obtain ⟨h, p, hk, hne⟩ :=
    kmalloc_kheapInit (fun _ => 0) () (show 100 ≠ 0 by decide) (by decide) (by decide)
  exact ⟨h, p, hk, hne,
    heap_canonical (.step (.init ⟨_, _, rfl⟩) (.client (.malloc (by decide) hk hne)))⟩

end TunaOs
