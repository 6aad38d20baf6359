import TunaOs.Kheap.Client

/-!
# Allocations with room

What a client can count on as long as the heap stays below its limit: `kmalloc` does not
fail, it makes the heap larger by the pages of one request at most, and neither `kmalloc`
nor `kfree` changes a settled byte.
-/

namespace TunaOs

/-! ## What `kfree` writes -/

/-- The walk of `kfree` writes below the end of the chain. -/
theorem coalesceWalk_above {e n x : Nat} (he : e < 2 ^ 32) (hx : e ≤ x) :
    ∀ (fuel : Nat) {bs : List Block} {m m' : Mem} {a : Nat}, Chain m a bs e → WellSized bs →
      bs.length < n → coalesceWalk e n fuel m a = some m' → m' x = m x := by
  intro fuel
  induction fuel with
  | zero =>
      intro bs m m' a _ _ _ hwalk
      cases hwalk
  | succ fuel ih =>
      intro bs m m' a h hw hn hwalk
      cases bs with
      | nil =>
          have hae : a = e := h
          rw [coalesceWalk, if_neg (by omega)] at hwalk
          cases hwalk
          rfl
      | cons b bs =>
          obtain ⟨hbsize, hwbs⟩ := WellSized.cons.mp hw
          have hend := h.end_eq
          rw [span_cons] at hend
          rw [List.length_cons] at hn
          rw [coalesceWalk, if_pos (h.lt_end hw)] at hwalk
          cases hfree : b.free with
          | true =>
              -- the block takes in the free ones behind it, and the walk goes on after them
              have hb : b = ⟨b.size, true⟩ := by
                rw [← hfree]
              rw [hb] at h
              obtain ⟨m₁, habs, hchain, hkeep⟩ :=
                absorb_spec he h hwbs hbsize.1 (show bs.length < n by omega)
              have hnext := nextBlock_eq hchain he
              have hrun := freeRun_length bs b.size
              rw [if_pos (h.2.1.mpr rfl), habs] at hwalk
              simp only [hnext] at hwalk
              rw [ih hchain.2.2 (hwbs.freeRun b.size) (by omega) hwalk, hkeep x (by omega)]
          | false =>
              have hused : ¬ blockFree m a ≠ 0 := fun hc => by
                rw [h.2.1.mp hc] at hfree
                cases hfree
              rw [if_neg hused] at hwalk
              simp only [nextBlock_eq h he] at hwalk
              exact ih h.2.2 hwbs (by omega) hwalk

section

variable {σ : Type} {h h' : Heap σ} {live : List (Nat × Nat)} {p s x size : Nat}

/-- The chain with a used block marked as free. -/
theorem HeapRep.marked {pre post : List Block} (hr : HeapRep h (pre ++ ⟨size, false⟩ :: post)) :
    Chain (setFree h.mem (h.heapStart + span pre) 1) h.heapStart (pre ++ ⟨size, true⟩ :: post)
      h.heapEnd := by
  obtain ⟨hpre, hsize, -, hpost⟩ := chain_append.mp hr.chain
  obtain ⟨hwpre, hwrest⟩ := WellSized.append.mp hr.sized
  obtain ⟨hb, hwpost⟩ := WellSized.cons.mp hwrest
  have hend := hr.chain.end_eq
  have hlt := hr.end_lt
  simp only [span_append, span_cons] at hend hb hpost
  refine chain_append.mpr ⟨?_, ?_, ?_, ?_⟩
  · exact hpre.congr hwpre fun x _ hx => setFree_other (by omega)
  · rw [blockSize_setFree (by omega)]
    exact hsize
  · rw [blockFree_setFree_self (by decide)]
    simp
  · exact hpost.congr hwpost fun x hx _ => setFree_other (by simp only at hx; omega)

/-- `kfree` writes in the heap. -/
theorem HeapInv.kfree_outside (hi : HeapInv h ((p, s) :: live)) (hk : TunaOs.kfree h p = some h')
    (hx : x < h.heapStart ∨ h.heapEnd ≤ x) : h'.mem x = h.mem x := by
  obtain ⟨bs, hr, hl⟩ := hi
  obtain ⟨y, size, hy, rfl, -⟩ := hl.block p s List.mem_cons_self
  obtain ⟨pre, post, rfl, rfl⟩ := placed_split (mem_usedBlocks.mp hy)
  have hmarked := hr.marked
  have hlen := hr.length_lt
  have hend := hr.chain.end_eq
  have hsized : WellSized (pre ++ ⟨size, true⟩ :: post) := by
    obtain ⟨hpre, hrest⟩ := WellSized.append.mp hr.sized
    obtain ⟨hb, hpost⟩ := WellSized.cons.mp hrest
    exact WellSized.append.mpr ⟨hpre, WellSized.cons.mpr ⟨hb, hpost⟩⟩
  have hb := (WellSized.cons.mp (WellSized.append.mp hr.sized).2).1
  simp only [List.length_append, List.length_cons, span_append, span_cons] at hlen hend hb
  have hflag : setFree h.mem (h.heapStart + span pre) 1 x = h.mem x := setFree_other (by omega)
  rw [TunaOs.kfree, if_neg (by omega)] at hk
  simp only [headerSize, Nat.add_sub_cancel] at hk
  cases hwalk : coalesceWalk h.heapEnd h.walkFuel h.walkFuel
      (setFree h.mem (h.heapStart + span pre) 1) h.heapStart with
  | none =>
      rw [hwalk] at hk
      cases hk
  | some m' =>
      rw [hwalk] at hk
      cases hk
      rw [Heap.withMem_mem, ← hflag]
      rcases hx with hx | hx
      · obtain ⟨m₁, hwalk', -, hbelow, -⟩ := coalesceWalk_spec hr.end_lt h.walkFuel hmarked hsized
          (by simp only [List.length_append, List.length_cons]; omega)
          (by simp only [List.length_append, List.length_cons]; omega)
        cases hwalk.symm.trans hwalk'
        exact hbelow x hx
      · exact coalesceWalk_above hr.end_lt hx _ hmarked hsized
          (by simp only [List.length_append, List.length_cons]; omega) hwalk

/-- `kfree` changes no byte that is settled by the other allocations. -/
theorem HeapInv.kfree_settled (hi : HeapInv h ((p, s) :: live)) :
    ∃ m', TunaOs.kfree h p = some (h.withMem m') ∧ HeapInv (h.withMem m') live ∧
      SettledKept h.mem m' live := by
  obtain ⟨m', hk, hi', hkept⟩ := hi.kfree_head
  refine ⟨m', hk, hi', fun x hx => ?_⟩
  have hrange : h.heapStart = kheapStart ∧ h.heapEnd ≤ kheapStart + kheapMaxSize := by
    obtain ⟨bs, hr, -⟩ := hi
    exact ⟨hr.start, hr.high⟩
  rcases hx with hx | hx | ⟨q, t, hq, hx1, hx2⟩
  · exact hi.kfree_outside hk (by omega)
  · exact hi.kfree_outside hk (by omega)
  · exact hkept q t hq x (by omega) hx2

/-! ## `kmalloc` with room -/

/-- The pages that `kmalloc` adds to the heap if it has to. -/
def growPages (size : Nat) : Nat := expandSize (requestSize size) / 4096

theorem growPages_mul (size : Nat) : 4096 * growPages size = expandSize (requestSize size) := by
  have := expandSize_mod (requestSize size)
  rw [growPages]
  omega

variable [HeapBacking σ]

/-- The heap is as it was or larger by the pages of the request. -/
theorem HeapInv.kmalloc_grows (hi : HeapInv h live) (hsize : size < 2 ^ 63)
    (hk : TunaOs.kmalloc h size = some (h', p)) :
    (h'.heapEnd = h.heapEnd ∧ h'.env = h.env) ∨
      (h'.heapEnd = h.heapEnd + 4096 * growPages size ∧
        h'.env = HeapBacking.mapRegion h.env h.heapEnd (4096 * growPages size)) := by
  obtain ⟨bs, hr, -⟩ := hi
  rw [growPages_mul]
  by_cases hzero : size = 0
  · rw [TunaOs.kmalloc, if_pos hzero] at hk
    cases hk
    exact Or.inl ⟨rfl, rfl⟩
  · rcases kmalloc_cases hr hzero hsize with ⟨pre, b, post, -, -, -, hk'⟩ | ⟨-, -, hk'⟩ |
      ⟨-, -, g, hexp, hr', hend, -, pre, b, post, -, -, -, hk'⟩
    · cases hk.symm.trans hk'
      exact Or.inl ⟨rfl, rfl⟩
    · cases hk.symm.trans hk'
      exact Or.inl ⟨rfl, rfl⟩
    · cases hk.symm.trans hk'
      rcases kheapExpand_env hexp with ⟨-, hsame⟩ | ⟨-, henv, -⟩
      · have := expandSize_pos (requestSize size)
        omega
      · exact Or.inr ⟨hend, henv⟩

/-- Below the limit an allocation of some bytes succeeds. -/
theorem HeapInv.kmalloc_room (hi : HeapInv h live) (hpos : size ≠ 0) (hsize : size < 2 ^ 63)
    (hroom : h.heapEnd + 4096 * growPages size ≤ kheapStart + kheapMaxSize) :
    ∃ h' p, TunaOs.kmalloc h size = some (h', p) ∧ p ≠ 0 ∧ HeapInv h' ((p, size) :: live) ∧
      SettledKept h.mem h'.mem live := by
  rcases hi.kmalloc size hsize with hk | ⟨h', p, hk, hne, hi', -⟩
  · -- a failure would mean that the limit is reached
    obtain ⟨bs, hr, -⟩ := hi
    rw [growPages_mul] at hroom
    rcases kmalloc_cases hr hpos hsize with ⟨pre, b, post, -, -, -, hk'⟩ | ⟨-, hfull, -⟩ |
      ⟨-, -, g, -, -, -, -, pre, b, post, -, -, -, hk'⟩
    · have := (Prod.mk.inj (Option.some.inj (hk.symm.trans hk'))).2
      omega
    · omega
    · have := (Prod.mk.inj (Option.some.inj (hk.symm.trans hk'))).2
      omega
  · exact ⟨h', p, hk, hne, hi', hi.kmalloc_settled hsize hk⟩

end

end TunaOs
