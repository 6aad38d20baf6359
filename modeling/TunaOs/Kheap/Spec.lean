import TunaOs.Kheap.Refine

/-!
# What the heap operations do

`HeapRep h bs` says that the heap `h` holds the chain `bs` between its bounds.
For a heap in that state the three operations have one specification each.
`kheapExpand_cases` and `kmalloc_cases` list every outcome, and `kfree_spec` is
deterministic.  All of them terminate within their fuel.
-/

namespace TunaOs

open Word

/-- The heap holds the chain `bs`, which tiles it, between the bounds the
constants give. -/
structure HeapRep {σ : Type} (h : Heap σ) (bs : List Block) : Prop where
  /-- The heap starts where `kheap_init` put it. -/
  start : h.heapStart = kheapStart
  /-- The chain tiles the heap. -/
  chain : Chain h.mem h.heapStart bs h.heapEnd
  /-- Block sizes are at least 32 and multiples of 8. -/
  sized : WellSized bs
  /-- The heap never shrinks below its first size. -/
  low : kheapStart + kheapInitialSize ≤ h.heapEnd
  /-- The heap never grows past its limit. -/
  high : h.heapEnd ≤ kheapStart + kheapMaxSize

section

variable {σ : Type} {h : Heap σ} {bs : List Block}

theorem HeapRep.end_lt (hr : HeapRep h bs) : h.heapEnd < 2 ^ 32 := by
  have := hr.high
  simp only [kheapStart, kheapMaxSize] at this
  omega

theorem HeapRep.length_lt (hr : HeapRep h bs) : bs.length < h.walkFuel := by
  have hlen := hr.sized.length_le
  have hend := hr.chain.end_eq
  simp only [Heap.walkFuel]
  omega

theorem HeapRep.ne_nil (hr : HeapRep h bs) : bs ≠ [] := by
  rintro rfl
  have hend : h.heapStart = h.heapEnd := hr.chain
  have hlow := hr.low
  rw [← hend, hr.start] at hlow
  simp only [kheapInitialSize] at hlow
  omega

/-- The heap right after `kheap_init`: one free block. -/
theorem heapRep_kheapInit [HeapBacking σ] (m : Mem) (env : σ) :
    HeapRep (kheapInit m env) [⟨kheapInitialSize, true⟩] := by
  refine ⟨rfl, ⟨?_, ?_, rfl⟩, ?_, ?_, ?_⟩
  · exact blockSize_newBlock (by decide)
  · have : blockFree (kheapInit m env).mem (kheapInit m env).heapStart = 1 := blockFree_newBlock
    rw [this]
    simp
  · intro b hb
    rw [List.mem_singleton] at hb
    subst hb
    decide
  · exact Nat.le_refl _
  · simp only [kheapInit]
    decide

end

/-! ## The sizes asked for -/

/-- Sizes below `2 ^ 63` are rounded up without wrapping. -/
theorem requestSize_spec {size : Nat} (hsize : size < 2 ^ 63) :
    requestSize size % 8 = 0 ∧ 32 ≤ requestSize size ∧ size + 16 ≤ requestSize size ∧
      requestSize size ≤ max 32 (size + 23) := by
  have hround : alignUp (wrap64 (size + headerSize)) 3 = (size + 23) / 8 * 8 := by
    have hsum : wrap64 (size + headerSize) = size + 16 :=
      wrap64_of_lt (by simp only [headerSize]; omega)
    rw [hsum, alignUp_eq (by decide), wrap64_of_lt (by omega)]
    rfl
  simp only [requestSize, hround, kheapMinBlock]
  split <;> omega

/-- Expansions are whole pages and at least what was asked for. -/
theorem expandSize_spec {n : Nat} (hn : n ≤ 2 ^ 63 + 2 ^ 12) :
    expandSize n % 4096 = 0 ∧ 4096 ≤ expandSize n ∧ n ≤ expandSize n ∧
      expandSize n ≤ max 4096 (n + 4095) := by
  have hround : alignUp n 12 = (n + 4095) / 4096 * 4096 := by
    rw [alignUp_eq (by decide), wrap64_of_lt (by omega)]
    rfl
  simp only [expandSize, hround]
  split <;> omega

theorem expandSize_pos (n : Nat) : 0 < expandSize n := by
  simp only [expandSize]
  split <;> omega

/-! ## `kheap_expand` -/

/-- A chain that has been grown has a free block of the size added. -/
theorem exists_fits_grow (extra : Nat) : ∀ bs : List Block, ∃ b ∈ grow extra bs, b.Fits extra
  | [] => ⟨_, List.mem_singleton_self _, rfl, Nat.le_refl _⟩
  | [b] => by
      by_cases hb : b.free = true
      · refine ⟨⟨b.size + extra, true⟩, ?_, rfl, Nat.le_add_left _ _⟩
        simp [grow, hb]
      · refine ⟨⟨extra, true⟩, ?_, rfl, Nat.le_refl _⟩
        simp [grow, hb]
  | b :: c :: bs => by
      obtain ⟨d, hd, hfit⟩ := exists_fits_grow extra (c :: bs)
      exact ⟨d, List.mem_cons_of_mem _ hd, hfit⟩

section

variable {σ : Type} [HeapBacking σ] {h : Heap σ} {bs : List Block}

/-- The memory after a successful expansion, on a chain that ends in `b`. -/
theorem kheapExpand_mem (hr : HeapRep h (bs ++ [b])) {n : Nat}
    (hfit : h.heapEnd + expandSize n ≤ kheapStart + kheapMaxSize) :
    kheapExpand h n = some
      ({ mem := if b.free then
            setSize (newBlock h.mem h.heapEnd (expandSize n)) (h.heapStart + span bs)
              (b.size + expandSize n)
          else newBlock h.mem h.heapEnd (expandSize n)
         heapStart := h.heapStart
         heapEnd := h.heapEnd + expandSize n
         env := HeapBacking.mapRegion h.env h.heapEnd (expandSize n) }, true) := by
  have hlt := hr.end_lt
  have hsum : h.heapEnd + expandSize n < 2 ^ 32 := by
    simp only [kheapStart, kheapMaxSize] at hfit
    omega
  have hwrap : wrap64 (h.heapEnd + expandSize n) = h.heapEnd + expandSize n :=
    wrap64_of_lt (by omega)
  -- the new header is behind the chain, so the walk sees the old chain
  have hchain : Chain (newBlock h.mem h.heapEnd (expandSize n)) h.heapStart (bs ++ [b])
      h.heapEnd :=
    hr.chain.congr hr.sized fun x _ hx => newBlock_other (Or.inl hx)
  have hlast := lastBlock_spec hlt none hchain hr.sized hr.length_lt
  rw [if_neg (by simp), List.dropLast_concat] at hlast
  obtain ⟨hsize, hfree, -⟩ := (chain_append.mp hchain).2
  rw [kheapExpand, if_neg (by rw [hwrap]; exact Nat.not_lt.mpr hfit)]
  simp only [hlast, hwrap, hsize, blockSize_newBlock (show expandSize n < 2 ^ 64 by omega)]
  by_cases hb : b.free = true
  · have hend := hr.chain.end_eq
    simp only [span_append, span_cons, span_nil] at hend
    rw [if_pos (hfree.mpr hb), if_pos hb, wrap64_of_lt (by omega)]
  · rw [if_neg (fun hc => hb (hfree.mp hc)), if_neg hb]

/-- `kheap_expand` either refuses and changes nothing, or grows the chain. -/
theorem kheapExpand_cases (hr : HeapRep h bs) {n : Nat} (hn : n ≤ 2 ^ 63 + 2 ^ 12) :
    (h.heapEnd + expandSize n > kheapStart + kheapMaxSize ∧
      kheapExpand h n = some (h, false)) ∨
    (h.heapEnd + expandSize n ≤ kheapStart + kheapMaxSize ∧
      ∃ h', kheapExpand h n = some (h', true) ∧ HeapRep h' (grow (expandSize n) bs) ∧
        h'.heapEnd = h.heapEnd + expandSize n ∧
        UsedKept h.mem h'.mem h.heapStart bs) := by
  obtain ⟨hmod, hpage, hge, hle⟩ := expandSize_spec hn
  have hlt := hr.end_lt
  have hwrap : wrap64 (h.heapEnd + expandSize n) = h.heapEnd + expandSize n :=
    wrap64_of_lt (by omega)
  by_cases hfit : h.heapEnd + expandSize n > kheapStart + kheapMaxSize
  · refine Or.inl ⟨hfit, ?_⟩
    rw [kheapExpand, if_pos (by rw [hwrap]; exact hfit)]
  · have hle' := Nat.le_of_not_lt hfit
    obtain ⟨init, b, rfl⟩ : ∃ init b, bs = init ++ [b] :=
      ⟨_, _, (List.dropLast_append_getLast hr.ne_nil).symm⟩
    refine Or.inr ⟨hle', _, kheapExpand_mem hr hle', ?_⟩
    have hsum : h.heapEnd + expandSize n < 2 ^ 32 := by
      simp only [kheapStart, kheapMaxSize] at hle'
      omega
    obtain ⟨hchain, hkept⟩ := grow_chain hr.chain hr.sized hsum (by omega) rfl
    exact ⟨⟨hr.start, hchain, hr.sized.grow (by omega) (by omega),
      Nat.le_trans hr.low (Nat.le_add_right _ _), hle'⟩, rfl, hkept⟩

/-! ## `kmalloc` -/

omit [HeapBacking σ] in
/-- Taking a block that fits. -/
theorem HeapRep.take {pre post : List Block} {b : Block} {need : Nat}
    (hr : HeapRep h (pre ++ b :: post)) (hb : b.Fits need) (hneed : 32 ≤ need)
    (hmod : need % 8 = 0) :
    HeapRep (h.withMem (takeBlock h.mem (h.heapStart + span pre) need))
        (pre ++ (carve need b ++ post)) ∧
      UsedKept h.mem (takeBlock h.mem (h.heapStart + span pre) need) h.heapStart
        (pre ++ b :: post) := by
  obtain ⟨hchain, hkept⟩ := takeBlock_spec hr.chain hr.sized hr.end_lt hb hneed
  obtain ⟨hpre, hrest⟩ := WellSized.append.mp hr.sized
  obtain ⟨hbsize, hpost⟩ := WellSized.cons.mp hrest
  refine ⟨⟨hr.start, hchain, ?_, hr.low, hr.high⟩, hkept⟩
  exact WellSized.append.mpr ⟨hpre, WellSized.append.mpr ⟨.carve hneed hmod hbsize, hpost⟩⟩

/-- The ways through `kmalloc` from the label `retry` on: the heap and the pointer at the
end, and how many calls of `kheap_expand` succeeded on the way. -/
inductive RetryRun (total : Nat) : Heap σ → Nat → Heap σ → Nat → Prop
  /-- The first block that is large enough is taken. -/
  | found {h : Heap σ} {cur : Nat}
      (hfind : findFit h.mem h.heapEnd total h.walkFuel h.heapStart = some (some cur)) :
      RetryRun total h 0 (h.withMem (takeBlock h.mem cur total)) (wrap64 (cur + headerSize))
  /-- The heap cannot grow. -/
  | refused {h h' : Heap σ}
      (hfind : findFit h.mem h.heapEnd total h.walkFuel h.heapStart = some none)
      (hexp : kheapExpand h total = some (h', false)) : RetryRun total h 0 h' 0
  /-- The heap grows, and the search starts again. -/
  | expanded {h h₁ h' : Heap σ} {n p : Nat}
      (hfind : findFit h.mem h.heapEnd total h.walkFuel h.heapStart = some none)
      (hexp : kheapExpand h total = some (h₁, true)) (hrun : RetryRun total h₁ n h' p) :
      RetryRun total h (n + 1) h' p

theorem RetryRun.kmallocRetry {total n p : Nat} {h h' : Heap σ} (hrun : RetryRun total h n h' p) :
    ∀ {fuel : Nat}, n < fuel → TunaOs.kmallocRetry total fuel h = some (h', p) := by
  induction hrun with
  | found hfind =>
      intro fuel hfuel
      cases fuel with
      | zero => cases hfuel
      | succ fuel => rw [TunaOs.kmallocRetry, hfind]
  | refused hfind hexp =>
      intro fuel hfuel
      cases fuel with
      | zero => cases hfuel
      | succ fuel =>
          rw [TunaOs.kmallocRetry, hfind]
          simp only [hexp]
  | expanded hfind hexp _ ih =>
      intro fuel hfuel
      cases fuel with
      | zero => cases hfuel
      | succ fuel =>
          rw [TunaOs.kmallocRetry, hfind]
          simp only [hexp]
          exact ih (Nat.lt_of_succ_lt_succ hfuel)

/-- A call of `kmalloc` with a nonzero size ends as its run does. -/
theorem RetryRun.kmalloc {size n p : Nat} {h h' : Heap σ}
    (hrun : RetryRun (requestSize size) h n h' p) (hpos : size ≠ 0) (hn : n < retryFuel) :
    TunaOs.kmalloc h size = some (h', p) := by
  rw [TunaOs.kmalloc, if_neg hpos]
  exact hrun.kmallocRetry hn

/-- One turn of `kmalloc` on a heap with a block that fits. -/
theorem retryRun_found {pre post : List Block} {b : Block} {need : Nat}
    (hr : HeapRep h (pre ++ b :: post))
    (hfind : findFit h.mem h.heapEnd need h.walkFuel h.heapStart
      = some (some (h.heapStart + span pre))) :
    RetryRun need h 0 (h.withMem (takeBlock h.mem (h.heapStart + span pre) need))
      (h.heapStart + span pre + 16) := by
  have hend := hr.chain.end_eq
  have hlt := hr.end_lt
  simp only [span_append, span_cons] at hend
  have hptr : wrap64 (h.heapStart + span pre + headerSize) = h.heapStart + span pre + 16 :=
    wrap64_of_lt (by simp only [headerSize]; omega)
  rw [← hptr]
  exact .found hfind

/-- The runs of `kmalloc` for a request that does not wrap. -/
theorem retryRun_cases (hr : HeapRep h bs) {need : Nat} (hn : need ≤ 2 ^ 63 + 2 ^ 12) :
    -- the first block that fits is taken
    (∃ pre b post, bs = pre ++ b :: post ∧ (∀ c ∈ pre, ¬ c.Fits need) ∧ b.Fits need ∧
      RetryRun need h 0 (h.withMem (takeBlock h.mem (h.heapStart + span pre) need))
        (h.heapStart + span pre + 16)) ∨
    -- nothing fits and the heap is at its limit
    ((∀ b ∈ bs, ¬ b.Fits need) ∧ h.heapEnd + expandSize need > kheapStart + kheapMaxSize ∧
      RetryRun need h 0 h 0) ∨
    -- nothing fits, the heap grows, and the first block that fits then is taken
    ((∀ b ∈ bs, ¬ b.Fits need) ∧ h.heapEnd + expandSize need ≤ kheapStart + kheapMaxSize ∧
      ∃ h', kheapExpand h need = some (h', true) ∧ HeapRep h' (grow (expandSize need) bs) ∧
        h'.heapEnd = h.heapEnd + expandSize need ∧ UsedKept h.mem h'.mem h.heapStart bs ∧
        ∃ pre b post, grow (expandSize need) bs = pre ++ b :: post ∧
          (∀ c ∈ pre, ¬ c.Fits need) ∧ b.Fits need ∧
          RetryRun need h 1 (h'.withMem (takeBlock h'.mem (h'.heapStart + span pre) need))
            (h'.heapStart + span pre + 16)) := by
  rcases findFit_spec need hr.end_lt hr.chain hr.sized hr.length_lt with
    ⟨hnone, hall⟩ | ⟨pre, b, post, rfl, hpre, hb, hsome⟩
  · refine Or.inr ?_
    rcases kheapExpand_cases hr hn with ⟨hfull, hexp⟩ | ⟨hroom, h', hexp, hr', hend, hkept⟩
    · exact Or.inl ⟨hall, hfull, .refused hnone hexp⟩
    · refine Or.inr ⟨hall, hroom, h', hexp, hr', hend, hkept, ?_⟩
      rcases findFit_spec need hr'.end_lt hr'.chain hr'.sized hr'.length_lt with
        ⟨-, hall'⟩ | ⟨pre, b, post, hsplit, hpre, hb, hsome⟩
      · -- the space added is a block that fits
        obtain ⟨d, hd, hfree, hfits⟩ := exists_fits_grow (expandSize need) bs
        exact absurd ⟨hfree, Nat.le_trans (expandSize_spec hn).2.2.1 hfits⟩ (hall' d hd)
      · refine ⟨pre, b, post, hsplit, hpre, hb, ?_⟩
        rw [hsplit] at hr'
        exact .expanded hnone hexp (retryRun_found hr' hsome)
  · exact Or.inl ⟨pre, b, post, rfl, hpre, hb, retryRun_found hr hsome⟩

/-- The outcomes of `kmalloc` for a nonzero size. -/
theorem kmalloc_cases (hr : HeapRep h bs) {size : Nat} (hpos : size ≠ 0)
    (hsize : size < 2 ^ 63) :
    -- the first block that fits is taken
    (∃ pre b post, bs = pre ++ b :: post ∧ (∀ c ∈ pre, ¬ c.Fits (requestSize size)) ∧
      b.Fits (requestSize size) ∧
      kmalloc h size
        = some (h.withMem (takeBlock h.mem (h.heapStart + span pre) (requestSize size)),
            h.heapStart + span pre + 16)) ∨
    -- nothing fits and the heap is at its limit
    ((∀ b ∈ bs, ¬ b.Fits (requestSize size)) ∧
      h.heapEnd + expandSize (requestSize size) > kheapStart + kheapMaxSize ∧
      kmalloc h size = some (h, 0)) ∨
    -- nothing fits, the heap grows, and the first block that fits then is taken
    ((∀ b ∈ bs, ¬ b.Fits (requestSize size)) ∧
      h.heapEnd + expandSize (requestSize size) ≤ kheapStart + kheapMaxSize ∧
      ∃ h', kheapExpand h (requestSize size) = some (h', true) ∧
        HeapRep h' (grow (expandSize (requestSize size)) bs) ∧
        h'.heapEnd = h.heapEnd + expandSize (requestSize size) ∧
        UsedKept h.mem h'.mem h.heapStart bs ∧
        ∃ pre b post, grow (expandSize (requestSize size)) bs = pre ++ b :: post ∧
          (∀ c ∈ pre, ¬ c.Fits (requestSize size)) ∧ b.Fits (requestSize size) ∧
          kmalloc h size
            = some (h'.withMem (takeBlock h'.mem (h'.heapStart + span pre) (requestSize size)),
                h'.heapStart + span pre + 16)) := by
  obtain ⟨-, -, -, hle⟩ := requestSize_spec hsize
  rcases retryRun_cases hr (show requestSize size ≤ 2 ^ 63 + 2 ^ 12 by omega) with
    ⟨pre, b, post, hsplit, hpre, hb, hrun⟩ | ⟨hall, hfull, hrun⟩ |
      ⟨hall, hroom, h', hexp, hr', hend, hkept, pre, b, post, hsplit, hpre, hb, hrun⟩
  · exact Or.inl ⟨pre, b, post, hsplit, hpre, hb, hrun.kmalloc hpos (by decide)⟩
  · exact Or.inr (Or.inl ⟨hall, hfull, hrun.kmalloc hpos (by decide)⟩)
  · exact Or.inr (Or.inr ⟨hall, hroom, h', hexp, hr', hend, hkept, pre, b, post, hsplit, hpre, hb,
      hrun.kmalloc hpos (by decide)⟩)

/-- The block that `kmalloc` returns is the one first fit takes from the chain. -/
theorem HeapRep.kmalloc_fitGrown (hr : HeapRep h bs) {size p : Nat} {h' : Heap σ}
    (hpos : size ≠ 0) (hsize : size < 2 ^ 63) (hk : TunaOs.kmalloc h size = some (h', p))
    (hp : p ≠ 0) :
    ∃ x cs, fitGrown (requestSize size) bs = some (x, cs) ∧ p = kheapStart + x + 16 ∧
      HeapRep h' cs := by
  obtain ⟨hmod, hmin, -, -⟩ := requestSize_spec hsize
  rcases kmalloc_cases hr hpos hsize with ⟨pre, b, post, rfl, hpre, hb, hk'⟩ | ⟨-, -, hk'⟩ |
    ⟨hno, -, g, -, hr', -, -, pre, b, post, hsplit, hpre, hb, hk'⟩
  · cases hk.symm.trans hk'
    refine ⟨span pre, _, ?_, by rw [hr.start], (hr.take hb hmin hmod).1⟩
    rw [fitGrown, fitFirst_append hb hpre, Option.some_or]
  · cases hk.symm.trans hk'
    exact absurd rfl hp
  · cases hk.symm.trans hk'
    rw [hsplit] at hr'
    refine ⟨span pre, _, ?_, by rw [hr'.start], (hr'.take hb hmin hmod).1⟩
    rw [fitGrown, fitFirst_none hno, Option.none_or, hsplit, fitFirst_append hb hpre]

/-- What a successful expansion writes is in the heap after it. -/
theorem kheapExpand_bounds (hr : HeapRep h bs) {n : Nat} {h' : Heap σ} (hn : n ≤ 2 ^ 63 + 2 ^ 12)
    (he : kheapExpand h n = some (h', true)) {x : Nat} (hx : h'.mem x ≠ h.mem x) :
    h.heapStart ≤ x ∧ x < h'.heapEnd := by
  obtain ⟨-, hpage, -, -⟩ := expandSize_spec hn
  rcases kheapExpand_cases hr hn with ⟨-, hexp⟩ | ⟨hfit, -⟩
  · rw [hexp] at he
    cases he
  · obtain ⟨init, b, rfl⟩ : ∃ init b, bs = init ++ [b] :=
      ⟨_, _, (List.dropLast_append_getLast hr.ne_nil).symm⟩
    have hend := hr.chain.end_eq
    simp only [span_append, span_cons, span_nil] at hend
    have hsize := (hr.sized b (by simp)).1
    rw [kheapExpand_mem hr hfit] at he
    obtain ⟨rfl, -⟩ := Prod.mk.inj (Option.some.inj he)
    refine Classical.byContradiction fun hout => hx ?_
    simp only at hout ⊢
    split
    · rw [setSize_other (by omega), newBlock_other (by omega)]
    · rw [newBlock_other (by omega)]

/-- `kmalloc` keeps a chain, writes inside the heap, and returns a block of the heap
or leaves the heap as it is. -/
theorem kmalloc_bounds (hr : HeapRep h bs) {size p : Nat} {h' : Heap σ} (hsize : size < 2 ^ 63)
    (hm : kmalloc h size = some (h', p)) :
    (∃ bs', HeapRep h' bs') ∧ (∀ x, h'.mem x ≠ h.mem x → kheapStart ≤ x ∧ x < h'.heapEnd)
      ∧ (p ≠ 0 → kheapStart + headerSize ≤ p ∧ p + size ≤ h'.heapEnd) ∧ (p = 0 → h' = h) := by
  obtain ⟨hmod, hmin, hge, hle⟩ := requestSize_spec hsize
  -- taking a block of a chain
  have htake : ∀ {g : Heap σ} {pre post : List Block} {b : Block}, HeapRep g (pre ++ b :: post) →
      b.Fits (requestSize size) →
      (∃ bs', HeapRep (g.withMem (takeBlock g.mem (g.heapStart + span pre) (requestSize size))) bs')
      ∧ (∀ x, takeBlock g.mem (g.heapStart + span pre) (requestSize size) x ≠ g.mem x →
          kheapStart ≤ x ∧ x < g.heapEnd)
      ∧ kheapStart + headerSize ≤ g.heapStart + span pre + 16
      ∧ g.heapStart + span pre + 16 + size ≤ g.heapEnd := by
    intro g pre post b hg hb
    have hend := hg.chain.end_eq
    simp only [span_append, span_cons] at hend
    have hlt := hg.end_lt
    have hstart := hg.start
    have hfits := hb.2
    obtain ⟨-, hrest⟩ := chain_append.mp hg.chain
    obtain ⟨-, hkeep⟩ := takeBlock_chain hb hmin (by omega) hrest.1
    refine ⟨⟨_, (hg.take hb hmin hmod).1⟩, fun x hx => ?_, ?_, by omega⟩
    · refine Classical.byContradiction fun hout => hx (hkeep x ?_)
      omega
    · simp only [headerSize]
      omega
  by_cases hpos : size = 0
  · rw [kmalloc, if_pos hpos] at hm
    cases hm
    exact ⟨⟨bs, hr⟩, fun x hx => absurd rfl hx, fun h0 => absurd rfl h0, fun _ => rfl⟩
  rcases kmalloc_cases hr hpos hsize with
    ⟨pre, b, post, rfl, -, hb, hk⟩ | ⟨-, -, hk⟩ |
      ⟨-, -, g, hexp, hg, hend, -, pre, b, post, hsplit, -, hb, hk⟩
  · rw [hk] at hm
    cases hm
    obtain ⟨hrep, hmem, h1, h2⟩ := htake hr hb
    exact ⟨hrep, hmem, fun _ => ⟨h1, h2⟩, fun h0 => by omega⟩
  · rw [hk] at hm
    cases hm
    exact ⟨⟨bs, hr⟩, fun x hx => absurd rfl hx, fun h0 => absurd rfl h0, fun _ => rfl⟩
  · rw [hk] at hm
    cases hm
    rw [hsplit] at hg
    obtain ⟨hrep, hmem, h1, h2⟩ := htake hg hb
    refine ⟨hrep, fun x hx => ?_, fun _ => ⟨h1, h2⟩, fun h0 => by omega⟩
    by_cases hxg : g.mem x = h.mem x
    · exact hmem x fun heq => hx (heq.trans hxg)
    · rw [← hr.start]
      exact kheapExpand_bounds hr (by omega) hexp hxg

end

/-! ## `kfree` -/

/-- `kfree` of the payload of a used block marks the block as free and
coalesces the chain.  It touches no other used block. -/
theorem kfree_spec {σ : Type} {h : Heap σ} {pre post : List Block} {size : Nat}
    (hr : HeapRep h (pre ++ ⟨size, false⟩ :: post)) :
    ∃ m', kfree h (h.heapStart + span pre + 16) = some (h.withMem m') ∧
      HeapRep (h.withMem m') (coalesce (pre ++ ⟨size, true⟩ :: post)) ∧
      UsedKept h.mem m' h.heapStart (pre ++ ⟨size, true⟩ :: post) := by
  have hlt := hr.end_lt
  obtain ⟨hpre, hrest⟩ := chain_append.mp hr.chain
  obtain ⟨hwpre, hwrest⟩ := WellSized.append.mp hr.sized
  obtain ⟨hsize, hwpost⟩ := WellSized.cons.mp hwrest
  simp only at hsize
  have hw : WellSized (pre ++ ⟨size, true⟩ :: post) :=
    WellSized.append.mpr ⟨hwpre, WellSized.cons.mpr ⟨hsize, hwpost⟩⟩
  have hend := hr.chain.end_eq
  simp only [span_append, span_cons] at hend
  -- the chain with the flag of the block set
  have hmarked : Chain (setFree h.mem (h.heapStart + span pre) 1) h.heapStart
      (pre ++ ⟨size, true⟩ :: post) h.heapEnd := by
    rw [chain_append]
    refine ⟨hpre.congr hwpre fun x _ hx => setFree_other (by omega), ?_, ?_, ?_⟩
    · rw [blockSize_setFree (by omega)]
      exact hrest.1
    · rw [blockFree_setFree_self (by decide)]
      simp
    · exact hrest.2.2.congr hwpost fun x hx _ => setFree_other (by simp only at hx; omega)
  have hlen : (pre ++ (⟨size, true⟩ : Block) :: post).length < h.walkFuel := by
    have := hr.length_lt
    simp only [List.length_append, List.length_cons] at this ⊢
    exact this
  obtain ⟨m', hwalk, hchain, -, hkept⟩ :=
    coalesceWalk_spec hlt h.walkFuel hmarked hw hlen hlen
  refine ⟨m', ?_, ⟨hr.start, hchain, hw.coalesce, hr.low, hr.high⟩, ?_⟩
  · have hsub : h.heapStart + span pre + 16 - headerSize = h.heapStart + span pre :=
      Nat.add_sub_cancel ..
    rw [kfree, if_neg (by omega), hsub]
    simp only [hwalk]
  · intro y s hy x hx1 hx2
    rw [hkept y s hy x hx1 hx2]
    -- the flag that was set belongs to a block that is free in this chain
    have hmem : (h.heapStart + span pre, (⟨size, true⟩ : Block))
        ∈ placed h.heapStart (pre ++ ⟨size, true⟩ :: post) := by
      rw [placed_append]
      exact List.mem_append_right _ List.mem_cons_self
    apply setFree_other
    rcases placed_disjoint hmem (mem_usedBlocks.mp hy) with ⟨-, heq⟩ | hle | hle
    · cases heq
    · simp only at hle
      omega
    · simp only at hle
      omega

/-! ## The environment

Without any assumption on the heap, `kmalloc` acts on the environment only through
`kheap_map_region`, on whole pages from `heap_end` on. -/

theorem expandSize_mod (n : Nat) : expandSize n % 4096 = 0 := by
  have hround : alignUp n 12 % 4096 = 0 := by
    rw [alignUp_eq (by decide)]
    exact Nat.mul_mod_left ..
  simp only [expandSize]
  split
  · rfl
  · exact hround

section

variable {σ : Type} [HeapBacking σ] {h h' : Heap σ} {Q : σ → Nat → Prop} {n size p : Nat} {b : Bool}

/-- The environment after `kheap_expand`. -/
theorem kheapExpand_env (he : kheapExpand h n = some (h', b)) :
    (h'.env = h.env ∧ h'.heapEnd = h.heapEnd) ∨
      (wrap64 (h.heapEnd + expandSize n) ≤ kheapStart + kheapMaxSize
        ∧ h'.env = HeapBacking.mapRegion h.env h.heapEnd (expandSize n)
        ∧ h'.heapEnd = wrap64 (h.heapEnd + expandSize n)) := by
  simp only [kheapExpand] at he
  split at he
  case isTrue =>
      cases he
      exact Or.inl ⟨rfl, rfl⟩
  case isFalse hmax =>
      split at he
      · cases he
      · cases he
        exact Or.inr ⟨Nat.le_of_not_lt hmax, rfl, rfl⟩

/-- What every expansion for the request keeps, `kmalloc` keeps. -/
theorem kmalloc_env
    (hmap : ∀ M e, wrap64 (e + expandSize (requestSize size)) ≤ kheapStart + kheapMaxSize → Q M e →
      Q (HeapBacking.mapRegion M e (expandSize (requestSize size)))
        (wrap64 (e + expandSize (requestSize size))))
    (hm : kmalloc h size = some (h', p)) (h0 : Q h.env h.heapEnd) : Q h'.env h'.heapEnd := by
  have hexpand : ∀ {h h' : Heap σ} {b : Bool}, kheapExpand h (requestSize size) = some (h', b) →
      Q h.env h.heapEnd → Q h'.env h'.heapEnd := by
    intro h h' b he h0
    rcases kheapExpand_env he with ⟨henv, hend⟩ | ⟨hmax, henv, hend⟩
    · rwa [henv, hend]
    · rw [henv, hend]
      exact hmap _ _ hmax h0
  have hretry : ∀ fuel (h : Heap σ), kmallocRetry (requestSize size) fuel h = some (h', p) →
      Q h.env h.heapEnd → Q h'.env h'.heapEnd := by
    intro fuel
    induction fuel with
    | zero => exact fun _ hm _ => by cases hm
    | succ fuel ih =>
        intro h hm h0
        rw [kmallocRetry] at hm
        split at hm
        · cases hm
        · cases hm
          exact h0
        · split at hm
          · cases hm
          · cases hm
            exact hexpand ‹_› h0
          · exact ih _ hm (hexpand ‹_› h0)
  rw [kmalloc] at hm
  split at hm
  · cases hm
    exact h0
  · exact hretry _ h hm h0

/-- A request that does not fit into a heap of one free block grows the heap and returns its
first block. -/
theorem kmalloc_extend {n size : Nat} (hr : HeapRep h [⟨n, true⟩]) (hsize : size < 2 ^ 63)
    (hbig : n < requestSize size)
    (hfit : h.heapEnd + expandSize (requestSize size) ≤ kheapStart + kheapMaxSize) :
    ∃ h', kmalloc h size = some (h', kheapStart + 16) ∧
      h'.heapEnd = h.heapEnd + expandSize (requestSize size) ∧
      h'.env = HeapBacking.mapRegion h.env h.heapEnd (expandSize (requestSize size)) := by
  have hpos : size ≠ 0 := by
    rintro rfl
    have hmin := (hr.sized _ List.mem_cons_self).1
    exact absurd (Nat.lt_of_le_of_lt hmin hbig) (by decide)
  have hno : ∀ b ∈ [(⟨n, true⟩ : Block)], ¬ b.Fits (requestSize size) := by
    rintro b hb ⟨-, hle⟩
    rw [List.mem_singleton] at hb
    subst hb
    exact absurd hbig (Nat.not_lt.mpr hle)
  rcases kmalloc_cases hr hpos hsize with ⟨pre, b, post, hsplit, -, hb, -⟩ | ⟨-, hfull, -⟩ |
      ⟨-, -, h', hexp, hr', hend, -, pre, b, post, hsplit, -, -, hk⟩
  · exact absurd hb (hno b (by rw [hsplit]; simp))
  · omega
  · -- the chain is one block, so nothing is before the one taken
    obtain rfl : pre = [] := by
      cases pre with
      | nil => rfl
      | cons c pre => simp [grow] at hsplit
    rw [hr'.start] at hk
    refine ⟨_, hk, hend, ?_⟩
    rcases kheapExpand_env hexp with ⟨-, hsame⟩ | ⟨-, henv, -⟩
    · have hpage := expandSize_pos (requestSize size)
      omega
    · exact henv

omit [HeapBacking σ] in
theorem kfree_env (hf : kfree h p = some h') : h'.env = h.env ∧ h'.heapEnd = h.heapEnd := by
  rw [kfree] at hf
  split at hf
  · cases hf
    exact ⟨rfl, rfl⟩
  · simp only at hf
    split at hf
    · cases hf
    · cases hf
      exact ⟨rfl, rfl⟩

/-! ## Two environments

Which blocks `kmalloc` and `kfree` look at does not depend on the environment. -/

/-- The heap with another environment. -/
def Heap.withEnv (h : Heap σ) (M : σ) : Heap σ := { h with env := M }

variable {R : σ → σ → Prop}

theorem kheapExpand_withEnv (hmap : ∀ M N e size, R M N →
      R (HeapBacking.mapRegion M e size) (HeapBacking.mapRegion N e size))
    {N : σ} (hR : R h.env N) (he : kheapExpand h n = some (h', b)) :
    ∃ N', kheapExpand (h.withEnv N) n = some (h'.withEnv N', b) ∧ R h'.env N' := by
  simp only [kheapExpand] at he
  split at he
  case isTrue hmax =>
      cases he
      refine ⟨N, ?_, hR⟩
      rw [kheapExpand]
      exact if_pos hmax
  case isFalse hmax =>
      split at he
      case h_1 => cases he
      case h_2 last hlast =>
          cases he
          refine ⟨HeapBacking.mapRegion N h.heapEnd (expandSize n), ?_, hmap _ _ _ _ hR⟩
          have hlast' : lastBlock (newBlock (h.withEnv N).mem (h.withEnv N).heapEnd (expandSize n))
              (h.withEnv N).heapEnd (h.withEnv N).walkFuel (h.withEnv N).heapStart none
              = some last := hlast
          have hmax' : ¬ wrap64 ((h.withEnv N).heapEnd + expandSize n)
              > kheapStart + kheapMaxSize :=
            hmax
          rw [kheapExpand, if_neg hmax']
          simp only [hlast']
          rfl

theorem kmalloc_withEnv (hmap : ∀ M N e size, R M N →
      R (HeapBacking.mapRegion M e size) (HeapBacking.mapRegion N e size))
    {N : σ} (hR : R h.env N) (hm : kmalloc h size = some (h', p)) :
    ∃ N', kmalloc (h.withEnv N) size = some (h'.withEnv N', p) ∧ R h'.env N' := by
  have hretry : ∀ total fuel (h : Heap σ) (N : σ), R h.env N →
      kmallocRetry total fuel h = some (h', p) →
      ∃ N', kmallocRetry total fuel (h.withEnv N) = some (h'.withEnv N', p) ∧ R h'.env N' := by
    intro total fuel
    induction fuel with
    | zero => exact fun _ _ _ hm => by cases hm
    | succ fuel ih =>
        intro h N hR hm
        have hfit : findFit (h.withEnv N).mem (h.withEnv N).heapEnd total (h.withEnv N).walkFuel
            (h.withEnv N).heapStart = findFit h.mem h.heapEnd total h.walkFuel h.heapStart := rfl
        rw [kmallocRetry] at hm
        rw [kmallocRetry, hfit]
        split at hm
        case h_1 => cases hm
        case h_2 cur hcur =>
            cases hm
            exact ⟨N, rfl, hR⟩
        case h_3 hnone =>
            split at hm
            case h_1 => cases hm
            case h_2 he =>
                cases hm
                obtain ⟨N', he', hR'⟩ := kheapExpand_withEnv hmap hR he
                exact ⟨N', by rw [he'], hR'⟩
            case h_3 he =>
                obtain ⟨N', he', hR'⟩ := kheapExpand_withEnv hmap hR he
                rw [he']
                exact ih _ N' hR' hm
  rw [kmalloc] at hm
  rw [kmalloc]
  split at hm
  case isTrue h0 =>
      cases hm
      exact ⟨N, if_pos h0, hR⟩
  case isFalse h0 =>
      rw [if_neg h0]
      exact hretry _ _ h N hR hm

omit [HeapBacking σ] in
theorem kfree_withEnv {N : σ} (hf : kfree h p = some h') :
    kfree (h.withEnv N) p = some (h'.withEnv N) := by
  rw [kfree] at hf
  rw [kfree]
  split at hf
  case isTrue h0 =>
      cases hf
      exact if_pos h0
  case isFalse h0 =>
      rw [if_neg h0]
      simp only at hf
      split at hf
      case h_1 => cases hf
      case h_2 m hm =>
          cases hf
          have hm' : coalesceWalk (h.withEnv N).heapEnd (h.withEnv N).walkFuel
              (h.withEnv N).walkFuel
              (setFree (h.withEnv N).mem (p - headerSize) 1) (h.withEnv N).heapStart = some m := hm
          simp only [hm']
          rfl

end

end TunaOs
