import TunaOs.Kheap.Canonical

/-!
# Requests of any size

`kmalloc` computes the size of the block it looks for, and `kheap_expand` the number of
bytes it adds and the new end of the heap, in 64 bits without a check.  For a request none
of these sums wraps for (`NoWrap`) the search is a complete first fit: the lowest block that
is large enough is taken, and if there is none the heap grows once, by whole pages, or the
call fails and changes nothing.

The sums wrap for three bands of sizes at the upper end of the range, each with its own
consequence: the rounding in `kmalloc` makes a request of the smallest block, the rounding
in `kheap_expand` makes the heap grow page by page to its limit, and the sum with `heap_end`
moves the end of the heap down.  Such a call is harmless only if it fails at once
(`RefusedAtOnce`).
-/

namespace TunaOs

open Word
open Run (Reachable)

/-! ## Sizes without wrapping -/

/-- The size of the block for a request: the size with a header, rounded up to 8, and at
least the smallest block. -/
def exactTotal (size : Nat) : Nat := max kheapMinBlock ((size + headerSize + 7) / 8 * 8)

/-- The size of the block, rounded up to pages. -/
def exactExpand (size : Nat) : Nat := (exactTotal size + 4095) / 4096 * 4096

/-- No sum of `kmalloc` and `kheap_expand` wraps for the request. -/
def NoWrap {σ : Type} (h : Heap σ) (size : Nat) : Prop := h.heapEnd + exactExpand size < 2 ^ 64

instance {σ : Type} (h : Heap σ) (size : Nat) : Decidable (NoWrap h size) :=
  inferInstanceAs (Decidable (_ < _))

/-- No free block is large enough for what `kmalloc` looks for, and `kheap_expand` finds the
heap at its limit. -/
def RefusedAtOnce {σ : Type} (h : Heap σ) (size : Nat) : Prop :=
  (∀ b ∈ h.blocks, ¬ b.Fits (requestSize size)) ∧
    kheapStart + kheapMaxSize < wrap64 (h.heapEnd + expandSize (requestSize size))

theorem exactTotal_bounds (size : Nat) :
    32 ≤ exactTotal size ∧ size + 16 ≤ exactTotal size ∧ exactTotal size ≤ max 32 (size + 23) := by
  simp only [exactTotal, kheapMinBlock, headerSize]
  omega

theorem exactExpand_bounds (size : Nat) :
    4096 ≤ exactExpand size ∧ exactTotal size ≤ exactExpand size ∧
      exactExpand size ≤ exactTotal size + 4095 := by
  have := (exactTotal_bounds size).1
  simp only [exactExpand]
  omega

theorem requestSize_exact {size : Nat} (h : size + 23 < 2 ^ 64) :
    requestSize size = exactTotal size := by
  have hsum : wrap64 (size + headerSize) = size + 16 :=
    wrap64_of_lt (by simp only [headerSize]; omega)
  have hround : alignUp (wrap64 (size + headerSize)) 3 = (size + 23) / 8 * 8 := by
    rw [hsum, alignUp_eq (by decide), wrap64_of_lt (by omega)]
    rfl
  have hhead : headerSize = 16 := rfl
  simp only [requestSize, hround, exactTotal]
  split <;> omega

theorem expandSize_exact {size : Nat} (h : exactTotal size + 4095 < 2 ^ 64) :
    expandSize (exactTotal size) = exactExpand size := by
  have hpage := (exactExpand_bounds size).1
  have hround : alignUp (exactTotal size) 12 = exactExpand size := by
    rw [alignUp_eq (by decide), wrap64_of_lt (by omega)]
    rfl
  simp only [expandSize, hround]
  rw [if_neg (by omega)]

/-- The rounding in `kmalloc` wraps: the request becomes one of the smallest block. -/
theorem requestSize_wrapped {size : Nat} (hlt : size < 2 ^ 64) (h : 2 ^ 64 ≤ size + 23) :
    requestSize size = 32 := by
  have hsmall : alignUp (wrap64 (size + headerSize)) 3 < 32 := by
    rw [alignUp_eq (by decide)]
    simp only [wrap64, headerSize]
    omega
  exact if_pos hsmall

/-- The rounding in `kheap_expand` wraps: the heap grows by one page. -/
theorem expandSize_wrapped {n : Nat} (hlt : n < 2 ^ 64) (h : 2 ^ 64 ≤ n + 4095) :
    expandSize n = 4096 := by
  have hzero : alignUp n 12 = 0 := by
    rw [alignUp_eq (by decide)]
    simp only [wrap64]
    omega
  simp only [expandSize, hzero]
  rfl

section

variable {σ : Type} {h : Heap σ} {bs : List Block} {size : Nat}

/-- Without wrapping the code computes the exact sizes. -/
theorem HeapRep.noWrap (hr : HeapRep h bs) (hw : NoWrap h size) :
    requestSize size = exactTotal size ∧ expandSize (requestSize size) = exactExpand size := by
  have hlow := hr.low
  simp only [kheapStart, kheapInitialSize] at hlow
  obtain ⟨-, htotal, -⟩ := exactTotal_bounds size
  obtain ⟨-, hexpand, -⟩ := exactExpand_bounds size
  unfold NoWrap at hw
  have hreq := requestSize_exact (show size + 23 < 2 ^ 64 by omega)
  exact ⟨hreq, by rw [hreq, expandSize_exact (by omega)]⟩

/-- Requests up to half of the address space do not wrap. -/
theorem HeapRep.noWrap_of_le (hr : HeapRep h bs) (hsize : size ≤ 2 ^ 63) : NoWrap h size := by
  have hlt := hr.end_lt
  obtain ⟨-, -, htotal⟩ := exactTotal_bounds size
  obtain ⟨-, -, hexpand⟩ := exactExpand_bounds size
  unfold NoWrap
  omega

/-- Blocks are smaller than the address space. -/
theorem HeapRep.size_lt (hr : HeapRep h bs) {b : Block} (hb : b ∈ bs) : b.size < 2 ^ 32 := by
  obtain ⟨pre, post, rfl⟩ := List.append_of_mem hb
  have hend := hr.chain.end_eq
  have hlt := hr.end_lt
  simp only [span_append, span_cons] at hend
  omega

/-- No block is large enough for a huge request. -/
theorem HeapRep.not_fits (hr : HeapRep h bs) {need : Nat} (hneed : 2 ^ 63 ≤ need) :
    ∀ b ∈ bs, ¬ b.Fits need := fun b hb hfits => by
  have := hr.size_lt hb
  have := hfits.2
  omega

/-- The search finds nothing if nothing fits. -/
theorem HeapRep.findFit_none (hr : HeapRep h bs) {need : Nat} (hno : ∀ b ∈ bs, ¬ b.Fits need) :
    findFit h.mem h.heapEnd need h.walkFuel h.heapStart = some none := by
  rcases findFit_spec need hr.end_lt hr.chain hr.sized hr.length_lt with
    ⟨hnone, -⟩ | ⟨pre, b, post, rfl, -, hb, -⟩
  · exact hnone
  · exact absurd hb (hno b (by simp))

end

/-! ## Runs -/

section

variable {σ : Type} [HeapBacking σ] {h h' : Heap σ} {bs : List Block} {size need n p : Nat}

/-- The ways through `kmalloc`, with the number of times the heap grew. -/
def KmallocRun (h : Heap σ) (size n : Nat) (h' : Heap σ) (p : Nat) : Prop :=
  if size = 0 then n = 0 ∧ h' = h ∧ p = 0 else RetryRun (requestSize size) h n h' p

/-- The function `kmalloc` follows its run, if that grows the heap less often than the fuel
allows. -/
theorem KmallocRun.kmalloc (hrun : KmallocRun h size n h' p) (hn : n < retryFuel) :
    TunaOs.kmalloc h size = some (h', p) := by
  unfold KmallocRun at hrun
  split at hrun
  case isTrue hzero =>
      obtain ⟨-, rfl, rfl⟩ := hrun
      rw [TunaOs.kmalloc, if_pos hzero]
  case isFalse hpos => exact hrun.kmalloc hpos hn

/-- There is one way through `kmalloc`. -/
theorem RetryRun.unique {g : Heap σ} {m q : Nat} (h1 : RetryRun need h n h' p)
    (h2 : RetryRun need h m g q) : h' = g ∧ p = q := by
  have e1 := h1.kmallocRetry (show n < n + m + 1 by omega)
  have e2 := h2.kmallocRetry (show m < n + m + 1 by omega)
  exact Prod.mk.inj (Option.some.inj (e1.symm.trans e2))

/-- A call that is refused at once. -/
theorem HeapRep.retryRun_refused (hr : HeapRep h bs) (hno : ∀ b ∈ bs, ¬ b.Fits need)
    (hfull : kheapStart + kheapMaxSize < wrap64 (h.heapEnd + expandSize need)) :
    RetryRun need h 0 h 0 := by
  refine .refused (hr.findFit_none hno) ?_
  rw [kheapExpand, if_pos hfull]

/-- `kheap_expand` depends on the request only through the number of bytes it adds. -/
theorem kheapExpand_congr {m : Nat} (heq : expandSize m = expandSize n) :
    kheapExpand h m = kheapExpand h n := by
  simp only [kheapExpand, heq]

/-- The two ways through `kheap_expand`. -/
theorem kheapExpand_inv {ok : Bool} (hexp : kheapExpand h n = some (h', ok)) :
    (ok = false ∧ kheapStart + kheapMaxSize < wrap64 (h.heapEnd + expandSize n) ∧ h' = h) ∨
      (ok = true ∧ wrap64 (h.heapEnd + expandSize n) ≤ kheapStart + kheapMaxSize ∧
        h'.heapEnd = wrap64 (h.heapEnd + expandSize n)) := by
  simp only [kheapExpand] at hexp
  split at hexp
  case isTrue hfull =>
      cases hexp
      exact Or.inl ⟨rfl, hfull, rfl⟩
  case isFalse hroom =>
      split at hexp
      · cases hexp
      · cases hexp
        exact Or.inr ⟨rfl, Nat.le_of_not_lt hroom, rfl⟩

/-! ## First fit -/

/-- In a chain that has just grown only the last block fits, if none did before. -/
theorem last_of_grow {extra : Nat} {pre post : List Block} {b : Block} (hne : bs ≠ [])
    (hno : ∀ c ∈ bs, ¬ c.Fits need) (hb : b.Fits need)
    (hgrow : grow extra bs = pre ++ b :: post) : post = [] := by
  obtain ⟨init, x, rfl⟩ : ∃ init x, bs = init ++ [x] :=
    ⟨_, _, (List.dropLast_append_getLast hne).symm⟩
  -- all blocks but the last are old ones
  obtain ⟨old, last, heq, hold⟩ : ∃ old last, grow extra (init ++ [x]) = old ++ [last] ∧
      ∀ c ∈ old, c ∈ init ++ [x] := by
    rw [grow_append_singleton]
    split
    · exact ⟨init, _, rfl, fun c hc => List.mem_append_left _ hc⟩
    · exact ⟨init ++ [x], ⟨extra, true⟩, by simp, fun c hc => hc⟩
  rw [heq] at hgrow
  rcases List.eq_nil_or_concat post with hnil | ⟨post', y, rfl⟩
  · exact hnil
  · have hpre : old ++ [last] = (pre ++ b :: post') ++ [y] := by simpa using hgrow
    obtain ⟨rfl, -⟩ := List.append_inj' hpre rfl
    exact absurd hb (hno b (hold b (by simp)))

/-- What `kmalloc` does with a request of `size` bytes that makes a block of `total` bytes
and, if need be, a growth of `expand` bytes. -/
inductive FirstFit (h : Heap σ) (total expand : Nat) : Nat → Heap σ → Nat → Prop
  /-- The lowest free block that is large enough is returned, and the heap does not grow. -/
  | lowest {g : Heap σ} {y : Nat} {b : Block} (hy : (y, b) ∈ placed h.heapStart h.blocks)
      (hfits : b.Fits total)
      (hlowest : ∀ z c, (z, c) ∈ placed h.heapStart h.blocks → c.Fits total → y ≤ z)
      (hg : g = h.withMem (takeBlock h.mem y total)) :
      FirstFit h total expand 0 g (y + headerSize)
  /-- There is none: the heap grows once, and its last block is returned. -/
  | last {g h₁ : Heap σ} {init : List Block} {b : Block}
      (hno : ∀ c ∈ h.blocks, ¬ c.Fits total)
      (hroom : h.heapEnd + expand ≤ kheapStart + kheapMaxSize)
      (hexp : kheapExpand h total = some (h₁, true)) (hend : h₁.heapEnd = h.heapEnd + expand)
      (hlast : h₁.blocks = init ++ [b]) (hfits : b.Fits total)
      (hg : g = h₁.withMem (takeBlock h₁.mem (h₁.heapStart + span init) total)) :
      FirstFit h total expand 1 g (h₁.heapStart + span init + headerSize)
  /-- There is none, and the heap cannot grow: nothing changes. -/
  | null (hno : ∀ c ∈ h.blocks, ¬ c.Fits total)
      (hfull : kheapStart + kheapMaxSize < h.heapEnd + expand) : FirstFit h total expand 0 h 0

/-- The first block of a list that fits is the lowest one. -/
theorem lowest_of_first {a : Nat} {pre post : List Block} {b c : Block} {z : Nat}
    (hpre : ∀ c ∈ pre, ¬ c.Fits need) (hz : (z, c) ∈ placed a (pre ++ b :: post))
    (hc : c.Fits need) : a + span pre ≤ z := by
  rw [placed_append, List.mem_append] at hz
  rcases hz with hz | hz
  · exact absurd hc (hpre c (mem_placed_bounds hz).1)
  · exact (mem_placed_bounds hz).2.1

/-- A request that does not wrap is served by first fit. -/
theorem HeapRep.firstFit (hr : HeapRep h bs) (hpos : size ≠ 0) (hw : NoWrap h size) :
    ∃ n g p, KmallocRun h size n g p ∧ n ≤ 1 ∧
      FirstFit h (exactTotal size) (exactExpand size) n g p := by
  obtain ⟨htotal, hexpand⟩ := hr.noWrap hw
  have hrun : ∀ {n g p}, RetryRun (exactTotal size) h n g p → KmallocRun h size n g p :=
    fun hrun => by rwa [KmallocRun, if_neg hpos, htotal]
  rw [htotal] at hexpand
  have hblocks := hr.blocks_eq
  by_cases hhuge : 2 ^ 63 ≤ exactTotal size
  · -- nothing fits, and the heap cannot grow that far
    have hno := hr.not_fits hhuge
    have hbig := (exactExpand_bounds size).2.1
    have hfull : kheapStart + kheapMaxSize < h.heapEnd + exactExpand size := by
      simp only [kheapStart, kheapMaxSize]
      omega
    refine ⟨0, h, 0, hrun (hr.retryRun_refused hno ?_), Nat.zero_le 1, .null (hblocks ▸ hno) hfull⟩
    rwa [hexpand, wrap64_of_lt hw]
  · rcases retryRun_cases hr (show exactTotal size ≤ 2 ^ 63 + 2 ^ 12 by omega) with
      ⟨pre, b, post, rfl, hpre, hb, hfound⟩ | ⟨hno, hfull, hrefused⟩ |
        ⟨hno, hroom, h', hexp, hr', hend, -, pre, b, post, hsplit, hpre, hb, hfound⟩
    · refine ⟨0, _, _, hrun hfound, Nat.zero_le 1, .lowest (b := b) ?_ hb ?_ rfl⟩
      · rw [hblocks, placed_append]
        exact List.mem_append_right _ List.mem_cons_self
      · rw [hblocks]
        exact fun z c hz hc => lowest_of_first hpre hz hc
    · rw [hexpand] at hfull
      exact ⟨0, h, 0, hrun hrefused, Nat.zero_le 1, .null (hblocks ▸ hno) hfull⟩
    · obtain rfl := last_of_grow hr.ne_nil hno hb hsplit
      rw [hexpand] at hroom hend
      refine ⟨1, _, _, hrun hfound, Nat.le_refl 1, .last (hblocks ▸ hno) hroom hexp hend ?_ hb rfl⟩
      rw [hr'.blocks_eq, hsplit]

/-- A huge request that does not wrap, or that is refused at once, fails. -/
theorem HeapRep.kmalloc_huge (hr : HeapRep h bs) (hhuge : 2 ^ 63 ≤ size)
    (hcond : NoWrap h size ∨ RefusedAtOnce h size) :
    TunaOs.kmalloc h size = some (h, 0) := by
  have hpos : size ≠ 0 := by omega
  rcases hcond with hw | ⟨hno, hfull⟩
  · obtain ⟨n, g, p, hrun, hn, hfit⟩ := hr.firstFit hpos hw
    rw [hrun.kmalloc (Nat.lt_of_le_of_lt hn (by decide))]
    obtain ⟨-, htotal, -⟩ := exactTotal_bounds size
    obtain ⟨-, hexpand, -⟩ := exactExpand_bounds size
    cases hfit with
    | lowest hy hfits =>
        rw [hr.blocks_eq] at hy
        exact absurd hfits (hr.not_fits (by omega) _ (mem_placed_bounds hy).1)
    | last _ hroom =>
        simp only [kheapStart, kheapMaxSize] at hroom
        omega
    | null => rfl
  · exact (hr.retryRun_refused (hr.blocks_eq ▸ hno) hfull).kmalloc hpos (by decide)

/-- A step of a client that may also make huge requests, as long as no sum wraps for them or
they are refused at once. -/
inductive RequestStep : HeapHistory σ → HeapHistory σ → Prop
  | step {h h' : HeapHistory σ} : HeapStep h h' → RequestStep h h'
  | huge {h h' : Heap σ} {live : List (Nat × Nat)} {size p : Nat} :
      2 ^ 63 ≤ size → size < 2 ^ 64 → NoWrap h size ∨ RefusedAtOnce h size →
      kmalloc h size = some (h', p) →
      RequestStep ⟨h, live⟩ ⟨h', if p = 0 then live else (p, size) :: live⟩

theorem RequestStep.inv {h h' : HeapHistory σ} (hinv : HeapInv h.heap h.live)
    (hst : RequestStep h h') : HeapInv h'.heap h'.live := by
  cases hst with
  | step hst => exact hst.inv hinv
  | huge hhuge _ hcond hk =>
      have hinv' := hinv
      obtain ⟨bs, hrep, -⟩ := hinv'
      rw [hrep.kmalloc_huge hhuge hcond] at hk
      obtain ⟨rfl, rfl⟩ := Prod.mk.inj (Option.some.inj hk)
      exact hinv

theorem HeapHistory.inv_of_requests {h : HeapHistory σ}
    (hr : Reachable HeapHistory.Start RequestStep h) : HeapInv h.heap h.live := by
  refine hr.invariant ?_ fun _ _ hinv hst => hst.inv hinv
  rintro h ⟨m, env, rfl⟩
  exact heapInv_kheapInit m env

/-- In every heap that calls and writes of clients reach, `kmalloc` of a size from 1 to
`2 ^ 63` is a complete first fit, and it goes back to the label `retry` at most once. -/
theorem kmalloc_firstFit {h : HeapHistory σ} (hr : Reachable HeapHistory.Start RequestStep h)
    {size : Nat} (hpos : 1 ≤ size) (hmax : size ≤ 2 ^ 63) :
    ∃ n g p, kmalloc h.heap size = some (g, p) ∧ KmallocRun h.heap size n g p ∧ n ≤ 1 ∧
      FirstFit h.heap (exactTotal size) (exactExpand size) n g p := by
  obtain ⟨bs, hrep, -⟩ := HeapHistory.inv_of_requests hr
  obtain ⟨n, g, p, hrun, hn, hfit⟩ := hrep.firstFit (by omega) (hrep.noWrap_of_le hmax)
  exact ⟨n, g, p, hrun.kmalloc (Nat.lt_of_le_of_lt hn (by decide)), hrun, hn, hfit⟩

/-- The first request, of 100 bytes, is served from the initial block. -/
theorem kmalloc_firstFit_first :
    ∃ n g p, kmalloc (kheapInit (fun _ => 0) ()) 100 = some (g, p) ∧
      KmallocRun (kheapInit (fun _ => 0) ()) 100 n g p ∧ n ≤ 1 ∧
      FirstFit (kheapInit (fun _ => 0) ()) (exactTotal 100) (exactExpand 100) n g p :=
  kmalloc_firstFit (h := ⟨kheapInit (fun _ => 0) (), []⟩) (.init ⟨_, _, rfl⟩) (by decide)
    (by decide)

/-! ## All 64-bit sizes -/

/-- A call of `kmalloc` that is safe: it fails and changes nothing, or it returns a block that
is large enough.  The heap grows at most once, and never past its limit. -/
structure SafeCall (h : Heap σ) (size n : Nat) (h' : Heap σ) (p : Nat) : Prop where
  /-- `kheap_expand` succeeds at most once. -/
  once : n ≤ 1
  /-- The end of the heap does not move down. -/
  grows : h.heapEnd ≤ h'.heapEnd
  /-- Nor past the limit. -/
  limit : h'.heapEnd ≤ kheapStart + kheapMaxSize
  /-- A call that fails changes nothing. -/
  null : p = 0 → h'.heapEnd = h.heapEnd ∧ h'.blocks = h.blocks
  /-- The payload is at least as long as requested. -/
  payload : p ≠ 0 → size + headerSize ≤ blockSize h'.mem (p - headerSize)

omit [HeapBacking σ] in
theorem HeapRep.safeCall_null (hr : HeapRep h bs) : SafeCall h size 0 h 0 :=
  ⟨Nat.zero_le 1, Nat.le_refl _, hr.high, fun _ => ⟨rfl, rfl⟩, fun h0 => absurd rfl h0⟩

omit [HeapBacking σ] in
/-- The block that is taken is at least as long as requested, and not longer than it was. -/
theorem HeapRep.blockSize_take {pre post : List Block} {b : Block}
    (hr : HeapRep h (pre ++ b :: post)) (hb : b.Fits need) (hneed : 32 ≤ need)
    (hmod : need % 8 = 0) :
    need ≤ blockSize (takeBlock h.mem (h.heapStart + span pre) need) (h.heapStart + span pre) ∧
      blockSize (takeBlock h.mem (h.heapStart + span pre) need) (h.heapStart + span pre)
        ≤ b.size := by
  obtain ⟨-, hrest⟩ := chain_append.mp (hr.take hb hneed hmod).1.chain
  obtain ⟨hmid, -⟩ := chain_append.mp hrest
  have hfit := hb.2
  by_cases hsplit : need + 32 ≤ b.size
  · rw [carve, if_pos hsplit] at hmid
    have hsize : blockSize (takeBlock h.mem (h.heapStart + span pre) need) (h.heapStart + span pre)
        = need := hmid.1
    omega
  · rw [carve, if_neg hsplit] at hmid
    have hsize : blockSize (takeBlock h.mem (h.heapStart + span pre) need) (h.heapStart + span pre)
        = b.size := hmid.1
    omega

theorem exactTotal_mod (size : Nat) : exactTotal size % 8 = 0 := by
  simp only [exactTotal, kheapMinBlock]
  omega

/-- First fit is safe. -/
theorem FirstFit.safeCall (hr : HeapRep h bs)
    (hfit : FirstFit h (exactTotal size) (exactExpand size) n h' p) : SafeCall h size n h' p := by
  obtain ⟨hmin, hge, -⟩ := exactTotal_bounds size
  have hmod := exactTotal_mod size
  cases hfit with
  | @lowest _ y b hy hfits _ hg =>
      rw [hr.blocks_eq] at hy
      obtain ⟨pre, post, rfl, rfl⟩ := placed_split hy
      subst hg
      obtain ⟨hsize, -⟩ := hr.blockSize_take hfits hmin hmod
      refine ⟨Nat.zero_le 1, Nat.le_refl _, hr.high, fun h0 => ?_, fun _ => ?_⟩
      · simp only [headerSize] at h0
        omega
      · rw [Nat.add_sub_cancel, Heap.withMem_mem]
        exact Nat.le_trans hge hsize
  | @last _ h₁ init b hno hroom hexp hend hlast hfits hg =>
      subst hg
      have hr₁ : HeapRep h₁ (init ++ [b]) := by
        have hle := (exactExpand_bounds size).2.1
        simp only [kheapStart, kheapMaxSize] at hroom
        rcases kheapExpand_cases hr (n := exactTotal size) (by omega) with
          ⟨-, hexp'⟩ | ⟨-, h₂, hexp', hr₂, -⟩
        · rw [hexp] at hexp'
          cases hexp'
        · obtain ⟨rfl, -⟩ := Prod.mk.inj (Option.some.inj (hexp.symm.trans hexp'))
          rwa [← hlast, hr₂.blocks_eq]
      obtain ⟨hsize, -⟩ := hr₁.blockSize_take hfits hmin hmod
      refine ⟨Nat.le_refl 1, ?_, ?_, fun h0 => ?_, fun _ => ?_⟩
      · rw [Heap.withMem_heapEnd, hend]
        exact Nat.le_add_right ..
      · rw [Heap.withMem_heapEnd, hend]
        exact hroom
      · simp only [headerSize] at h0
        omega
      · rw [Nat.add_sub_cancel, Heap.withMem_mem]
        exact Nat.le_trans hge hsize
  | null => exact hr.safeCall_null

/-- The rounding in `kmalloc` has wrapped: a block that is returned is too small. -/
theorem HeapRep.wrapped_request (hr : HeapRep h bs) (hlt : size < 2 ^ 64)
    (hwrap : 2 ^ 64 ≤ size + 23) (hrun : RetryRun (requestSize size) h n h' p)
    (hsafe : SafeCall h size n h' p) : RefusedAtOnce h size := by
  have hreq := requestSize_wrapped hlt hwrap
  unfold RefusedAtOnce
  rw [hreq] at hrun ⊢
  rw [hr.blocks_eq]
  -- every block is smaller than the request
  have hsmall : ∀ {g : Heap σ} {pre post : List Block} {b : Block},
      HeapRep g (pre ++ b :: post) → b.Fits 32 →
      h' = g.withMem (takeBlock g.mem (g.heapStart + span pre) 32) →
      p = g.heapStart + span pre + 16 → False := by
    rintro g pre post b hg hb rfl rfl
    have hpay := hsafe.payload (by omega)
    have hle := (hg.blockSize_take hb (Nat.le_refl 32) rfl).2
    have := hg.size_lt (b := b) (by simp)
    simp only [headerSize, Nat.add_sub_cancel, Heap.withMem_mem] at hpay
    omega
  rcases retryRun_cases hr (show 32 ≤ 2 ^ 63 + 2 ^ 12 by decide) with
    ⟨pre, b, post, rfl, -, hb, hfound⟩ | ⟨hno, hfull, -⟩ |
      ⟨-, -, g, -, hg, -, -, pre, b, post, hsplit, -, hb, hfound⟩
  · exact absurd (hrun.unique hfound) fun heq => hsmall hr hb heq.1 heq.2
  · refine ⟨hno, ?_⟩
    have hpage : expandSize 32 = 4096 := by decide
    have hend := hr.end_lt
    rw [hpage] at hfull ⊢
    rwa [wrap64_of_lt (by omega)]
  · rw [hsplit] at hg
    exact absurd (hrun.unique hfound) fun heq => hsmall hg hb heq.1 heq.2

/-- The rounding in `kheap_expand` has wrapped: the heap grows page by page, and the call
fails in the end. -/
theorem RetryRun.page_by_page (hneed : 2 ^ 63 ≤ need) (hpage : expandSize need = 4096)
    (hrun : RetryRun need h n h' p) : ∀ {bs : List Block}, HeapRep h bs →
      p = 0 ∧ h'.heapEnd = h.heapEnd + 4096 * n := by
  have hexpand : ∀ g : Heap σ, kheapExpand g need = kheapExpand g 4096 := fun g =>
    kheapExpand_congr (hpage.trans (by decide))
  induction hrun with
  | found hfind =>
      intro bs hr
      rw [hr.findFit_none (hr.not_fits hneed)] at hfind
      cases hfind
  | refused _ hexp =>
      intro bs hr
      rw [hexpand] at hexp
      rcases kheapExpand_cases hr (n := 4096) (by decide) with ⟨-, hexp'⟩ | ⟨-, _, hexp', -⟩
      · rw [hexp] at hexp'
        obtain ⟨rfl, -⟩ := Prod.mk.inj (Option.some.inj hexp')
        exact ⟨rfl, by omega⟩
      · rw [hexp] at hexp'
        cases hexp'
  | expanded _ hexp _ ih =>
      intro bs hr
      rw [hexpand] at hexp
      rcases kheapExpand_cases hr (n := 4096) (by decide) with
        ⟨-, hexp'⟩ | ⟨-, g, hexp', hg, hend, -⟩
      · rw [hexp] at hexp'
        cases hexp'
      · obtain ⟨rfl, -⟩ := Prod.mk.inj (Option.some.inj (hexp.symm.trans hexp'))
        obtain ⟨hp, hend'⟩ := ih hg
        have hsize : expandSize 4096 = 4096 := by decide
        exact ⟨hp, by omega⟩

/-- The sum with `heap_end` can wrap: the end of the heap does not move up. -/
theorem RetryRun.heapEnd_le (hbig : 2 ^ 64 - 2 ^ 32 ≤ expandSize need)
    (hlt : expandSize need < 2 ^ 64) (hrun : RetryRun need h n h' p)
    (hh : h.heapEnd ≤ kheapStart + kheapMaxSize) : h'.heapEnd ≤ h.heapEnd := by
  have hstep : ∀ {g g' : Heap σ} {ok : Bool}, kheapExpand g need = some (g', ok) →
      g.heapEnd ≤ kheapStart + kheapMaxSize → g'.heapEnd ≤ g.heapEnd := by
    intro g g' ok hexp hg
    simp only [kheapStart, kheapMaxSize] at hg
    rcases kheapExpand_inv hexp with ⟨-, -, rfl⟩ | ⟨-, hroom, hend⟩
    · exact Nat.le_refl _
    · simp only [wrap64, kheapStart, kheapMaxSize] at hroom hend
      omega
  induction hrun with
  | found => exact Nat.le_refl _
  | refused _ hexp => exact hstep hexp hh
  | expanded _ hexp _ ih =>
      have hle := hstep hexp hh
      exact Nat.le_trans (ih (Nat.le_trans hle hh)) hle

/-- A run for a huge request that does not grow the heap is refused. -/
theorem HeapRep.refused_of_run (hr : HeapRep h bs) (hhuge : 2 ^ 63 ≤ need)
    (hrun : RetryRun need h 0 h' p) :
    kheapStart + kheapMaxSize < wrap64 (h.heapEnd + expandSize need) := by
  cases hrun with
  | found hfind =>
      rw [hr.findFit_none (hr.not_fits hhuge)] at hfind
      cases hfind
  | refused _ hexp =>
      rcases kheapExpand_inv hexp with ⟨-, hfull, -⟩ | ⟨hok, -⟩
      · exact hfull
      · cases hok

/-- The rounding in `kheap_expand` has wrapped: the call is safe only if it is refused at
once. -/
theorem HeapRep.wrapped_expand (hr : HeapRep h bs) (hhuge : 2 ^ 63 ≤ requestSize size)
    (hpage : expandSize (requestSize size) = 4096) (hrun : RetryRun (requestSize size) h n h' p)
    (hsafe : SafeCall h size n h' p) : RefusedAtOnce h size := by
  obtain ⟨hp, hgrown⟩ := hrun.page_by_page hhuge hpage hr
  have hsame := (hsafe.null hp).1
  obtain rfl : n = 0 := by omega
  exact ⟨hr.blocks_eq ▸ hr.not_fits hhuge, hr.refused_of_run hhuge hrun⟩

/-- The sum with `heap_end` has wrapped: the call is not safe. -/
theorem HeapRep.wrapped_end (hr : HeapRep h bs) (hhuge : 2 ^ 63 ≤ requestSize size)
    (hlt : expandSize (requestSize size) < 2 ^ 64)
    (hwrap : 2 ^ 64 ≤ h.heapEnd + expandSize (requestSize size))
    (hrun : RetryRun (requestSize size) h n h' p) : ¬ SafeCall h size n h' p := by
  intro hsafe
  have hhigh := hr.high
  have hend := hr.end_lt
  have hlower : wrap64 (h.heapEnd + expandSize (requestSize size)) < h.heapEnd := by
    simp only [wrap64]
    omega
  by_cases hn : n = 0
  · subst hn
    have hfull := hr.refused_of_run hhuge hrun
    omega
  cases hrun with
  | found => exact hn rfl
  | refused => exact hn rfl
  | expanded _ hexp hrun' =>
      -- the first growth moves the end of the heap down, and no other moves it up
      rcases kheapExpand_inv hexp with ⟨hok, -⟩ | ⟨-, hroom, hend₁⟩
      · cases hok
      · have hle := hrun'.heapEnd_le (by omega) hlt (hend₁ ▸ hroom)
        have hgrows := hsafe.grows
        omega

/-- A call of `kmalloc`, with any 64-bit size, is safe exactly if no sum wraps, or if it is
refused at once. -/
theorem kmalloc_safe_iff {h : HeapHistory σ} (hr : Reachable HeapHistory.Start RequestStep h)
    {size : Nat} (hsize : size < 2 ^ 64) :
    (∃ n h' p, kmalloc h.heap size = some (h', p) ∧ KmallocRun h.heap size n h' p ∧
        SafeCall h.heap size n h' p) ↔
      NoWrap h.heap size ∨ RefusedAtOnce h.heap size := by
  obtain ⟨bs, hrep, -⟩ := HeapHistory.inv_of_requests hr
  constructor
  · rintro ⟨n, h', p, -, hrun, hsafe⟩
    refine Classical.or_iff_not_imp_left.mpr fun hwrap => ?_
    have hwrap' : 2 ^ 64 ≤ h.heap.heapEnd + exactExpand size := Nat.le_of_not_lt hwrap
    have hend := hrep.end_lt
    obtain ⟨-, htotal, htotal'⟩ := exactTotal_bounds size
    obtain ⟨-, -, hexpand⟩ := exactExpand_bounds size
    rw [KmallocRun, if_neg (by omega)] at hrun
    -- the first of the three sums that wraps
    by_cases hround : 2 ^ 64 ≤ size + 23
    · exact hrep.wrapped_request hsize hround hrun hsafe
    have hreq := requestSize_exact (Nat.lt_of_not_le hround)
    have hhuge : 2 ^ 63 ≤ requestSize size := by omega
    by_cases hpages : 2 ^ 64 ≤ exactTotal size + 4095
    · refine hrep.wrapped_expand hhuge ?_ hrun hsafe
      rw [hreq]
      exact expandSize_wrapped (by omega) hpages
    have hexact : expandSize (requestSize size) = exactExpand size := by
      rw [hreq, expandSize_exact (by omega)]
    exact absurd hsafe (hrep.wrapped_end hhuge (by omega) (by omega) hrun)
  · intro hcond
    have hnull : KmallocRun h.heap size 0 h.heap 0 →
        ∃ n h' p, kmalloc h.heap size = some (h', p) ∧ KmallocRun h.heap size n h' p ∧
          SafeCall h.heap size n h' p :=
      fun hrun => ⟨0, h.heap, 0, hrun.kmalloc (by decide), hrun, hrep.safeCall_null⟩
    by_cases hpos : size = 0
    · refine hnull ?_
      rw [KmallocRun, if_pos hpos]
      exact ⟨rfl, rfl, rfl⟩
    rcases hcond with hw | ⟨hno, hfull⟩
    · obtain ⟨n, g, p, hrun, hn, hfit⟩ := hrep.firstFit hpos hw
      exact ⟨n, g, p, hrun.kmalloc (Nat.lt_of_le_of_lt hn (by decide)), hrun, hfit.safeCall hrep⟩
    · refine hnull ?_
      rw [KmallocRun, if_neg hpos]
      exact hrep.retryRun_refused (hrep.blocks_eq ▸ hno) hfull

/-- The first request, of 100 bytes, is safe. -/
theorem kmalloc_safe_first :
    ∃ n h' p, kmalloc (kheapInit (fun _ => 0) ()) 100 = some (h', p) ∧
      KmallocRun (kheapInit (fun _ => 0) ()) 100 n h' p ∧
      SafeCall (kheapInit (fun _ => 0) ()) 100 n h' p :=
  (kmalloc_safe_iff (h := ⟨kheapInit (fun _ => 0) (), []⟩) (.init ⟨_, _, rfl⟩) (by decide)).mpr
    (.inl (by decide +kernel))

/-- A request of `2 ^ 64 - 1` bytes, made of the initial heap, returns a block of 32 bytes, and
one of `2 ^ 64 - 2 ^ 20` bytes fails with the end of the heap below its start. -/
theorem kmalloc_wraps :
    (kmalloc (kheapInit (fun _ => 0) ()) (2 ^ 64 - 1)).map
        (fun r => (r.2, blockSize r.1.mem (r.2 - headerSize))) = some (0x200010, 32) ∧
      (kmalloc (kheapInit (fun _ => 0) ()) (2 ^ 64 - 2 ^ 20)).map
        (fun r => (r.2, r.1.heapEnd)) = some (0, 0x12000) := by
  decide +kernel

end

end TunaOs
