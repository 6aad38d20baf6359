import TunaOs.Kheap.Requests

/-!
# How far a call of `kmalloc` lets the heap grow

Whether a call of `kmalloc` grows the heap is settled by its first search of the chain
(`Heap.Grows`).  On a chain in order the heap then grows once, by the bytes of the request.
Overwritten headers can make it grow again and again, but not beyond its limit.
`Heap.reach` is the end of the heap in the first case and the limit in the second.
-/

namespace TunaOs

open Word

section

variable {σ : Type} {h : Heap σ} {bs : List Block} {size : Nat}

/-- Nothing in the heap is large enough for the request, and there is room to grow. -/
def Heap.Grows (h : Heap σ) (size : Nat) : Prop :=
  size ≠ 0 ∧ findFit h.mem h.heapEnd (requestSize size) h.walkFuel h.heapStart = some none
    ∧ wrap64 (h.heapEnd + expandSize (requestSize size)) ≤ kheapStart + kheapMaxSize

instance (h : Heap σ) (size : Nat) : Decidable (h.Grows size) :=
  inferInstanceAs (Decidable (_ ∧ _ ∧ _))

instance decidableChain (m : Mem) : ∀ (a : Nat) (bs : List Block) (e : Nat),
    Decidable (Chain m a bs e)
  | a, [], e => inferInstanceAs (Decidable (a = e))
  | a, b :: bs, e =>
      haveI := decidableChain m (a + b.size) bs e
      inferInstanceAs (Decidable (_ ∧ _ ∧ _))

/-- The headers of the heap are a chain in order. -/
def Heap.InOrder (h : Heap σ) : Prop := HeapRep h h.blocks

instance (h : Heap σ) : Decidable h.InOrder :=
  decidable_of_iff (h.heapStart = kheapStart ∧ Chain h.mem h.heapStart h.blocks h.heapEnd
      ∧ (∀ b ∈ h.blocks, 32 ≤ b.size ∧ b.size % 8 = 0)
      ∧ kheapStart + kheapInitialSize ≤ h.heapEnd ∧ h.heapEnd ≤ kheapStart + kheapMaxSize)
    ⟨fun ⟨h1, h2, h3, h4, h5⟩ => ⟨h1, h2, h3, h4, h5⟩,
      fun ⟨h1, h2, h3, h4, h5⟩ => ⟨h1, h2, h3, h4, h5⟩⟩

theorem HeapRep.inOrder (hr : HeapRep h bs) : h.InOrder := by
  rw [Heap.InOrder, hr.blocks_eq]
  exact hr

/-- The end of the heap that a call does not get past. -/
def Heap.reach (h : Heap σ) (size : Nat) : Nat :=
  if h.Grows size then
    if h.InOrder ∧ size < 2 ^ 63 then h.heapEnd + expandSize (requestSize size)
    else kheapStart + kheapMaxSize
  else h.heapEnd

theorem Heap.inOrder_withEnv (h : Heap σ) (M : σ) : (h.withEnv M).InOrder ↔ h.InOrder :=
  ⟨fun ⟨h1, h2, h3, h4, h5⟩ => ⟨h1, h2, h3, h4, h5⟩,
    fun ⟨h1, h2, h3, h4, h5⟩ => ⟨h1, h2, h3, h4, h5⟩⟩

/-- Frames and page tables do not matter for it. -/
theorem Heap.reach_withEnv (h : Heap σ) (M : σ) (size : Nat) :
    (h.withEnv M).reach size = h.reach size := by
  have hgrows : (h.withEnv M).Grows size ↔ h.Grows size := Iff.rfl
  simp only [Heap.reach, hgrows, h.inOrder_withEnv M]
  rfl

/-- Requests below 2 ^ 63 bytes do not wrap. -/
theorem heapEnd_expand_lt {e : Nat} (he : e ≤ kheapStart + kheapMaxSize) (hsize : size < 2 ^ 63) :
    e + expandSize (requestSize size) < 2 ^ 64 := by
  obtain ⟨-, -, -, hreq⟩ := requestSize_spec hsize
  obtain ⟨-, -, -, hexp⟩ := expandSize_spec (n := requestSize size) (by omega)
  simp only [kheapStart, kheapMaxSize] at he
  omega

/-- The heap grows if no block of the chain fits and there is room. -/
theorem HeapRep.grows_iff (hr : HeapRep h bs) (hsize : size < 2 ^ 63) :
    h.Grows size ↔ size ≠ 0 ∧ (∀ b ∈ bs, ¬ b.Fits (requestSize size))
      ∧ h.heapEnd + expandSize (requestSize size) ≤ kheapStart + kheapMaxSize := by
  rw [Heap.Grows, wrap64_of_lt (heapEnd_expand_lt hr.high hsize)]
  refine and_congr_right fun _ => and_congr_left fun _ => ?_
  rcases findFit_spec (requestSize size) hr.end_lt hr.chain hr.sized hr.length_lt with
    ⟨hnone, hall⟩ | ⟨pre, b, post, hsplit, -, hb, hsome⟩
  · exact iff_of_true hnone hall
  · rw [hsome]
    refine iff_of_false nofun fun hall => hall b ?_ hb
    rw [hsplit]
    exact List.mem_append_right _ List.mem_cons_self

theorem Heap.InOrder.reach_le (ho : h.InOrder) (hsize : size < 2 ^ 63) :
    h.reach size ≤ h.heapEnd + expandSize (requestSize size) := by
  unfold Heap.reach
  split
  · rw [if_pos ⟨ho, hsize⟩]
  · exact Nat.le_add_right ..

variable [HeapBacking σ] {h' : Heap σ} {p : Nat}

/-- A call that does not grow the heap leaves the environment alone. -/
theorem kmalloc_within (hno : ¬ h.Grows size) (hm : kmalloc h size = some (h', p)) :
    h'.env = h.env ∧ h'.heapEnd = h.heapEnd := by
  by_cases h0 : size = 0
  · rw [kmalloc, if_pos h0] at hm
    cases hm
    exact ⟨rfl, rfl⟩
  rw [kmalloc, if_neg h0, retryFuel, kmallocRetry] at hm
  split at hm
  case h_1 => cases hm
  case h_2 =>
      cases hm
      exact ⟨rfl, rfl⟩
  case h_3 hfind =>
      -- there is no room
      have hfull : wrap64 (h.heapEnd + expandSize (requestSize size))
          > kheapStart + kheapMaxSize := Nat.lt_of_not_le fun hle => hno ⟨h0, hfind, hle⟩
      have hexp : kheapExpand h (requestSize size) = some (h, false) := by
        rw [kheapExpand, if_pos hfull]
      rw [hexp] at hm
      cases hm
      exact ⟨rfl, rfl⟩

/-- On a chain in order the heap grows once. -/
theorem Heap.InOrder.kmalloc_grown (ho : h.InOrder) (hsize : size < 2 ^ 63) (hg : h.Grows size)
    (hm : kmalloc h size = some (h', p)) :
    h'.heapEnd = h.heapEnd + expandSize (requestSize size)
      ∧ h'.env = HeapBacking.mapRegion h.env h.heapEnd (expandSize (requestSize size)) := by
  obtain ⟨hpos, hall, hroom⟩ := (HeapRep.grows_iff ho hsize).mp hg
  rcases kmalloc_cases ho hpos hsize with ⟨pre, b, post, hsplit, -, hb, -⟩ | ⟨-, hfull, -⟩ |
    ⟨-, -, g, hexp, -, hend, -, pre, b, post, -, -, -, hk⟩
  · exact absurd hb (hall b (by rw [hsplit]; simp))
  · omega
  · cases hm.symm.trans hk
    refine ⟨hend, ?_⟩
    rcases kheapExpand_env hexp with ⟨-, hsame⟩ | ⟨-, henv, -⟩
    · have := expandSize_pos (requestSize size)
      omega
    · exact henv

/-- A call does not get past the reach. -/
theorem kmalloc_reach (hmax : h.heapEnd ≤ kheapStart + kheapMaxSize)
    (hm : kmalloc h size = some (h', p)) : h'.heapEnd ≤ h.reach size := by
  unfold Heap.reach
  split
  case isTrue hg =>
      split
      case isTrue ho => exact Nat.le_of_eq (ho.1.kmalloc_grown ho.2 hg hm).1
      case isFalse =>
          exact kmalloc_env (Q := fun _ e => e ≤ kheapStart + kheapMaxSize)
            (fun _ _ hfit _ => hfit) hm hmax
  case isFalse hno => exact Nat.le_of_eq (kmalloc_within hno hm).2

/-- On a chain in order it gets there. -/
theorem Heap.InOrder.kmalloc_reach (ho : h.InOrder) (hsize : size < 2 ^ 63)
    (hm : kmalloc h size = some (h', p)) : h'.heapEnd = h.reach size := by
  unfold Heap.reach
  split
  case isTrue hg =>
      rw [if_pos ⟨ho, hsize⟩]
      exact (ho.kmalloc_grown hsize hg hm).1
  case isFalse hno => exact (kmalloc_within hno hm).2

/-! ## A heap that is used up -/

/-- A request for the whole of a free heap. -/
theorem kmalloc_whole (hr : HeapRep h [⟨requestSize size, true⟩]) (hpos : size ≠ 0)
    (hsize : size < 2 ^ 63) :
    ∃ m, kmalloc h size = some (h.withMem m, kheapStart + 16)
      ∧ HeapRep (h.withMem m) [⟨requestSize size, false⟩] := by
  obtain ⟨hmod, hmin, -⟩ := requestSize_spec hsize
  have hfit : (⟨requestSize size, true⟩ : Block).Fits (requestSize size) := ⟨rfl, Nat.le_refl _⟩
  have hr' : HeapRep h ([] ++ ⟨requestSize size, true⟩ :: []) := hr
  have htake := (hr'.take hfit hmin hmod).1
  have hcarve : carve (requestSize size) ⟨requestSize size, true⟩ = [⟨requestSize size, false⟩] :=
    if_neg (by simp only; omega)
  rw [hcarve] at htake
  rcases kmalloc_cases hr hpos hsize with ⟨pre, b, post, hsplit, -, -, hk⟩ | ⟨hno, -⟩ | ⟨hno, -⟩
  · obtain rfl : pre = [] := by
      cases pre with
      | nil => rfl
      | cons c pre => simp at hsplit
    refine ⟨_, ?_, htake⟩
    rw [hk, hr.start]
    rfl
  · exact absurd hfit (hno _ List.mem_cons_self)
  · exact absurd hfit (hno _ List.mem_cons_self)

/-- A new block that is taken whole. -/
theorem takeBlock_newBlock {m : Mem} {a n : Nat} (hn : n + 32 < 2 ^ 64) :
    takeBlock (newBlock m a n) a n = setFree (newBlock m a n) a 0 := by
  have hwrap : wrap64 (n + kheapMinBlock) = n + 32 := wrap64_of_lt hn
  rw [takeBlock, blockSize_newBlock (by omega), hwrap, if_neg (by omega)]

/-- A request for whole pages when the heap is one used block: the heap grows by the block that is
returned, and its header is all that is written. -/
theorem kmalloc_behind {n : Nat} (hr : HeapRep h [⟨n, false⟩]) (hpos : size ≠ 0)
    (hsize : size < 2 ^ 63) (hwhole : expandSize (requestSize size) = requestSize size)
    (hfit : h.heapEnd + requestSize size ≤ kheapStart + kheapMaxSize) :
    ∃ h', kmalloc h size = some (h', h.heapEnd + 16)
      ∧ h'.heapEnd = h.heapEnd + requestSize size
      ∧ h'.env = HeapBacking.mapRegion h.env h.heapEnd (requestSize size)
      ∧ ∀ x, h'.mem x ≠ h.mem x → h.heapEnd ≤ x ∧ x < h.heapEnd + headerSize := by
  have hno : ∀ b ∈ [(⟨n, false⟩ : Block)], ¬ b.Fits (requestSize size) := by
    rintro b hb ⟨hfree, -⟩
    obtain rfl := List.mem_singleton.mp hb
    cases hfree
  have hr' : HeapRep h ([] ++ [⟨n, false⟩]) := hr
  have hexp := kheapExpand_mem (n := requestSize size) hr' (by rw [hwhole]; exact hfit)
  have hend : h.heapStart + n = h.heapEnd := by simpa using hr.chain.end_eq.symm
  have hlt : h.heapEnd + requestSize size < 2 ^ 64 := by
    simp only [kheapStart, kheapMaxSize] at hfit
    omega
  rw [hwhole] at hexp
  rcases kmalloc_cases hr hpos hsize with ⟨pre, b, post, hsplit, -, hb, -⟩ | ⟨-, hfull, -⟩ |
    ⟨-, -, h', hexp', -, hend', -, pre, b, post, hsplit, -, hb, hk⟩
  · exact absurd hb (hno b (by rw [hsplit]; simp))
  · omega
  · cases hexp'.symm.trans hexp
    rw [hwhole] at hsplit
    -- the block taken is the new one
    obtain ⟨rfl, rfl⟩ : pre = [⟨n, false⟩] ∧ b = ⟨requestSize size, true⟩ := by
      cases pre with
      | nil =>
          obtain ⟨rfl, -⟩ := List.cons.inj hsplit
          exact absurd hb (hno _ List.mem_cons_self)
      | cons c pre =>
          obtain ⟨rfl, hrest⟩ := List.cons.inj hsplit
          cases pre with
          | nil =>
            obtain ⟨rfl, -⟩ := List.cons.inj hrest
            exact ⟨rfl, rfl⟩
          | cons d pre => simp at hrest
    have hspan : h.heapStart + span [(⟨n, false⟩ : Block)] = h.heapEnd := by simpa using hend
    have htake := takeBlock_newBlock (m := h.mem) (a := h.heapEnd) (n := requestSize size) (by
      simp only [kheapStart, kheapMaxSize] at hfit
      omega)
    simp only [hspan, Bool.false_eq_true, if_false, htake] at hk
    refine ⟨_, hk, rfl, rfl, fun x hx => ?_⟩
    by_contra hout
    refine hx ?_
    simp only [headerSize] at hout
    exact (setFree_other (by omega)).trans (newBlock_other (by omega))

end

end TunaOs
