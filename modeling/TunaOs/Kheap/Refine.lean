import TunaOs.Kheap.Blocks

/-!
# The code refines the list operations

Each walk and each update of `kheap.c`, run on a memory that holds a chain of
blocks, ends within its fuel and leaves the chain that the list operation
gives.  Every result also says which bytes stay: no operation touches a byte of
a block that is used before and after it (`UsedKept`).
-/

namespace TunaOs

open Word

/-- The bytes of the used blocks of `bs` are the same in both memories. -/
def UsedKept (m m' : Mem) (a : Nat) (bs : List Block) : Prop :=
  ∀ y s, (y, s) ∈ usedBlocks a bs → ∀ x, y ≤ x → x < y + s → m' x = m x

/-- Bytes that change lie in one free block: the used blocks are kept. -/
theorem usedKept_of_free {m m' : Mem} {a x : Nat} {bs : List Block} {b : Block}
    (hx : (x, b) ∈ placed a bs) (hfree : b.free = true)
    (hm : ∀ z, z < x ∨ x + b.size ≤ z → m' z = m z) : UsedKept m m' a bs := by
  intro y s hy z hz1 hz2
  apply hm
  rcases placed_disjoint hx (mem_usedBlocks.mp hy) with ⟨-, heq⟩ | h | h
  · rw [heq] at hfree
    cases hfree
  · right
    omega
  · left
    simp only at h
    omega

theorem nextBlock_eq {m : Mem} {b : Block} {bs : List Block} {a e : Nat}
    (h : Chain m a (b :: bs) e) (he : e < 2 ^ 32) : nextBlock m a = a + b.size := by
  have hend := h.end_eq
  rw [span_cons] at hend
  rw [nextBlock, h.1, wrap64_of_lt (by omega)]

/-- The address of the first block of a nonempty chain is before its end. -/
theorem Chain.lt_end {m : Mem} {b : Block} {bs : List Block} {a e : Nat}
    (h : Chain m a (b :: bs) e) (hw : WellSized (b :: bs)) : a < e := by
  have hend := h.end_eq
  have hb := (WellSized.cons.mp hw).1
  rw [span_cons] at hend
  omega

/-! ## Finding and taking a block -/

/-- The walk of `kmalloc` finds the first block that fits, if there is one. -/
theorem findFit_spec (need : Nat) {m : Mem} {e : Nat} (he : e < 2 ^ 32) {bs : List Block} :
    ∀ {a fuel : Nat}, Chain m a bs e → WellSized bs → bs.length < fuel →
      (findFit m e need fuel a = some none ∧ ∀ b ∈ bs, ¬ b.Fits need) ∨
      (∃ pre b post, bs = pre ++ b :: post ∧ (∀ c ∈ pre, ¬ c.Fits need) ∧ b.Fits need ∧
        findFit m e need fuel a = some (some (a + span pre))) := by
  induction bs with
  | nil =>
      intro a fuel h _ hfuel
      have hae : a = e := h
      cases fuel with
      | zero => cases hfuel
      | succ fuel => exact Or.inl ⟨by simp [findFit, hae], fun b hb => (List.not_mem_nil hb).elim⟩
  | cons b bs ih =>
      intro a fuel h hw hfuel
      have hlt := h.lt_end hw
      have hiff : (blockFree m a ≠ 0 ∧ blockSize m a ≥ need) ↔ b.Fits need := by
        rw [h.1, h.2.1]
        rfl
      cases fuel with
      | zero => cases hfuel
      | succ fuel =>
          by_cases hfit : b.Fits need
          · refine Or.inr ⟨[], b, bs, rfl, fun c hc => (List.not_mem_nil hc).elim, hfit, ?_⟩
            simp only [findFit, hlt, if_true, if_pos (hiff.mpr hfit), span_nil, Nat.add_zero]
          · have hstep : findFit m e need (fuel + 1) a = findFit m e need fuel (a + b.size) := by
              simp only [findFit, hlt, if_true, if_neg (fun hc => hfit (hiff.mp hc)),
                nextBlock_eq h he]
            have hlen : bs.length < fuel := by
              simp only [List.length_cons] at hfuel
              omega
            rcases ih h.2.2 (WellSized.cons.mp hw).2 hlen with
              ⟨hnone, hall⟩ | ⟨pre, c, post, rfl, hpre, hc, hsome⟩
            · exact Or.inl ⟨hstep.trans hnone, List.forall_mem_cons.mpr ⟨hfit, hall⟩⟩
            · refine Or.inr ⟨b :: pre, c, post, rfl, List.forall_mem_cons.mpr ⟨hfit, hpre⟩, hc, ?_⟩
              rw [hstep, hsome, span_cons, Nat.add_assoc]

/-- The two headers after a block has been taken and, if it was large enough,
split. -/
theorem takeBlock_chain {m : Mem} {cur need : Nat} {b : Block} (hb : b.Fits need)
    (hneed : 32 ≤ need) (hend : cur + b.size < 2 ^ 32)
    (hsize : blockSize m cur = b.size) :
    Chain (takeBlock m cur need) cur (carve need b) (cur + b.size) ∧
      ∀ x, x < cur ∨ cur + b.size ≤ x → takeBlock m cur need x = m x := by
  obtain ⟨-, hfit⟩ := hb
  have hwrap : wrap64 (need + kheapMinBlock) = need + 32 := wrap64_of_lt (by
    simp only [kheapMinBlock]
    omega)
  have hcur : wrap64 (cur + need) = cur + need := wrap64_of_lt (by omega)
  by_cases hsplit : need + 32 ≤ b.size
  · have htake : takeBlock m cur need
        = setFree (setSize (newBlock m (cur + need) (b.size - need)) cur need) cur 0 := by
      simp only [takeBlock, hsize, hwrap, hcur, ge_iff_le, hsplit, if_true]
    rw [htake, carve, if_pos hsplit]
    refine ⟨⟨?_, ?_, ?_, ?_, ?_⟩, ?_⟩
    · rw [blockSize_setFree (by omega), blockSize_setSize_self (by omega)]
    · rw [blockFree_setFree_self (by decide)]
      simp
    · rw [blockSize_setFree (by simp only; omega), blockSize_setSize_other (by simp only; omega),
        blockSize_newBlock (by omega)]
    · rw [blockFree_setFree_other (by simp only; omega), blockFree_setSize (by simp only; omega),
        blockFree_newBlock]
      simp
    · simp only [Chain]
      omega
    · intro x hx
      rw [setFree_other (by omega), setSize_other (by omega), newBlock_other (by omega)]
  · have htake : takeBlock m cur need = setFree m cur 0 := by
      simp only [takeBlock, hsize, hwrap, ge_iff_le, hsplit, if_false]
    rw [htake, carve, if_neg hsplit]
    refine ⟨⟨?_, ?_, rfl⟩, ?_⟩
    · rw [blockSize_setFree (by omega), hsize]
    · rw [blockFree_setFree_self (by decide)]
      simp
    · intro x hx
      exact setFree_other (by omega)

/-- Taking the block found replaces it in the chain and touches no other
block. -/
theorem takeBlock_spec {m : Mem} {a e need : Nat} {pre post : List Block} {b : Block}
    (h : Chain m a (pre ++ b :: post) e) (hw : WellSized (pre ++ b :: post)) (he : e < 2 ^ 32)
    (hb : b.Fits need) (hneed : 32 ≤ need) :
    Chain (takeBlock m (a + span pre) need) a (pre ++ (carve need b ++ post)) e ∧
      UsedKept m (takeBlock m (a + span pre) need) a (pre ++ b :: post) := by
  have hend := h.end_eq
  rw [span_append, span_cons] at hend
  obtain ⟨hpre, hrest⟩ := chain_append.mp h
  obtain ⟨hwpre, hwrest⟩ := WellSized.append.mp hw
  obtain ⟨hmid, hkeep⟩ := takeBlock_chain hb hneed (by omega) hrest.1
  constructor
  · rw [chain_append, chain_append, span_carve]
    refine ⟨hpre.congr hwpre fun x _ hx => hkeep x (Or.inl hx), hmid, ?_⟩
    exact hrest.2.2.congr (WellSized.cons.mp hwrest).2 fun x hx _ => hkeep x (Or.inr hx)
  · refine usedKept_of_free (x := a + span pre) (b := b) ?_ hb.1 hkeep
    rw [placed_append]
    exact List.mem_append_right _ List.mem_cons_self

/-! ## Growing the heap -/

/-- The walk of `kheap_expand` ends at the last block. -/
theorem lastBlock_spec {m : Mem} {e : Nat} (he : e < 2 ^ 32) {bs : List Block} :
    ∀ (last : Option Nat) {a fuel : Nat}, Chain m a bs e → WellSized bs → bs.length < fuel →
      lastBlock m e fuel a last
        = some (if bs = [] then last else some (a + span bs.dropLast)) := by
  induction bs with
  | nil =>
      intro last a fuel h _ hfuel
      have hae : a = e := h
      cases fuel with
      | zero => cases hfuel
      | succ fuel => simp [lastBlock, hae]
  | cons b bs ih =>
      intro last a fuel h hw hfuel
      cases fuel with
      | zero => cases hfuel
      | succ fuel =>
          have hlen : bs.length < fuel := by
            simp only [List.length_cons] at hfuel
            omega
          rw [lastBlock, if_pos (h.lt_end hw), nextBlock_eq h he,
            ih _ h.2.2 (WellSized.cons.mp hw).2 hlen, if_neg (List.cons_ne_nil b bs)]
          cases bs with
          | nil => simp
          | cons c bs => simp [Nat.add_assoc]

/-- Adding a free block behind a chain: a free last block takes the new space
in, a used one is followed by a block of its own. -/
theorem grow_append_singleton (extra : Nat) (b : Block) : ∀ bs : List Block,
    grow extra (bs ++ [b]) =
      if b.free then bs ++ [⟨b.size + extra, true⟩] else bs ++ [b, ⟨extra, true⟩]
  | [] => by simp only [List.nil_append, grow]
  | [c] => by
      simp only [List.cons_append, List.nil_append, grow]
      cases b.free <;> rfl
  | c :: d :: bs => by
      have ih := grow_append_singleton extra b (d :: bs)
      simp only [List.cons_append] at ih ⊢
      rw [grow, ih]
      cases b.free <;> rfl

/-- The header bytes that `kheap_expand` writes, on a chain that ends in `b`. -/
theorem grow_chain {m : Mem} {a e extra : Nat} {bs : List Block} {b : Block}
    (h : Chain m a (bs ++ [b]) e) (hw : WellSized (bs ++ [b])) (he : e + extra < 2 ^ 32)
    (hextra : 16 ≤ extra) {m' : Mem}
    (hm : m' = if b.free then
        setSize (newBlock m e extra) (a + span bs) (b.size + extra)
      else newBlock m e extra) :
    Chain m' a (grow extra (bs ++ [b])) (e + extra) ∧ UsedKept m m' a (bs ++ [b]) := by
  have hend := h.end_eq
  simp only [span_append, span_cons, span_nil] at hend
  obtain ⟨hbs, hb⟩ := chain_append.mp h
  obtain ⟨hwbs, hwb⟩ := WellSized.append.mp hw
  have hbsize := (WellSized.cons.mp hwb).1
  have hmem : (a + span bs, b) ∈ placed a (bs ++ [b]) := by
    rw [placed_append]
    exact List.mem_append_right _ List.mem_cons_self
  obtain ⟨hhead1, hhead2⟩ := header_newBlock_other (m := m) (a := e) (b := a + span bs)
    (v := extra) (by omega)
  rw [grow_append_singleton]
  by_cases hfree : b.free = true
  · rw [if_pos hfree] at hm ⊢
    subst hm
    constructor
    · rw [chain_append]
      refine ⟨hbs.congr hwbs fun x _ hx => ?_, ?_, ?_, ?_⟩
      · rw [setSize_other (by omega), newBlock_other (by omega)]
      · rw [blockSize_setSize_self (by omega)]
      · rw [blockFree_setSize (by omega), hhead2, hb.2.1]
        simp [hfree]
      · simp only [Chain]
        omega
    · refine fun y s hy x hx1 hx2 => ?_
      have hused := mem_usedBlocks.mp hy
      have hbounds := (mem_placed_bounds hused).2.2
      simp only [span_append, span_cons, span_nil] at hbounds
      rw [setSize_other ?_, newBlock_other (by omega)]
      rcases placed_disjoint hmem hused with ⟨-, heq⟩ | hlt | hlt
      · rw [heq] at hfree
        cases hfree
      · omega
      · simp only at hlt
        omega
  · rw [if_neg hfree] at hm ⊢
    subst hm
    constructor
    · rw [chain_append]
      refine ⟨hbs.congr hwbs fun x _ hx => newBlock_other (by omega), ?_, ?_, ?_, ?_, ?_⟩
      · rw [hhead1, hb.1]
      · rw [hhead2, hb.2.1]
      · have heq : a + span bs + b.size = e := by omega
        rw [heq, blockSize_newBlock (by omega)]
      · have heq : a + span bs + b.size = e := by omega
        rw [heq, blockFree_newBlock]
        simp
      · simp only [Chain]
        omega
    · refine fun y s hy x hx1 hx2 => newBlock_other ?_
      have hbounds := (mem_placed_bounds (mem_usedBlocks.mp hy)).2.2
      simp only [span_append, span_cons, span_nil] at hbounds
      omega

/-! ## Merging free blocks -/

/-- The size a free block has after it took in the free blocks of `bs` that
follow it, and the blocks left after them. -/
def freeRun : Nat → List Block → Nat × List Block
  | size, [] => (size, [])
  | size, b :: bs => if b.free then freeRun (size + b.size) bs else (size, b :: bs)

theorem freeRun_add (extra : Nat) : ∀ (bs : List Block) (size : Nat),
    freeRun (extra + size) bs = (extra + (freeRun size bs).1, (freeRun size bs).2)
  | [], _ => rfl
  | b :: bs, size => by
      unfold freeRun
      split
      · rw [Nat.add_assoc, freeRun_add extra bs]
      · rfl

theorem freeRun_length : ∀ (bs : List Block) (size : Nat),
    (freeRun size bs).2.length ≤ bs.length
  | [], _ => Nat.le_refl _
  | b :: bs, size => by
      unfold freeRun
      split
      · exact Nat.le_succ_of_le (freeRun_length bs _)
      · exact Nat.le_refl _

theorem freeRun_span : ∀ (bs : List Block) (size : Nat),
    (freeRun size bs).1 + span (freeRun size bs).2 = size + span bs
  | [], _ => rfl
  | b :: bs, size => by
      unfold freeRun
      split
      · rw [freeRun_span bs, span_cons, Nat.add_assoc]
      · rfl

/-- The blocks after a run, and where they lie, are those of the chain. -/
theorem usedBlocks_freeRun : ∀ (bs : List Block) (size a : Nat),
    usedBlocks (a + (freeRun size bs).1) (freeRun size bs).2 = usedBlocks (a + size) bs
  | [], _, _ => rfl
  | b :: bs, size, a => by
      unfold freeRun
      split
      next hfree =>
        rw [usedBlocks_freeRun bs, usedBlocks_cons, if_pos hfree, Nat.add_assoc]
      next hfree => rfl

theorem WellSized.freeRun {bs : List Block} (h : WellSized bs) :
    ∀ size, WellSized (freeRun size bs).2 := by
  induction bs with
  | nil => exact fun _ => h
  | cons b bs ih =>
      intro size
      unfold TunaOs.freeRun
      split
      · exact ih (WellSized.cons.mp h).2 _
      · exact h

/-- Coalescing behind a free block is taking in its run first. -/
theorem mergeFront_coalesce : ∀ (bs : List Block) (size : Nat),
    mergeFront size (coalesce bs)
      = ⟨(freeRun size bs).1, true⟩ :: coalesce (freeRun size bs).2
  | [], _ => rfl
  | b :: bs, size => by
      by_cases hfree : b.free = true
      · have ih := mergeFront_coalesce bs b.size
        rw [coalesce, if_pos hfree, ih, mergeFront, if_pos rfl, freeRun, if_pos hfree,
          freeRun_add]
      · rw [coalesce, if_neg hfree, mergeFront, if_neg hfree, freeRun, if_neg hfree, coalesce,
          if_neg hfree]

/-- The inner loop of `kfree` takes in the run of free blocks and writes only
the size of the block it started at. -/
theorem absorb_spec {e : Nat} (he : e < 2 ^ 32) {bs : List Block} :
    ∀ {m : Mem} {cur size fuel : Nat},
      Chain m cur (⟨size, true⟩ :: bs) e → WellSized bs → 32 ≤ size → bs.length < fuel →
      ∃ m', absorb e fuel m cur = some m' ∧
        Chain m' cur (⟨(freeRun size bs).1, true⟩ :: (freeRun size bs).2) e ∧
        ∀ x, x < cur ∨ cur + 8 ≤ x → m' x = m x := by
  induction bs with
  | nil =>
      intro m cur size fuel h _ hsize hfuel
      have hnext : nextBlock m cur = cur + size := nextBlock_eq h he
      have hend : cur + size = e := h.2.2
      cases fuel with
      | zero => cases hfuel
      | succ fuel =>
          refine ⟨m, ?_, h, fun _ _ => rfl⟩
          simp only [absorb, hnext, hend, Nat.lt_irrefl, false_and, if_false]
  | cons b bs ih =>
      intro m cur size fuel h hw hsize hfuel
      have hnext : nextBlock m cur = cur + size := nextBlock_eq h he
      obtain ⟨hbsize, hwbs⟩ := WellSized.cons.mp hw
      have hend := h.end_eq
      simp only [span_cons] at hend
      have hlt : cur + size < e := by omega
      cases fuel with
      | zero => cases hfuel
      | succ fuel =>
          by_cases hfree : b.free = true
          · have hsum : wrap64 (blockSize m cur + blockSize m (cur + size)) = size + b.size := by
              rw [h.1, h.2.2.1, wrap64_of_lt (by simp only; omega)]
            have hstep : absorb e (fuel + 1) m cur
                = absorb e fuel (setSize m cur (size + b.size)) cur := by
              rw [absorb]
              simp only [hnext, hlt, h.2.2.2.1.mpr hfree, ne_eq, not_false_eq_true, and_self,
                if_true, hsum]
            have hmerged : Chain (setSize m cur (size + b.size)) cur
                (⟨size + b.size, true⟩ :: bs) e := by
              refine ⟨blockSize_setSize_self (by omega), ?_, ?_⟩
              · rw [blockFree_setSize (by omega)]
                exact h.2.1
              · have hrest := h.2.2.2.2
                simp only [Nat.add_assoc] at hrest ⊢
                exact hrest.congr hwbs fun x hx _ => setSize_other (by omega)
            have hlen : bs.length < fuel := by
              simp only [List.length_cons] at hfuel
              omega
            obtain ⟨m', habs, hchain, hkeep⟩ := ih hmerged hwbs (by omega) hlen
            refine ⟨m', hstep.trans habs, ?_, fun x hx => ?_⟩
            · rw [freeRun, if_pos hfree]
              exact hchain
            · rw [hkeep x hx, setSize_other hx]
          · have hstop : absorb e (fuel + 1) m cur = some m := by
              have hused : ¬ blockFree m (cur + size) ≠ 0 := fun hc => hfree (h.2.2.2.1.mp hc)
              rw [absorb]
              simp only [hnext, hused, and_false, if_false]
            refine ⟨m, hstop, ?_, fun _ _ => rfl⟩
            rw [freeRun, if_neg hfree]
            exact h

/-- A run is at least as long as the block it starts with. -/
theorem le_freeRun (bs : List Block) (size : Nat) : size ≤ (freeRun size bs).1 := by
  have h := freeRun_add size bs 0
  rw [Nat.add_zero] at h
  rw [h]
  exact Nat.le_add_right _ _

/-- A header below the bytes that change is unchanged. -/
theorem header_congr {m m' : Mem} {a e : Nat} (h : ∀ x, x < e → m' x = m x) (he : a + 16 ≤ e) :
    blockSize m' a = blockSize m a ∧ blockFree m' a = blockFree m a :=
  ⟨Mem.load_congr fun x _ hx => h x (by omega), Mem.load_congr fun x _ hx => h x (by omega)⟩

/-- The walk of `kfree` coalesces the chain, and writes only sizes of free
blocks. -/
theorem coalesceWalk_spec {e n : Nat} (he : e < 2 ^ 32) :
    ∀ (fuel : Nat) {bs : List Block} {m : Mem} {a : Nat},
      Chain m a bs e → WellSized bs → bs.length < fuel → bs.length < n →
      ∃ m', coalesceWalk e n fuel m a = some m' ∧ Chain m' a (coalesce bs) e ∧
        (∀ x, x < a → m' x = m x) ∧ UsedKept m m' a bs := by
  intro fuel
  induction fuel with
  | zero => exact fun _ _ hfuel _ => absurd hfuel (Nat.not_lt_zero _)
  | succ fuel ih =>
      intro bs m a h hw hfuel hn
      cases bs with
      | nil =>
          have hae : a = e := h
          refine ⟨m, ?_, h, fun _ _ => rfl, fun _ _ hy => by cases hy⟩
          simp [coalesceWalk, hae]
      | cons b bs =>
          have hlt := h.lt_end hw
          obtain ⟨hbsize, hwbs⟩ := WellSized.cons.mp hw
          have hlen : bs.length < fuel ∧ bs.length < n := by
            simp only [List.length_cons] at hfuel hn
            omega
          by_cases hfree : b.free = true
          · have hb : b = ⟨b.size, true⟩ := by
              rw [← hfree]
            rw [hb] at h
            obtain ⟨m₁, habs, hchain, hkeep⟩ :=
              absorb_spec he h hwbs hbsize.1 hlen.2
            have hnext := nextBlock_eq hchain he
            simp only at hnext
            have hrun := freeRun_length bs b.size
            have hspan := freeRun_span bs b.size
            obtain ⟨m₂, hwalk, hchain₂, hbelow, hused⟩ :=
              ih hchain.2.2 (hwbs.freeRun b.size) (by omega) (by omega)
            have hle := le_freeRun bs b.size
            obtain ⟨hhead1, hhead2⟩ := header_congr hbelow (a := a) (by simp only; omega)
            refine ⟨m₂, ?_, ?_, fun x hx => ?_, fun y s hy x hx1 hx2 => ?_⟩
            · rw [coalesceWalk, if_pos hlt, if_pos (h.2.1.mpr rfl), habs]
              simp only [hnext]
              exact hwalk
            · rw [coalesce, if_pos hfree, mergeFront_coalesce]
              exact ⟨hhead1.trans hchain.1, by rw [hhead2]; exact hchain.2.1, hchain₂⟩
            · rw [hbelow x (by simp only; omega), hkeep x (Or.inl hx)]
            · rw [usedBlocks_cons, if_pos hfree, ← usedBlocks_freeRun bs b.size a] at hy
              rw [hused y s hy x hx1 hx2, hkeep x]
              have := (mem_placed_bounds (mem_usedBlocks.mp hy)).2.1
              omega
          · have hused : ¬ blockFree m a ≠ 0 := fun hc => hfree (h.2.1.mp hc)
            obtain ⟨m₂, hwalk, hchain₂, hbelow, hkept⟩ := ih h.2.2 hwbs hlen.1 hlen.2
            refine ⟨m₂, ?_, ?_, fun x hx => hbelow x (by omega), fun y s hy x hx1 hx2 => ?_⟩
            · rw [coalesceWalk, if_pos hlt, if_neg hused]
              simp only [nextBlock_eq h he]
              exact hwalk
            · obtain ⟨hhead1, hhead2⟩ := header_congr hbelow (a := a) (by omega)
              rw [coalesce, if_neg hfree]
              exact ⟨hhead1.trans h.1, by rw [hhead2]; exact h.2.1, hchain₂⟩
            · rw [usedBlocks_cons, if_neg hfree, List.mem_cons] at hy
              rcases hy with heq | hy
              · obtain ⟨rfl, rfl⟩ := Prod.mk.inj heq
                exact hbelow x (by omega)
              · exact hkept y s hy x hx1 hx2

end TunaOs
