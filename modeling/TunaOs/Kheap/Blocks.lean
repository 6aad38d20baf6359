import TunaOs.Kheap.Model
import TunaOs.Lib.Tiling

/-!
# The block chain

The abstract heap is a list of blocks laid end to end.  `Chain m a bs e` says
that the headers in `m` from `a` on describe the blocks `bs` and that the last
one ends at `e`.  The four things the code does to the chain have a list
version here: `carve` (take a block, splitting it), `grow` (add space at the
end), `release` (mark a block as free) and `coalesce` (merge neighbouring free
blocks).
-/

namespace TunaOs

open Word
open Tiling (total place)

/-- A block: its size with the header, and whether it is free. -/
structure Block where
  /-- Size in bytes, header included. -/
  size : Nat
  /-- Free or in use. -/
  free : Bool
deriving DecidableEq, Repr

/-- The blocks of a list with their addresses. -/
def placed (a : Nat) (bs : List Block) : List (Nat × Block) := place Block.size a bs

/-- The number of bytes a list of blocks covers. -/
def span (bs : List Block) : Nat := total Block.size bs

@[simp] theorem span_nil : span [] = 0 := rfl

@[simp] theorem span_cons (b : Block) (bs : List Block) : span (b :: bs) = b.size + span bs :=
  Tiling.total_cons ..

@[simp] theorem span_append (bs cs : List Block) : span (bs ++ cs) = span bs + span cs :=
  Tiling.total_append ..

@[simp] theorem placed_nil (a : Nat) : placed a [] = [] := rfl

@[simp] theorem placed_cons (a : Nat) (b : Block) (bs : List Block) :
    placed a (b :: bs) = (a, b) :: placed (a + b.size) bs := rfl

theorem placed_append (a : Nat) (bs cs : List Block) :
    placed a (bs ++ cs) = placed a bs ++ placed (a + span bs) cs :=
  Tiling.place_append ..

theorem mem_placed_bounds {a x : Nat} {b : Block} {bs : List Block} (h : (x, b) ∈ placed a bs) :
    b ∈ bs ∧ a ≤ x ∧ x + b.size ≤ a + span bs := Tiling.mem_place_bounds h

theorem placed_split {a x : Nat} {b : Block} {bs : List Block} (h : (x, b) ∈ placed a bs) :
    ∃ pre post, bs = pre ++ b :: post ∧ x = a + span pre := Tiling.place_split h

theorem placed_disjoint {a x y : Nat} {b c : Block} {bs : List Block}
    (hx : (x, b) ∈ placed a bs) (hy : (y, c) ∈ placed a bs) :
    (x = y ∧ b = c) ∨ x + b.size ≤ y ∨ y + c.size ≤ x := Tiling.place_disjoint hx hy

/-- Every block is large enough for a header and 16 bytes, and of a size that
keeps blocks aligned. -/
def WellSized (bs : List Block) : Prop := ∀ b ∈ bs, 32 ≤ b.size ∧ b.size % 8 = 0

theorem WellSized.append {bs cs : List Block} :
    WellSized (bs ++ cs) ↔ WellSized bs ∧ WellSized cs := by
  simp only [WellSized, List.mem_append]
  constructor
  · exact fun h => ⟨fun b hb => h b (Or.inl hb), fun b hb => h b (Or.inr hb)⟩
  · rintro ⟨h1, h2⟩ b (hb | hb)
    · exact h1 b hb
    · exact h2 b hb

theorem WellSized.cons {b : Block} {bs : List Block} :
    WellSized (b :: bs) ↔ (32 ≤ b.size ∧ b.size % 8 = 0) ∧ WellSized bs := by
  simp only [WellSized, List.mem_cons, forall_eq_or_imp]

/-- A well-sized list has fewer blocks than bytes. -/
theorem WellSized.length_le {bs : List Block} (h : WellSized bs) : bs.length ≤ span bs := by
  induction bs with
  | nil => simp
  | cons b bs ih =>
      obtain ⟨hb, hbs⟩ := WellSized.cons.mp h
      have := ih hbs
      simp only [List.length_cons, span_cons]
      omega

theorem WellSized.span_mod {bs : List Block} (h : WellSized bs) : span bs % 8 = 0 := by
  induction bs with
  | nil => rfl
  | cons b bs ih =>
      obtain ⟨hb, hbs⟩ := WellSized.cons.mp h
      have := ih hbs
      simp only [span_cons]
      omega

/-! ## Chains in memory -/

/-- The headers of `m` from `a` on describe the blocks `bs`, which end at `e`. -/
def Chain (m : Mem) : Nat → List Block → Nat → Prop
  | a, [], e => a = e
  | a, b :: bs, e =>
      blockSize m a = b.size ∧ (blockFree m a ≠ 0 ↔ b.free = true) ∧ Chain m (a + b.size) bs e

theorem Chain.end_eq {m : Mem} : ∀ {bs : List Block} {a e : Nat}, Chain m a bs e →
    e = a + span bs
  | [], _, _, h => by rw [← show _ = _ from h]; simp
  | b :: bs, a, e, h => by
      rw [Chain.end_eq h.2.2, span_cons, Nat.add_assoc]

theorem chain_append {m : Mem} : ∀ {bs cs : List Block} {a e : Nat},
    Chain m a (bs ++ cs) e ↔ Chain m a bs (a + span bs) ∧ Chain m (a + span bs) cs e
  | [], cs, a, e => by simp [Chain]
  | b :: bs, cs, a, e => by
      simp only [List.cons_append, Chain, span_cons, ← Nat.add_assoc,
        @chain_append m bs, and_assoc]

/-- A chain depends only on the bytes of the range it covers. -/
theorem Chain.congr {m m' : Mem} : ∀ {bs : List Block} {a e : Nat}, WellSized bs →
    Chain m a bs e → (∀ x, a ≤ x → x < e → m' x = m x) → Chain m' a bs e
  | [], _, _, _, h, _ => h
  | b :: bs, a, e, hw, h, hm => by
      obtain ⟨hb, hbs⟩ := WellSized.cons.mp hw
      have he := h.end_eq
      rw [span_cons] at he
      obtain ⟨hsize, hfree, hrest⟩ := h
      have h1 : blockSize m' a = blockSize m a :=
        Mem.load_congr fun x h1 h2 => hm x h1 (by omega)
      have h2 : blockFree m' a = blockFree m a :=
        Mem.load_congr fun x h1 h2 => hm x (by omega) (by omega)
      exact ⟨h1.trans hsize, by rw [h2]; exact hfree,
        hrest.congr hbs fun x h1 h2 => hm x (by omega) h2⟩

/-- The header of a placed block. -/
theorem Chain.header {m : Mem} {bs : List Block} {a e x : Nat} {b : Block}
    (h : Chain m a bs e) (hx : (x, b) ∈ placed a bs) :
    blockSize m x = b.size ∧ (blockFree m x ≠ 0 ↔ b.free = true) := by
  obtain ⟨pre, post, rfl, rfl⟩ := placed_split hx
  have := (chain_append.mp h).2
  exact ⟨this.1, this.2.1⟩

/-! ## Headers written and read back -/

theorem blockSize_setSize_self {m : Mem} {a v : Nat} (hv : v < 2 ^ 64) :
    blockSize (setSize m a v) a = v := by
  rw [blockSize, setSize, Mem.load_store_self, Nat.mod_eq_of_lt (by simpa using hv)]

theorem blockSize_setSize_other {m : Mem} {a b v : Nat} (h : b + 8 ≤ a ∨ a + 8 ≤ b) :
    blockSize (setSize m a v) b = blockSize m b := Mem.load_store_other h

theorem blockFree_setSize {m : Mem} {a b v : Nat} (h : b + 12 ≤ a ∨ a ≤ b) :
    blockFree (setSize m a v) b = blockFree m b := Mem.load_store_other (by omega)

theorem blockFree_setFree_self {m : Mem} {a v : Nat} (hv : v < 2 ^ 32) :
    blockFree (setFree m a v) a = v := by
  rw [blockFree, setFree, Mem.load_store_self, Nat.mod_eq_of_lt (by simpa using hv)]

theorem blockFree_setFree_other {m : Mem} {a b v : Nat} (h : b + 4 ≤ a ∨ a + 4 ≤ b) :
    blockFree (setFree m a v) b = blockFree m b := Mem.load_store_other (by omega)

theorem blockSize_setFree {m : Mem} {a b v : Nat} (h : b ≤ a ∨ a + 12 ≤ b) :
    blockSize (setFree m a v) b = blockSize m b := Mem.load_store_other (by omega)

theorem setSize_other {m : Mem} {a v x : Nat} (h : x < a ∨ a + 8 ≤ x) : setSize m a v x = m x :=
  Mem.store_other h

theorem setFree_other {m : Mem} {a v x : Nat} (h : x < a + 8 ∨ a + 12 ≤ x) :
    setFree m a v x = m x := Mem.store_other (by omega)

/-- A new block changes the 16 bytes of its header. -/
theorem newBlock_other {m : Mem} {a v x : Nat} (h : x < a ∨ a + 16 ≤ x) :
    newBlock m a v x = m x := by
  rw [newBlock, setPad, Mem.store_other (by omega), setFree_other (by omega),
    setSize_other (by omega)]

theorem blockSize_newBlock {m : Mem} {a v : Nat} (hv : v < 2 ^ 64) :
    blockSize (newBlock m a v) a = v := by
  rw [newBlock, setPad, blockSize, Mem.load_store_other (by omega)]
  change blockSize _ a = v
  rw [blockSize_setFree (by omega), blockSize_setSize_self hv]

theorem blockFree_newBlock {m : Mem} {a v : Nat} : blockFree (newBlock m a v) a = 1 := by
  rw [newBlock, setPad, blockFree, Mem.load_store_other (by omega)]
  exact blockFree_setFree_self (by decide)

/-- A header other than the new block's is unchanged. -/
theorem header_newBlock_other {m : Mem} {a b v : Nat} (h : b + 16 ≤ a ∨ a + 16 ≤ b) :
    blockSize (newBlock m a v) b = blockSize m b ∧
      blockFree (newBlock m a v) b = blockFree m b :=
  ⟨Mem.load_congr fun x h1 h2 => newBlock_other (by omega),
    Mem.load_congr fun x h1 h2 => newBlock_other (by omega)⟩

/-! ## The list operations -/

/-- A free block of at least `need` bytes. -/
def Block.Fits (need : Nat) (b : Block) : Prop := b.free = true ∧ need ≤ b.size

instance (need : Nat) (b : Block) : Decidable (b.Fits need) := inferInstanceAs (Decidable (_ ∧ _))

/-- The blocks that replace a block taken for `need` bytes. -/
def carve (need : Nat) (b : Block) : List Block :=
  if need + 32 ≤ b.size then [⟨need, false⟩, ⟨b.size - need, true⟩] else [⟨b.size, false⟩]

/-- The chain with `extra` free bytes more at its end. -/
def grow (extra : Nat) : List Block → List Block
  | [] => [⟨extra, true⟩]
  | [b] => if b.free then [⟨b.size + extra, true⟩] else [b, ⟨extra, true⟩]
  | b :: c :: bs => b :: grow extra (c :: bs)

/-- The offset of the first block of a chain that fits, and the chain once that is
taken. -/
def fitFirst (need : Nat) : List Block → Option (Nat × List Block)
  | [] => none
  | b :: bs =>
      if b.Fits need then some (0, carve need b ++ bs)
      else (fitFirst need bs).map fun r => (b.size + r.1, b :: r.2)

/-- The same for a chain that grows if no block fits. -/
def fitGrown (need : Nat) (bs : List Block) : Option (Nat × List Block) :=
  (fitFirst need bs).or (fitFirst need (grow (expandSize need) bs))

theorem fitFirst_append {need : Nat} {b : Block} {post : List Block} (hb : b.Fits need) :
    ∀ {pre : List Block}, (∀ c ∈ pre, ¬ c.Fits need) →
      fitFirst need (pre ++ b :: post) = some (span pre, pre ++ (carve need b ++ post))
  | [], _ => if_pos hb
  | c :: pre, hpre => by
      rw [List.cons_append, fitFirst, if_neg (hpre c List.mem_cons_self),
        fitFirst_append hb fun d hd => hpre d (List.mem_cons_of_mem _ hd), span_cons]
      rfl

theorem fitFirst_none {need : Nat} : ∀ {bs : List Block}, (∀ b ∈ bs, ¬ b.Fits need) →
    fitFirst need bs = none
  | [], _ => rfl
  | b :: bs, h => by
      rw [fitFirst, if_neg (h b List.mem_cons_self),
        fitFirst_none fun c hc => h c (List.mem_cons_of_mem _ hc)]
      rfl

/-- A free block in front of a coalesced chain. -/
def mergeFront (size : Nat) : List Block → List Block
  | [] => [⟨size, true⟩]
  | b :: bs => if b.free then ⟨size + b.size, true⟩ :: bs else ⟨size, true⟩ :: b :: bs

/-- Neighbouring free blocks merged. -/
def coalesce : List Block → List Block
  | [] => []
  | b :: bs => if b.free then mergeFront b.size (coalesce bs) else b :: coalesce bs

theorem span_carve {need : Nat} {b : Block} : span (carve need b) = b.size := by
  unfold carve
  split
  · simp only [span_cons, span_nil]
    omega
  · simp

theorem WellSized.carve {need : Nat} {b : Block} (h1 : 32 ≤ need) (h2 : need % 8 = 0)
    (hb : 32 ≤ b.size ∧ b.size % 8 = 0) : WellSized (carve need b) := by
  unfold TunaOs.carve
  split
  · intro c hc
    simp only [List.mem_cons, List.not_mem_nil, or_false] at hc
    rcases hc with rfl | rfl
    · exact ⟨h1, h2⟩
    · exact ⟨by simp only; omega, by simp only; omega⟩
  · intro c hc
    simp only [List.mem_cons, List.not_mem_nil, or_false] at hc
    subst hc
    exact hb

theorem WellSized.grow {extra : Nat} (h1 : 32 ≤ extra) (h2 : extra % 8 = 0) :
    ∀ {bs : List Block}, WellSized bs → WellSized (grow extra bs)
  | [], _ => by
      intro b hb
      rw [TunaOs.grow, List.mem_singleton] at hb
      subst hb
      exact ⟨h1, h2⟩
  | [b], h => by
      have hb := h b (List.mem_singleton_self b)
      unfold TunaOs.grow
      split
      · intro c hc
        rw [List.mem_singleton] at hc
        subst hc
        exact ⟨by simp only; omega, by simp only; omega⟩
      · intro c hc
        simp only [List.mem_cons, List.not_mem_nil, or_false] at hc
        rcases hc with rfl | rfl
        · exact hb
        · exact ⟨h1, h2⟩
  | b :: c :: bs, h => by
      obtain ⟨hb, hbs⟩ := WellSized.cons.mp h
      exact WellSized.cons.mpr ⟨hb, WellSized.grow h1 h2 hbs⟩

theorem WellSized.mergeFront {size : Nat} (h1 : 32 ≤ size ∧ size % 8 = 0) {bs : List Block}
    (h : WellSized bs) : WellSized (mergeFront size bs) := by
  cases bs with
  | nil =>
      intro b hb
      rw [TunaOs.mergeFront, List.mem_singleton] at hb
      subst hb
      exact h1
  | cons b bs =>
      obtain ⟨hb, hbs⟩ := WellSized.cons.mp h
      by_cases hfree : b.free = true
      · rw [TunaOs.mergeFront, if_pos hfree]
        exact WellSized.cons.mpr ⟨⟨by simp only; omega, by simp only; omega⟩, hbs⟩
      · rw [TunaOs.mergeFront, if_neg hfree]
        exact WellSized.cons.mpr ⟨h1, h⟩

theorem WellSized.coalesce : ∀ {bs : List Block}, WellSized bs → WellSized (coalesce bs)
  | [], h => h
  | b :: bs, h => by
      obtain ⟨hb, hbs⟩ := WellSized.cons.mp h
      unfold TunaOs.coalesce
      split
      · exact hbs.coalesce.mergeFront hb
      · exact WellSized.cons.mpr ⟨hb, hbs.coalesce⟩

/-! ## Used blocks

The addresses and sizes of the used blocks.  Growing and coalescing leave them
alone, taking a block adds one, and releasing a block removes one. -/

/-- The used blocks of a chain, with their addresses. -/
def usedBlocks (a : Nat) (bs : List Block) : List (Nat × Nat) :=
  (placed a bs).filterMap fun p => if p.2.free then none else some (p.1, p.2.size)

theorem mem_usedBlocks {a x s : Nat} {bs : List Block} :
    (x, s) ∈ usedBlocks a bs ↔ (x, ⟨s, false⟩) ∈ placed a bs := by
  simp only [usedBlocks, List.mem_filterMap]
  constructor
  · rintro ⟨⟨y, b⟩, hmem, heq⟩
    cases hfree : b.free with
    | true => simp [hfree] at heq
    | false =>
        simp only [hfree, Bool.false_eq_true, if_false, Option.some.injEq, Prod.mk.injEq] at heq
        obtain ⟨rfl, rfl⟩ := heq
        rw [← hfree]
        exact hmem
  · intro h
    exact ⟨_, h, by simp⟩

@[simp] theorem usedBlocks_nil (a : Nat) : usedBlocks a [] = [] := rfl

theorem usedBlocks_cons (a : Nat) (b : Block) (bs : List Block) :
    usedBlocks a (b :: bs) =
      if b.free then usedBlocks (a + b.size) bs else (a, b.size) :: usedBlocks (a + b.size) bs := by
  cases hb : b.free <;> simp [usedBlocks, hb]

theorem usedBlocks_append (a : Nat) (bs cs : List Block) :
    usedBlocks a (bs ++ cs) = usedBlocks a bs ++ usedBlocks (a + span bs) cs := by
  rw [usedBlocks, placed_append, List.filterMap_append]
  rfl

theorem usedBlocks_grow (extra : Nat) : ∀ (bs : List Block) (a : Nat),
    usedBlocks a (grow extra bs) = usedBlocks a bs
  | [], a => by simp [grow, usedBlocks_cons]
  | [b], a => by
      cases hb : b.free <;> simp [grow, usedBlocks_cons, hb]
  | b :: c :: bs, a => by
      rw [grow, usedBlocks_cons, usedBlocks_grow extra (c :: bs), ← usedBlocks_cons]

theorem usedBlocks_mergeFront (size a : Nat) (bs : List Block) :
    usedBlocks a (mergeFront size bs) = usedBlocks (a + size) bs := by
  cases bs with
  | nil => simp [mergeFront, usedBlocks_cons]
  | cons b bs =>
      cases hb : b.free <;> simp [mergeFront, usedBlocks_cons, hb, Nat.add_assoc]

theorem usedBlocks_coalesce : ∀ (bs : List Block) (a : Nat),
    usedBlocks a (coalesce bs) = usedBlocks a bs
  | [], _ => rfl
  | b :: bs, a => by
      cases hb : b.free with
      | true =>
          simp only [coalesce, hb, if_true, usedBlocks_mergeFront, usedBlocks_cons,
            usedBlocks_coalesce bs]
      | false =>
          simp only [coalesce, hb, Bool.false_eq_true, if_false, usedBlocks_cons,
            usedBlocks_coalesce bs]

/-- The size a taken block gets. -/
def carvedSize (need : Nat) (b : Block) : Nat := if need + 32 ≤ b.size then need else b.size

theorem usedBlocks_carve (need a : Nat) (b : Block) :
    usedBlocks a (carve need b) = [(a, carvedSize need b)] := by
  unfold carve carvedSize
  split <;> simp [usedBlocks_cons]

end TunaOs
