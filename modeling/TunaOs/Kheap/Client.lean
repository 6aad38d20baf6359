import TunaOs.Kheap.Requests

/-!
# Clients of the heap

What one client of the kernel heap can rely on while the others use it.  The
allocations of the client are `own` and those of the others `live`.  No step of
the others touches a payload of `own` (`RequestStep.others`).  A byte is settled
if it lies outside the range of the heap or in a live payload: no allocation
changes it, and it is in no block that is allocated later.
-/

namespace TunaOs

/-! ## Settled bytes -/

/-- The byte at `x` is outside the range of the heap, or in a live payload. -/
def Settled (live : List (Nat × Nat)) (x : Nat) : Prop :=
  x < kheapStart ∨ kheapStart + kheapMaxSize ≤ x ∨ ∃ p s, (p, s) ∈ live ∧ p ≤ x ∧ x < p + s

/-- The settled bytes are the same in both memories. -/
def SettledKept (m m' : Mem) (live : List (Nat × Nat)) : Prop :=
  ∀ x, Settled live x → m' x = m x

theorem Settled.mono {live live' : List (Nat × Nat)} {x : Nat} (h : Settled live x)
    (hsub : ∀ e ∈ live, e ∈ live') : Settled live' x := by
  rcases h with h | h | ⟨p, s, hp, hx⟩
  · exact Or.inl h
  · exact Or.inr (Or.inl h)
  · exact Or.inr (Or.inr ⟨p, s, hsub _ hp, hx⟩)

theorem SettledKept.mono {m m' : Mem} {live live' : List (Nat × Nat)}
    (h : SettledKept m m' live') (hsub : ∀ e ∈ live, e ∈ live') : SettledKept m m' live :=
  fun x hx => h x (hx.mono hsub)

theorem SettledKept.trans {m m' m'' : Mem} {live : List (Nat × Nat)}
    (h : SettledKept m m' live) (h' : SettledKept m' m'' live) : SettledKept m m'' live :=
  fun x hx => (h' x hx).trans (h x hx)

theorem SettledKept.payload {m m' : Mem} {live : List (Nat × Nat)} (h : SettledKept m m' live) :
    PayloadKept m m' live :=
  fun p s hp x h1 h2 => h x (Or.inr (Or.inr ⟨p, s, hp, h1, h2⟩))

section

variable {σ : Type} {h h' : Heap σ} {live own : List (Nat × Nat)} {p s x size : Nat}

/-- Live payloads lie in the range of the heap. -/
theorem HeapInv.range (hi : HeapInv h live) (hp : (p, s) ∈ live) :
    kheapStart + 16 ≤ p ∧ p + s ≤ kheapStart + kheapMaxSize := by
  have hb := hi.bounds hp
  obtain ⟨bs, hr, -⟩ := hi
  have hstart := hr.start
  have hhigh := hr.high
  exact ⟨by omega, by omega⟩

/-- The first payload of the list has no byte that is settled by the others. -/
theorem HeapInv.settled_apart (hi : HeapInv h ((p, s) :: live)) (hx : Settled live x) :
    x < p ∨ p + s ≤ x := by
  have hrange := hi.range List.mem_cons_self
  rcases hx with hx | hx | ⟨q, t, hq, hx1, hx2⟩
  · omega
  · omega
  · have := hi.disjoint (List.mem_cons_of_mem _ hq) List.mem_cons_self (hi.head_ne hq)
    omega

theorem HeapInv.kmalloc_settled [HeapBacking σ] (hi : HeapInv h live) (hsize : size < 2 ^ 63)
    (hk : TunaOs.kmalloc h size = some (h', p)) : SettledKept h.mem h'.mem live := by
  have hi' := hi
  obtain ⟨bs, hr, -⟩ := hi'
  obtain ⟨⟨bs', hr'⟩, hwrites, -⟩ := kmalloc_bounds hr hsize hk
  have hhigh := hr'.high
  intro x hx
  rcases hx with hx | hx | ⟨q, t, hq, hx1, hx2⟩
  · by_contra hne
    have := hwrites x hne
    omega
  · by_contra hne
    have := hwrites x hne
    omega
  · rcases hi.kmalloc size hsize with hk' | ⟨g, r, hk', -, -, hkept⟩
    · obtain ⟨rfl, -⟩ := Prod.mk.inj (Option.some.inj (hk.symm.trans hk'))
      rfl
    · obtain ⟨rfl, -⟩ := Prod.mk.inj (Option.some.inj (hk.symm.trans hk'))
      exact hkept.payload q t hq x hx1 hx2

/-- A client writes to a block of its own. -/
theorem HeapInv.write_head (hi : HeapInv h ((p, s) :: live)) (m' : Mem)
    (hm : ∀ x, x < p ∨ p + s ≤ x → m' x = h.mem x) :
    HeapInv (h.withMem m') ((p, s) :: live) ∧ SettledKept h.mem m' live :=
  ⟨hi.write List.mem_cons_self hm, fun x hx => hm x (hi.settled_apart hx)⟩

/-- A client writes to two blocks of its own. -/
theorem HeapInv.write_pair {q t : Nat} (hi : HeapInv h ((p, s) :: (q, t) :: live)) (m' : Mem)
    (hm : ∀ x, x < p ∨ p + s ≤ x → x < q ∨ q + t ≤ x → m' x = h.mem x) :
    HeapInv (h.withMem m') ((p, s) :: (q, t) :: live) ∧ SettledKept h.mem m' live := by
  have hswap := hi.perm (List.Perm.swap _ _ _)
  constructor
  · -- first the writes to `p`, then those to `q`
    have hfirst : HeapInv
        (h.withMem fun x => if x < p ∨ p + s ≤ x then h.mem x else m' x)
        ((p, s) :: (q, t) :: live) := hi.write List.mem_cons_self fun x hx => if_pos hx
    refine hfirst.write (List.mem_cons_of_mem _ List.mem_cons_self) fun x hx => ?_
    rw [Heap.withMem_mem]
    split
    · exact hm x ‹_› hx
    · rfl
  · intro x hx
    refine hm x ?_ ?_
    · exact hi.settled_apart (hx.mono fun _ he => List.mem_cons_of_mem _ he)
    · exact hswap.settled_apart (hx.mono fun _ he => List.mem_cons_of_mem _ he)

/-- Writes outside the range of the heap. -/
theorem HeapInv.write_outside (hi : HeapInv h live) (m' : Mem)
    (hm : ∀ x, kheapStart ≤ x → x < kheapStart + kheapMaxSize → m' x = h.mem x) :
    HeapInv (h.withMem m') live ∧ PayloadKept h.mem m' live := by
  have hkept : PayloadKept h.mem m' live := fun p s hp x h1 h2 => by
    have := hi.range hp
    exact hm x (by omega) (by omega)
  obtain ⟨bs, hr, hl⟩ := hi
  have hchain : Chain m' h.heapStart bs h.heapEnd := by
    refine hr.chain.congr hr.sized fun x h1 h2 => hm x ?_ ?_
    · exact hr.start ▸ h1
    · exact Nat.lt_of_lt_of_le h2 hr.high
  exact ⟨⟨bs, ⟨hr.start, hchain, hr.sized, hr.low, hr.high⟩, hl⟩, hkept⟩

/-! ## Steps of the other clients -/

theorem HeapStep.others [HeapBacking σ] {live' : List (Nat × Nat)} (hi : HeapInv h (own ++ live))
    (hst : HeapStep ⟨h, live⟩ ⟨h', live'⟩) :
    HeapInv h' (own ++ live') ∧ PayloadKept h.mem h'.mem own := by
  have hown : ∀ e ∈ own, e ∈ own ++ live := fun e he => List.mem_append_left _ he
  cases hst with
  | @mallocNull _ _ _ size hsize hk =>
      rcases hi.kmalloc size hsize with hk' | ⟨g, p, hk', hne, -⟩
      · obtain ⟨rfl, -⟩ := Prod.mk.inj (Option.some.inj (hk.symm.trans hk'))
        exact ⟨hi, fun _ _ _ _ _ _ => rfl⟩
      · exact absurd (Prod.mk.inj (Option.some.inj (hk.symm.trans hk'))).2.symm hne
  | @malloc _ _ _ size p hsize hk hne =>
      rcases hi.kmalloc size hsize with hk' | ⟨g, q, hk', -, hi', hkept⟩
      · exact absurd (Prod.mk.inj (Option.some.inj (hk.symm.trans hk'))).2 hne
      · obtain ⟨rfl, rfl⟩ := Prod.mk.inj (Option.some.inj (hk.symm.trans hk'))
        exact ⟨hi'.perm List.perm_middle.symm, fun p s hp => hkept.payload p s (hown _ hp)⟩
  | freeNull hk =>
      rw [kfree, if_pos rfl] at hk
      cases hk
      exact ⟨hi, fun _ _ _ _ _ _ => rfl⟩
  | @free _ _ _ p s hp hk =>
      -- the allocation that is freed is not one of the client's own
      have hp' : (p, s) ∈ own ++ live := List.mem_append_right _ hp
      have hnot : (p, s) ∉ own := fun hin => by
        obtain ⟨bs, -, hl⟩ := hi
        have hnd := List.Nodup.of_map _ hl.nodup
        exact (List.nodup_append.mp hnd).2.2 _ hin _ hp rfl
      obtain ⟨m', hk', hi', hkept⟩ := hi.kfree hp'
      cases hk.symm.trans hk'
      rw [List.erase_append_right _ hnot] at hi' hkept
      exact ⟨hi', fun q t hq => hkept.payload q t (List.mem_append_left _ hq)⟩
  | @write _ _ p s x v hp hx1 hx2 =>
      have hset : ∀ y, y < p ∨ p + s ≤ y → h.mem.set x v y = h.mem y := fun y hy =>
        Mem.set_other (by omega)
      have hp' : (p, s) ∈ own ++ live := List.mem_append_right _ hp
      refine ⟨hi.write hp' hset, fun q t hq y hy1 hy2 => hset y ?_⟩
      have hne : q ≠ p := fun heq => by
        obtain ⟨bs, -, hl⟩ := hi
        have hnd := hl.nodup
        rw [List.map_append, List.nodup_append] at hnd
        exact hnd.2.2 _ (List.mem_map_of_mem hq) _ (List.mem_map_of_mem hp) heq
      have := hi.disjoint (hown _ hq) hp' hne
      omega

/-- A step of the others keeps the client's own allocations and their payloads. -/
theorem RequestStep.others [HeapBacking σ] {live' : List (Nat × Nat)}
    (hi : HeapInv h (own ++ live)) (hst : RequestStep ⟨h, live⟩ ⟨h', live'⟩) :
    HeapInv h' (own ++ live') ∧ PayloadKept h.mem h'.mem own := by
  cases hst with
  | step hst => exact hst.others hi
  | huge hhuge _ hcond hk =>
      have hi' := hi
      obtain ⟨bs, hr, -⟩ := hi'
      rw [hr.kmalloc_huge hhuge hcond] at hk
      obtain ⟨rfl, rfl⟩ := Prod.mk.inj (Option.some.inj hk)
      exact ⟨hi, fun _ _ _ _ _ _ => rfl⟩

end

end TunaOs
