import Mathlib.Data.List.Chain
import Mathlib.Data.List.Nodup
import Mathlib.Tactic.Common

/-!
# Circular singly linked lists

`next` gives each node its successor.  `IsRing next l` says that the nodes of
`l` are distinct, that each is linked to the one after it, and that the last is
linked to the first.  A ring can be entered at any node (`IsRing.rotate`), takes
a new node at its end (`IsRing.insert`) and gives up a node (`IsRing.remove`).
The two walks are the loops programs use: `findPrev` looks for the node in front
of a given one, `scan` goes once around and stops at the first node that is
good.  Both take fuel, and `none` means that it ran out.
-/

namespace Circular

variable {α : Type} {next next' : α → α}

/-- Each node of `l` is linked to the one after it. -/
def Links (next : α → α) (l : List α) : Prop := l.IsChain fun x y => next x = y

/-- Distinct nodes linked in a circle. -/
def IsRing (next : α → α) : List α → Prop
  | [] => False
  | a :: l => (a :: l).Nodup ∧ Links next (a :: l ++ [a])

/-! ## Links -/

theorem Links.single (x : α) : Links next [x] := List.isChain_singleton x

theorem Links.cons {x y : α} {l : List α} :
    Links next (x :: y :: l) ↔ next x = y ∧ Links next (y :: l) := List.isChain_cons_cons

theorem Links.split {l₁ l₂ : List α} {c : α} :
    Links next (l₁ ++ c :: l₂) ↔ Links next (l₁ ++ [c]) ∧ Links next (c :: l₂) :=
  List.isChain_split

/-- Links read the successors of all nodes but the last. -/
theorem Links.congr {l : List α} {b : α} (h : Links next (l ++ [b]))
    (heq : ∀ x ∈ l, next' x = next x) : Links next' (l ++ [b]) := by
  induction l with
  | nil => exact Links.single b
  | cons x l ih =>
      have hx := heq x List.mem_cons_self
      have hrest := fun hl => ih hl fun y hy => heq y (List.mem_cons_of_mem x hy)
      cases l with
      | nil => exact Links.cons.mpr ⟨hx.trans (Links.cons.mp h).1, Links.single b⟩
      | cons y l =>
          obtain ⟨hxy, hl⟩ := Links.cons.mp h
          exact Links.cons.mpr ⟨hx.trans hxy, hrest hl⟩

/-- The last link may be moved to another node. -/
theorem Links.relink {l : List α} {p b c : α} (h : Links next (l ++ [p, b]))
    (heq : ∀ x ∈ l, next' x = next x) (hp : next' p = c) : Links next' (l ++ [p, c]) := by
  obtain ⟨hl, -⟩ := Links.split.mp h
  exact Links.split.mpr ⟨hl.congr heq, Links.cons.mpr ⟨hp, Links.single c⟩⟩

/-- Successors come after the first node. -/
theorem Links.next_mem_tail {l : List α} {b y : α} (h : Links next (l ++ [b])) (hy : y ∈ l) :
    next y ∈ (l ++ [b]).tail := by
  obtain ⟨l₁, l₂, rfl⟩ := List.append_of_mem hy
  have hsplit : Links next (l₁ ++ y :: (l₂ ++ [b])) := by simpa using h
  have hy' := (Links.split.mp hsplit).2
  have hmem : next y ∈ l₂ ++ [b] := by
    cases l₂ with
    | nil => simp [(Links.cons.mp hy').1]
    | cons z l₂ => simp [(Links.cons.mp hy').1]
  cases l₁ with
  | nil => simpa using hmem
  | cons a l₁ =>
      have : next y ∈ l₁ ++ y :: (l₂ ++ [b]) :=
        List.mem_append_right _ (List.mem_cons_of_mem _ hmem)
      simpa using this

/-! ## Rings -/

theorem IsRing.nodup {l : List α} (h : IsRing next l) : l.Nodup := by
  cases l with
  | nil => exact List.nodup_nil
  | cons a l => exact h.1

theorem IsRing.congr {l : List α} (h : IsRing next l) (heq : ∀ x ∈ l, next' x = next x) :
    IsRing next' l := by
  cases l with
  | nil => exact h
  | cons a l => exact ⟨h.1, Links.congr h.2 heq⟩

/-- A ring of one node. -/
theorem IsRing.single {a : α} (h : next a = a) : IsRing next [a] :=
  ⟨List.nodup_singleton a, Links.cons.mpr ⟨h, Links.single a⟩⟩

/-- A ring is a ring from each of its nodes. -/
theorem IsRing.rotate {l₁ l₂ : List α} {c : α} (h : IsRing next (l₁ ++ c :: l₂)) :
    IsRing next (c :: (l₂ ++ l₁)) := by
  have hnd : (c :: (l₂ ++ l₁)).Nodup :=
    List.nodup_append_comm.mp h.nodup
  cases l₁ with
  | nil => simpa using h
  | cons a l₁ =>
      have hl : Links next (a :: l₁ ++ c :: (l₂ ++ [a])) := by simpa using h.2
      obtain ⟨h1, h2⟩ := Links.split.mp hl
      have : c :: (l₂ ++ a :: l₁) ++ [c] = (c :: l₂) ++ a :: (l₁ ++ [c]) := by simp
      exact ⟨hnd, this ▸ Links.split.mpr ⟨h2, h1⟩⟩

/-- The successor of a node is in the ring. -/
theorem IsRing.next_mem {l : List α} (h : IsRing next l) {x : α} (hx : x ∈ l) : next x ∈ l := by
  cases l with
  | nil => cases hx
  | cons a l =>
      have := h.2.next_mem_tail hx
      simp only [List.cons_append, List.tail_cons, List.mem_append, List.mem_singleton] at this
      exact List.mem_cons.mpr this.symm

/-- The node in front of the first is the last. -/
theorem IsRing.eq_last {l : List α} {p q t : α} (h : IsRing next (t :: (l ++ [q])))
    (hp : p ∈ t :: (l ++ [q])) (hnext : next p = t) : p = q := by
  have hlinks : Links next ((t :: l) ++ q :: [t]) := by simpa using h.2
  by_contra hpq
  have hp' : p ∈ t :: l := by
    rcases List.mem_cons.mp hp with rfl | hp
    · exact List.mem_cons_self
    · rcases List.mem_append.mp hp with hp | hp
      · exact List.mem_cons_of_mem _ hp
      · exact absurd (List.mem_singleton.mp hp) hpq
  have hmem := (Links.split.mp hlinks).1.next_mem_tail hp'
  rw [hnext] at hmem
  exact (List.nodup_cons.mp h.nodup).1 hmem

/-- The node after the first. -/
theorem IsRing.next_first {l : List α} {a b : α} (h : IsRing next (a :: b :: l)) : next a = b :=
  (Links.cons.mp h.2).1

/-- The first node may also stand at the end. -/
theorem IsRing.concat {l : List α} {c : α} (h : IsRing next (c :: l)) :
    IsRing next (l ++ [c]) := by
  cases l with
  | nil => exact h
  | cons a l => exact IsRing.rotate (show IsRing next ([c] ++ a :: l) from h)

/-- The successor of the first node. -/
theorem IsRing.head_concat {l : List α} {c : α} (h : IsRing next (c :: l)) :
    (l ++ [c]).head? = some (next c) := by
  cases l with
  | nil => exact congrArg some (Links.cons.mp h.2).1.symm
  | cons a l => exact congrArg some h.next_first.symm

/-- The last node is linked to the first. -/
theorem IsRing.next_last {l : List α} {a p : α} (h : IsRing next (l ++ [p]))
    (ha : (l ++ [p]).head? = some a) : next p = a := by
  cases l with
  | nil =>
      obtain rfl : p = a := by simpa using ha
      exact (Links.cons.mp h.2).1
  | cons b l =>
      obtain rfl : b = a := by simpa using ha
      have hl : Links next (b :: l ++ p :: [b]) := by simpa using h.2
      exact (Links.cons.mp (Links.split.mp hl).2).1

/-- A node of a ring with others is not its own successor. -/
theorem IsRing.next_ne {l : List α} {x y : α} (h : IsRing next l) (hx : x ∈ l) (hy : y ∈ l)
    (hne : y ≠ x) : next x ≠ x := by
  obtain ⟨l₁, l₂, rfl⟩ := List.append_of_mem hx
  have hr := h.rotate
  have hy' : y ∈ l₂ ++ l₁ := by
    simp only [List.mem_append, List.mem_cons, hne, false_or] at hy
    exact List.mem_append.mpr hy.symm
  obtain ⟨b, m, hm⟩ := List.exists_cons_of_ne_nil (List.ne_nil_of_mem hy')
  rw [hm] at hr
  rw [hr.next_first]
  exact fun heq => (List.nodup_cons.mp hr.nodup).1 (heq ▸ List.mem_cons_self)

/-- Different nodes have different successors. -/
theorem IsRing.next_inj {l : List α} {x y : α} (h : IsRing next l) (hx : x ∈ l) (hy : y ∈ l)
    (heq : next x = next y) : x = y := by
  obtain ⟨l₁, l₂, hl⟩ := List.append_of_mem (h.next_mem hy)
  have hr := (hl ▸ h).rotate
  have hmem : ∀ z, z ∈ l → z ∈ next y :: (l₂ ++ l₁) := fun z hz => by
    rw [hl, List.mem_append, List.mem_cons] at hz
    rw [List.mem_cons, List.mem_append]
    exact hz.elim (fun h => Or.inr (Or.inr h)) (Or.imp_right Or.inl)
  rcases List.eq_nil_or_concat (l₂ ++ l₁) with hnil | ⟨q, p, hq⟩
  · rw [hnil] at hmem
    exact (List.mem_singleton.mp (hmem x hx)).trans (List.mem_singleton.mp (hmem y hy)).symm
  · rw [hq, List.concat_eq_append] at hr hmem
    rw [hr.eq_last (hmem x hx) heq, hr.eq_last (hmem y hy) rfl]

/-- A new node at the end of a ring, behind its last node `p`. -/
theorem IsRing.insert {l : List α} {a p t : α} (h : IsRing next (l ++ [p]))
    (ha : (l ++ [p]).head? = some a) (ht : t ∉ l ++ [p])
    (heq : ∀ x ∈ l, next' x = next x) (hp : next' p = t) (hta : next' t = a) :
    IsRing next' (l ++ [p] ++ [t]) := by
  have hnd : (l ++ [p] ++ [t]).Nodup :=
    List.nodup_append_comm.mp (List.nodup_cons.mpr ⟨ht, h.nodup⟩)
  cases l with
  | nil =>
      obtain rfl : p = a := by simpa using ha
      exact ⟨hnd, Links.cons.mpr ⟨hp, Links.cons.mpr ⟨hta, Links.single _⟩⟩⟩
  | cons b l =>
      obtain rfl : b = a := by simpa using ha
      have hl : Links next (b :: l ++ [p, b]) := by simpa using h.2
      have hlinks : Links next' (b :: l ++ [p] ++ [t]) := by simpa using hl.relink heq hp
      have : b :: (l ++ [p] ++ [t]) ++ [b] = b :: l ++ [p] ++ t :: [b] := by simp
      exact ⟨hnd, this ▸ Links.split.mpr ⟨hlinks, Links.cons.mpr ⟨hta, Links.single b⟩⟩⟩

/-- Taking the first node out of a ring whose last node is `p`. -/
theorem IsRing.unlink {l : List α} {p t : α} (h : IsRing next (t :: (l ++ [p])))
    (heq : ∀ x ∈ l, next' x = next x) (hp : next' p = next t) :
    IsRing next' (l ++ [p]) := by
  have hnd : (l ++ [p]).Nodup := (List.nodup_cons.mp h.nodup).2
  have hlinks : Links next (t :: (l ++ [p, t])) := by simpa using h.2
  cases l with
  | nil => exact IsRing.single (hp.trans (Links.cons.mp hlinks).1)
  | cons b l =>
      obtain ⟨ht, hrest⟩ := Links.cons.mp hlinks
      have := Links.relink (l := b :: l) hrest heq (hp.trans ht)
      exact ⟨hnd, by simpa using this⟩

/-- Taking a node out of a ring that has others: the node in front of it is
linked past it. -/
theorem IsRing.remove [DecidableEq α] {l₁ l₂ : List α} {t : α}
    (h : IsRing next (l₁ ++ t :: l₂)) (hne : l₂ ++ l₁ ≠ [])
    (heq : ∀ x ∈ l₁ ++ l₂, next' x = if next x = t then next t else next x) :
    IsRing next' (l₁ ++ l₂) := by
  -- from `t` the ring is `t :: l₂ ++ l₁`, and its last node `p` is the one in front of `t`
  have hr := h.rotate
  obtain ⟨q, p, hq⟩ : ∃ q p, l₂ ++ l₁ = q ++ [p] :=
    ⟨_, _, (List.dropLast_append_getLast hne).symm⟩
  have hmem : ∀ x, x ∈ q ++ [p] → x ∈ l₁ ++ l₂ := fun x hx => by
    rw [← hq] at hx
    exact List.mem_append.mpr (List.mem_append.mp hx).symm
  rw [hq] at hr
  have hnd := List.nodup_append.mp (List.nodup_cons.mp hr.nodup).2
  have hp : next p = t := by
    have hl : Links next ((t :: q) ++ p :: [t]) := by simpa using hr.2
    exact (Links.cons.mp (Links.split.mp hl).2).1
  have hring : IsRing next' (l₂ ++ l₁) := by
    rw [hq]
    refine hr.unlink (fun x hx => ?_) ?_
    · rw [heq x (hmem x (List.mem_append_left _ hx)), if_neg]
      intro hx'
      obtain rfl := hr.eq_last (List.mem_cons_of_mem _ (List.mem_append_left _ hx)) hx'
      exact hnd.2.2 x hx x (List.mem_singleton_self x) rfl
    · rw [heq p (hmem p (List.mem_append_right _ (List.mem_singleton_self p))), if_pos hp]
  cases l₁ with
  | nil => simpa using hring
  | cons a l₁ => simpa using hring.rotate

/-! ## Walks -/

variable [DecidableEq α]

/-- `while (next(p) != t) p = next(p);`. -/
def findPrev (next : α → α) (t : α) : Nat → α → Option α
  | 0, _ => none
  | fuel + 1, p => if next p = t then some p else findPrev next t fuel (next p)

/-- `do { if (good(p)) break; p = next(p); } while (p != start);`. -/
def scan (next : α → α) (good : α → Bool) (start : α) : Nat → α → Option α
  | 0, _ => none
  | fuel + 1, p =>
      if good p then some p
      else if next p = start then some start
      else scan next good start fuel (next p)

/-- The walk ends at the last node in front of `t`. -/
theorem findPrev_spec {t : α} : ∀ (fuel : Nat) {l : List α} {x : α},
    Links next (x :: l ++ [t]) → t ∉ l → l.length < fuel →
      ∃ p, findPrev next t fuel x = some p ∧ p ∈ x :: l ∧ next p = t
  | 0, _, _, _, _, hfuel => absurd hfuel (Nat.not_lt_zero _)
  | fuel + 1, [], x, h, _, _ => by
      have hx : next x = t := (Links.cons.mp h).1
      exact ⟨x, by rw [findPrev, if_pos hx], List.mem_cons_self, hx⟩
  | fuel + 1, y :: l, x, h, ht, hfuel => by
      obtain ⟨hx, hl⟩ := Links.cons.mp h
      have hyt : y ≠ t := fun heq => ht (heq ▸ List.mem_cons_self)
      obtain ⟨p, hp, hmem, hnext⟩ := findPrev_spec fuel hl
        (fun hmem => ht (List.mem_cons_of_mem _ hmem)) (Nat.lt_of_succ_lt_succ hfuel)
      refine ⟨p, ?_, List.mem_cons_of_mem _ hmem, hnext⟩
      rw [findPrev, hx, if_neg hyt, hp]

/-- In a ring the walk from any node finds the node in front of any other. -/
theorem IsRing.findPrev {l : List α} (h : IsRing next l) {a t : α} {fuel : Nat} (ha : a ∈ l)
    (ht : t ∈ l) (hfuel : l.length ≤ fuel) :
    ∃ p, Circular.findPrev next t fuel a = some p ∧ p ∈ l ∧ next p = t := by
  obtain ⟨l₁, l₂, rfl⟩ := List.append_of_mem ha
  have hr := h.rotate
  have hlen : (l₂ ++ l₁).length < fuel := by
    simp only [List.length_append, List.length_cons] at hfuel ⊢
    omega
  have hsub : ∀ p, p ∈ a :: (l₂ ++ l₁) → p ∈ l₁ ++ a :: l₂ := by
    intro p
    simp only [List.mem_append, List.mem_cons]
    grind
  have ht' : t ∈ a :: (l₂ ++ l₁) := by
    simp only [List.mem_append, List.mem_cons] at ht ⊢
    grind
  rcases List.mem_cons.mp ht' with rfl | ht'
  · obtain ⟨p, hp, hmem, hnext⟩ := findPrev_spec fuel hr.2 (List.nodup_cons.mp hr.nodup).1 hlen
    exact ⟨p, hp, hsub p hmem, hnext⟩
  · obtain ⟨m₁, m₂, hm⟩ := List.append_of_mem ht'
    rw [hm] at hr hsub hlen
    have hl : Links next ((a :: m₁) ++ t :: (m₂ ++ [a])) := by simpa using hr.2
    have htm : t ∉ m₁ := fun hmem => by
      have := (List.nodup_append.mp (List.nodup_cons.mp hr.nodup).2).2.2 t hmem t (by simp)
      exact this rfl
    obtain ⟨p, hp, hmem, hnext⟩ := findPrev_spec fuel (Links.split.mp hl).1 htm
      (by simp only [List.length_append, List.length_cons] at hlen; omega)
    refine ⟨p, hp, hsub p ?_, hnext⟩
    simp only [List.mem_cons, List.mem_append] at hmem ⊢
    grind

/-- The scan returns the first good node, or the start if there is none. -/
theorem scan_spec (good : α → Bool) {start : α} : ∀ (fuel : Nat) {l : List α} {x : α},
    Links next (x :: l ++ [start]) → start ∉ l → l.length < fuel →
      scan next good start fuel x = some (((x :: l).find? good).getD start)
  | 0, _, _, _, _, hfuel => absurd hfuel (Nat.not_lt_zero _)
  | fuel + 1, [], x, h, _, _ => by
      have hx : next x = start := (Links.cons.mp h).1
      cases hg : good x <;> simp [scan, hg, hx]
  | fuel + 1, y :: l, x, h, hs, hfuel => by
      obtain ⟨hx, hl⟩ := Links.cons.mp h
      have hys : y ≠ start := fun heq => hs (heq ▸ List.mem_cons_self)
      have ih := scan_spec good fuel hl
        (fun hmem => hs (List.mem_cons_of_mem _ hmem)) (Nat.lt_of_succ_lt_succ hfuel)
      cases hg : good x with
      | true => simp [scan, hg]
      | false =>
          have hfind : (x :: y :: l).find? good = (y :: l).find? good :=
            List.find?_cons_of_neg (by simp [hg])
          rw [scan, hg, if_neg (by simp), hx, if_neg hys, ih, hfind]

/-- A scan that starts at the first node goes through the ring in order. -/
theorem IsRing.scan {l : List α} {start : α} {fuel : Nat} (h : IsRing next l)
    (good : α → Bool) (hhead : l.head? = some start) (hfuel : l.length ≤ fuel) :
    Circular.scan next good start fuel start = some ((l.find? good).getD start) := by
  cases l with
  | nil => cases hhead
  | cons a l =>
      obtain rfl : a = start := by simpa using hhead
      exact scan_spec good fuel h.2 (List.nodup_cons.mp h.nodup).1 hfuel

end Circular
