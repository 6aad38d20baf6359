import TunaOs.Vmm.Model

/-!
# Enough frames

`Plenty s k` says that the next `k` frames can be drawn.  `Draws k x` says that
`k` frames are enough for a program: it does not run out, and frames beyond the next
`k` are still there afterwards.  Mapping a page needs at most three frames for
tables.  That a request failed earlier changes nothing but the note that it did
(`OomBlind`), so what holds of a machine on which none has failed holds of every other.
-/

namespace TunaOs

section

variable {σ : Type} [FrameSource σ]

/-- The next `k` calls of the allocator succeed. -/
def Plenty (s : σ) : Nat → Prop
  | 0 => True
  | k + 1 => (FrameSource.alloc s).2 ≠ 0 ∧ Plenty (FrameSource.alloc s).1 k

instance decidablePlenty : ∀ (s : σ) (k : Nat), Decidable (Plenty s k)
  | _, 0 => .isTrue trivial
  | s, k + 1 =>
      have := decidablePlenty (FrameSource.alloc s).1 k
      inferInstanceAs (Decidable (_ ∧ _))

theorem Plenty.mono {s : σ} {k n : Nat} (h : Plenty s k) (hn : n ≤ k) : Plenty s n := by
  induction n generalizing s k with
  | zero => trivial
  | succ n ih =>
      cases k with
      | zero => omega
      | succ k => exact ⟨h.1, ih h.2 (by omega)⟩

/-- The allocator after `k` calls. -/
def advance (s : σ) : Nat → σ
  | 0 => s
  | k + 1 => advance (FrameSource.alloc s).1 k

theorem advance_succ (s : σ) (k : Nat) :
    advance s (k + 1) = advance (FrameSource.alloc s).1 k := rfl

theorem advance_add (s : σ) (k l : Nat) : advance s (k + l) = advance (advance s k) l := by
  induction k generalizing s with
  | zero => rw [Nat.zero_add, advance]
  | succ k ih =>
      rw [Nat.add_right_comm, advance_succ, advance_succ]
      exact ih _

theorem avail_of_advance {s : σ} {f : Nat} : ∀ {k : Nat},
    FrameSource.avail (advance s k) f → FrameSource.avail s f
  | 0, h => h
  | _ + 1, h => (FrameSource.avail_alloc (avail_of_advance h)).1

variable {β γ : Type} {k l : Nat}

/-- The program draws at most `k` frames. -/
structure Draws (k : Nat) (x : Act σ β) : Prop where
  /-- With `k` frames it does not run out. -/
  supply : ∀ M n, Plenty M.frames (n + k) → Plenty (x M).2.frames n ∧ (x M).2.oom = M.oom
  /-- Those that it draws are the next ones. -/
  taken : ∀ M, ∃ j, j ≤ k ∧ (x M).2.frames = advance M.frames j

theorem Draws.mono {x : Act σ β} (h : Draws k x) (hkl : k ≤ l) : Draws l x := by
  refine ⟨fun M n hp => h.supply M n (hp.mono (by omega)), fun M => ?_⟩
  obtain ⟨j, hj, hframes⟩ := h.taken M
  exact ⟨j, Nat.le_trans hj hkl, hframes⟩

/-- A program that leaves the allocator alone. -/
theorem Draws.keep {x : Act σ β} (hframes : ∀ M, (x M).2.frames = M.frames)
    (hoom : ∀ M, (x M).2.oom = M.oom) : Draws k x :=
  ⟨fun M n hp => ⟨by rw [hframes]; exact hp.mono (by omega), hoom M⟩,
    fun M => ⟨0, Nat.zero_le k, hframes M⟩⟩

theorem Draws.pure (b : β) : Draws k (pure b : Act σ β) := .keep (fun _ => rfl) fun _ => rfl

theorem Draws.bind {x : Act σ β} {f : β → Act σ γ} (hx : Draws k x) (hf : ∀ b, Draws l (f b)) :
    Draws (k + l) (x >>= f) := by
  refine ⟨fun M n hp => ?_, fun M => ?_⟩
  · obtain ⟨hp1, ho1⟩ := hx.supply M (n + l) (by rwa [Nat.add_assoc, Nat.add_comm l])
    obtain ⟨hp2, ho2⟩ := (hf (x M).1).supply (x M).2 n hp1
    exact ⟨hp2, ho2.trans ho1⟩
  · obtain ⟨i, hi, hframes⟩ := hx.taken M
    obtain ⟨j, hj, hframes'⟩ := (hf (x M).1).taken (x M).2
    exact ⟨i + j, by omega, by rw [advance_add, ← hframes, ← hframes']; rfl⟩

theorem Draws.ite {c : Prop} [Decidable c] {x y : Act σ β} (hx : Draws k x) (hy : Draws k y) :
    Draws k (if c then x else y) := by
  split
  · exact hx
  · exact hy

theorem Draws.load64 (a : Nat) : Draws 0 (TunaOs.load64 a : Act σ Nat) :=
  .keep (fun _ => rfl) fun _ => rfl

theorem Draws.store64 (a v : Nat) : Draws 0 (TunaOs.store64 a v : Act σ Unit) :=
  .keep (fun M => M.store64_frames a v) fun M => M.store64_oom a v

theorem Draws.store8 (a : Nat) (v : UInt8) : Draws 0 (TunaOs.store8 a v : Act σ Unit) :=
  .keep (fun M => M.store8_frames a v) fun M => M.store8_oom a v

theorem Draws.event (e : MmuEvent) : Draws 0 (TunaOs.event e : Act σ Unit) :=
  .keep (fun _ => rfl) fun _ => rfl

theorem Draws.allocFrame : Draws 1 (TunaOs.allocFrame : Act σ Nat) := by
  refine ⟨fun M n hp => ⟨hp.2, ?_⟩, fun M => ⟨1, Nat.le_refl 1, rfl⟩⟩
  simp [TunaOs.allocFrame, hp.1]

theorem Draws.forLoop {body : Nat → Act σ Unit} :
    ∀ n, (∀ i, i < n → Draws k (body i)) → Draws (n * k) (TunaOs.forLoop n body)
  | 0, _ => .keep (fun _ => rfl) fun _ => rfl
  | n + 1, hbody => by
      rw [forLoop_succ, Nat.succ_mul]
      exact .bind (Draws.forLoop n fun i hi => hbody i (by omega)) fun _ => hbody n (by omega)

/-! ## The virtual memory manager -/

theorem Draws.allocTable : Draws 1 (TunaOs.allocTable : Act σ Nat) := by
  refine .bind (l := 0) .allocFrame fun frame => .ite (.pure _) ?_
  have hzero :
      Draws 0 (TunaOs.forLoop 512 fun i => TunaOs.store64 (frame + 8 * i) 0 : Act σ Unit) :=
    .forLoop (k := 0) 512 fun _ _ => .store64 _ _
  exact .bind (k := 0) (l := 0) hzero fun _ => .pure _

theorem Draws.descend (shift virt flags table : Nat) :
    Draws 1 (TunaOs.descend shift virt flags table : Act σ (Option Nat)) := by
  refine .bind (k := 0) (l := 1) (.load64 _) fun e => .ite ?_ ?_
  · exact .bind (k := 0) (l := 1) (.store64 _ _) fun _ => .pure _
  · refine .bind (k := 1) (l := 0) .allocTable fun next => .ite (.pure _) ?_
    exact .bind (k := 0) (l := 0) (.store64 _ _) fun _ => .pure _

theorem Draws.setLeaf (virt table e : Nat) :
    Draws 0 (TunaOs.setLeaf virt table e : Act σ Unit) :=
  .bind (k := 0) (l := 0) (.load64 _) fun _ =>
    .bind (k := 0) (l := 0) (.store64 _ _) fun _ => .event _

theorem Draws.vmmMapPage (virt phys flags : Nat) :
    Draws 3 (TunaOs.vmmMapPage virt phys flags : Act σ Unit) := by
  refine .bind (k := 0) (l := 3) (.keep (fun _ => rfl) fun _ => rfl) fun pml4 => ?_
  refine .bind (k := 1) (l := 2) (.descend ..) fun pdpt => ?_
  cases pdpt with
  | none => exact .pure _
  | some pdpt =>
      refine .bind (k := 1) (l := 1) (.descend ..) fun pd => ?_
      cases pd with
      | none => exact .pure _
      | some pd =>
          refine .bind (k := 1) (l := 0) (.descend ..) fun pt => ?_
          cases pt with
          | none => exact .pure _
          | some pt => exact .setLeaf ..

end

/-! ## What the machine notes

Whether a request for a frame has failed and whether an access has strayed are notes of the
model: no program looks at them. -/

section

variable {σ β γ : Type}

/-- The machine with another note on whether a request for a frame has failed. -/
def Mach.withOom (M : Mach σ) (o : Bool) : Mach σ := { M with oom := o }

/-- The machine with another note on whether an access has strayed. -/
def Mach.withStray (M : Mach σ) (s : Bool) : Mach σ := { M with stray := s }

theorem Mach.withOom_self (M : Mach σ) : M.withOom M.oom = M := rfl

@[simp] theorem Mach.withOom_frames (M : Mach σ) (o : Bool) : (M.withOom o).frames = M.frames := rfl

/-- The program does not look at the note `flag`, which `put` changes. -/
structure Blind (put : Mach σ → Bool → Mach σ) (flag : Mach σ → Bool) (x : Act σ β) : Prop where
  result : ∀ M o, (x (put M o)).1 = (x M).1
  state : ∀ M o, (x (put M o)).2 = put (x M).2 (flag (x (put M o)).2)

abbrev OomBlind (x : Act σ β) : Prop := Blind Mach.withOom Mach.oom x

abbrev StrayBlind (x : Act σ β) : Prop := Blind Mach.withStray Mach.stray x

theorem Blind.bind {put : Mach σ → Bool → Mach σ} {flag : Mach σ → Bool} {x : Act σ β}
    {f : β → Act σ γ} (hx : Blind put flag x) (hf : ∀ b, Blind put flag (f b)) :
    Blind put flag (x >>= f) := by
  constructor
  · intro M o
    rw [Act.bind_apply, hx.result, hx.state, (hf _).result]
    rfl
  · intro M o
    rw [Act.bind_apply, hx.result, hx.state]
    exact (hf _).state _ _

theorem OomBlind.store64 (a v : Nat) : OomBlind (TunaOs.store64 a v : Act σ Unit) := by
  refine ⟨fun _ _ => rfl, fun M o => ?_⟩
  have hres : (M.withOom o).resolve a = M.resolve a := rfl
  simp only [TunaOs.store64, Mach.store64, hres]
  split <;> rfl

theorem OomBlind.store8 (a : Nat) (v : UInt8) : OomBlind (TunaOs.store8 a v : Act σ Unit) := by
  refine ⟨fun _ _ => rfl, fun M o => ?_⟩
  have hres : (M.withOom o).resolve a = M.resolve a := rfl
  simp only [TunaOs.store8, Mach.store8, hres]
  split <;> rfl

theorem StrayBlind.store64 (a v : Nat) : StrayBlind (TunaOs.store64 a v : Act σ Unit) := by
  refine ⟨fun _ _ => rfl, fun M s => ?_⟩
  have hres : (M.withStray s).resolve a = M.resolve a := rfl
  simp only [TunaOs.store64, Mach.store64, hres]
  split <;> rfl

theorem StrayBlind.store8 (a : Nat) (v : UInt8) :
    StrayBlind (TunaOs.store8 a v : Act σ Unit) := by
  refine ⟨fun _ _ => rfl, fun M s => ?_⟩
  have hres : (M.withStray s).resolve a = M.resolve a := rfl
  simp only [TunaOs.store8, Mach.store8, hres]
  split <;> rfl

theorem primitive_oomBlind [FrameSource σ] : Primitive (σ := σ) OomBlind where
  pure _ := ⟨fun _ _ => rfl, fun _ _ => rfl⟩
  bind := .bind
  load64 _ := ⟨fun _ _ => rfl, fun _ _ => rfl⟩
  store64 := .store64
  store8 := .store8
  leaf _ _ _ := ⟨fun _ _ => rfl, fun _ _ => rfl⟩
  invlpg _ := ⟨fun _ _ => rfl, fun _ _ => rfl⟩
  allocFrame := ⟨fun _ _ => rfl, fun _ _ => rfl⟩
  getPml4 := ⟨fun _ _ => rfl, fun _ _ => rfl⟩
  setPml4 _ := ⟨fun _ _ => rfl, fun _ _ => rfl⟩
  loadCr3 _ := ⟨fun _ _ => rfl, fun _ _ => rfl⟩
  noteHeapFrame _ := ⟨fun _ _ => rfl, fun _ _ => rfl⟩

theorem primitive_strayBlind [FrameSource σ] : Primitive (σ := σ) StrayBlind where
  pure _ := ⟨fun _ _ => rfl, fun _ _ => rfl⟩
  bind := .bind
  load64 _ := ⟨fun _ _ => rfl, fun _ _ => rfl⟩
  store64 := .store64
  store8 := .store8
  leaf _ _ _ := ⟨fun _ _ => rfl, fun _ _ => rfl⟩
  invlpg _ := ⟨fun _ _ => rfl, fun _ _ => rfl⟩
  allocFrame := ⟨fun _ _ => rfl, fun _ _ => rfl⟩
  getPml4 := ⟨fun _ _ => rfl, fun _ _ => rfl⟩
  setPml4 _ := ⟨fun _ _ => rfl, fun _ _ => rfl⟩
  loadCr3 _ := ⟨fun _ _ => rfl, fun _ _ => rfl⟩
  noteHeapFrame _ := ⟨fun _ _ => rfl, fun _ _ => rfl⟩

end

/-! ## Drawing frames -/

section

variable {σ : Type} [FrameSource σ] {s t u : σ} {k l : Nat}

theorem plenty_add (s : σ) (k l : Nat) :
    Plenty s (k + l) ↔ Plenty s k ∧ Plenty (advance s k) l := by
  induction k generalizing s with
  | zero =>
      rw [Nat.zero_add, Plenty, true_and]
      rfl
  | succ k ih =>
      rw [Nat.add_right_comm, Plenty, Plenty, and_assoc]
      exact and_congr_right fun _ => ih _

/-- `k` frames were drawn. -/
structure Drawn (s : σ) (k : Nat) (t : σ) : Prop where
  plenty : Plenty s k
  state : t = advance s k

/-- Not all of `k` frames could be drawn. -/
def RanDry (s : σ) (k : Nat) (t : σ) : Prop :=
  ∃ j, j < k ∧ Plenty s j ∧ (FrameSource.alloc (advance s j)).2 = 0
    ∧ t = (FrameSource.alloc (advance s j)).1

theorem Drawn.zero (s : σ) : Drawn s 0 s := ⟨trivial, rfl⟩

theorem Drawn.one (h : (FrameSource.alloc s).2 ≠ 0) : Drawn s 1 (FrameSource.alloc s).1 :=
  ⟨⟨h, trivial⟩, rfl⟩

theorem Drawn.trans (h1 : Drawn s k t) (h2 : Drawn t l u) : Drawn s (k + l) u := by
  obtain ⟨hp1, rfl⟩ := h1
  obtain ⟨hp2, rfl⟩ := h2
  exact ⟨(plenty_add s k l).mpr ⟨hp1, hp2⟩, (advance_add s k l).symm⟩

theorem RanDry.one (h : (FrameSource.alloc s).2 = 0) : RanDry s 1 (FrameSource.alloc s).1 :=
  ⟨0, Nat.zero_lt_one, trivial, h, rfl⟩

theorem RanDry.mono (h : RanDry s k t) (hkl : k ≤ l) : RanDry s l t := by
  obtain ⟨j, hj, hrest⟩ := h
  exact ⟨j, by omega, hrest⟩

/-- Running dry after some frames. -/
theorem Drawn.ranDry (h1 : Drawn s k t) (h2 : RanDry t l u) : RanDry s (k + l) u := by
  obtain ⟨hp1, rfl⟩ := h1
  obtain ⟨j, hj, hp2, h0, hu⟩ := h2
  refine ⟨k + j, by omega, (plenty_add s k j).mpr ⟨hp1, hp2⟩, ?_, ?_⟩
  · rw [advance_add, h0]
  · rw [advance_add, hu]

theorem RanDry.not_plenty (h : RanDry s k t) : ¬ Plenty s k := by
  obtain ⟨j, hj, -, h0, -⟩ := h
  obtain ⟨l, rfl⟩ : ∃ l, k = j + (l + 1) := ⟨k - j - 1, by omega⟩
  exact fun hp => ((plenty_add s j (l + 1)).mp hp).2.1 h0

end

end TunaOs
