import TunaOs.Lib.Loop
import TunaOs.Lib.Mem
import TunaOs.Lib.Word
import TunaOs.Pmm.Model

/-!
# The machine below the kernel

Physical memory, the frame allocator and the state of the MMU, with the accesses
the kernel makes to tables and frames.  The kernel uses a frame's physical
address as a pointer.  `Bus` says what such a pointer means.  On the bus `mmu`
the access goes through the active page tables, as on the hardware.  On the bus
`phys` it goes to the frame the pointer names.  On either bus `stray` records
that some access was made to a page that the active tables do not map to itself
with write rights.  Until that happens the two buses agree (`Robust`).

`fault` records an access to a page that is not mapped, `oom` that the allocator
had no frame.  A stray store to a heap page changes the frame behind it but not
the heap's own view of its memory, so past a stray access the model says nothing
about the heap.
-/

namespace TunaOs

open Word

/-- `PAGE_MASK`. -/
def pageMask : Nat := highMask 12

/-- `VMM_FLAG_PRESENT`. -/
def vmmFlagPresent : Nat := 0x001

/-- `VMM_FLAG_WRITE`. -/
def vmmFlagWrite : Nat := 0x002

/-- `VMM_FLAG_USER`. -/
def vmmFlagUser : Nat := 0x004

/-! ## Frames -/

/-- A source of frames that hands out no frame twice.  `avail` is the set of
addresses it may still return. -/
class FrameSource (σ : Type) where
  /-- `pmm_alloc_frame`: the address of a frame, or 0. -/
  alloc : σ → σ × Nat
  /-- Addresses that may still be returned. -/
  avail : σ → Nat → Prop
  /-- They are addresses of frames, and not 0. -/
  avail_frame : ∀ {s : σ} {f : Nat}, avail s f → f % 4096 = 0 ∧ 0 < f ∧ f + 4096 ≤ 2 ^ 64
  /-- A call returns 0 or one of them. -/
  alloc_avail : ∀ s : σ, (alloc s).2 = 0 ∨ avail s (alloc s).2
  /-- After a call its result is not among them. -/
  avail_alloc : ∀ {s : σ} {f : Nat}, avail (alloc s).1 f → avail s f ∧ f ≠ (alloc s).2

section

variable {s : Pmm} {f : Nat}

theorem freeFrame_bounds (h : ∃ n, s.Free n ∧ n ≠ 0 ∧ f = n * 4096) :
    f % 4096 = 0 ∧ 0 < f ∧ f + 4096 ≤ 2 ^ 64 := by
  obtain ⟨n, ⟨hn, -⟩, hne, rfl⟩ := h
  simp only [pmmMaxFrames] at hn
  omega

theorem pmmAllocFrame_free (s : Pmm) :
    (pmmAllocFrame s).2 = 0 ∨ ∃ n, s.Free n ∧ n ≠ 0 ∧ (pmmAllocFrame s).2 = n * 4096 := by
  rcases pmmAllocFrame_cases s with ⟨h, -⟩ | ⟨f, hf, -, h⟩
  · exact Or.inl (by rw [h])
  · rw [h]
    by_cases hf0 : f = 0
    · exact Or.inl (by rw [hf0]; rfl)
    · exact Or.inr ⟨f, hf, hf0, rfl⟩

theorem free_of_pmmAllocFrame (h : ∃ n, (pmmAllocFrame s).1.Free n ∧ n ≠ 0 ∧ f = n * 4096) :
    (∃ n, s.Free n ∧ n ≠ 0 ∧ f = n * 4096) ∧ f ≠ (pmmAllocFrame s).2 := by
  obtain ⟨n, hn, hne, rfl⟩ := h
  rcases pmmAllocFrame_cases s with ⟨h, hnone⟩ | ⟨g, hg, -, h⟩
  · rw [h] at hn
    exact absurd hn (hnone n)
  · rw [h] at hn ⊢
    obtain ⟨hn, hng⟩ := (free_bitmapSet_usedInc s g n).mp hn
    simp only [pmmPageSize]
    exact ⟨⟨n, hn, hne, rfl⟩, by omega⟩

end

instance : FrameSource Pmm where
  alloc := pmmAllocFrame
  avail s f := ∃ n, s.Free n ∧ n ≠ 0 ∧ f = n * 4096
  avail_frame := @freeFrame_bounds
  alloc_avail := pmmAllocFrame_free
  avail_alloc := @free_of_pmmAllocFrame

/-! ## The machine -/

/-- What a pointer made from a physical address means. -/
inductive Bus
  | phys
  | mmu
deriving DecidableEq, Repr

/-- What happens to the leaf entries and to the TLB. -/
inductive MmuEvent
  /-- The leaf entry of an address is overwritten. -/
  | leaf (virt old new : Nat)
  /-- `invlpg`. -/
  | invlpg (virt : Nat)
  /-- A load of CR3. -/
  | loadCr3
deriving DecidableEq, Repr

/-- The machine. -/
structure Mach (σ : Type) where
  /-- Physical memory. -/
  mem : Mem
  /-- The frame allocator. -/
  frames : σ
  /-- The meaning of pointers. -/
  bus : Bus
  /-- CR3, or `none` while the tables of the boot code are active. -/
  cr3 : Option Nat
  /-- The variable `pml4` of `vmm.c`. -/
  pml4 : Nat
  /-- The frames `kheap_map_region` has obtained for the heap. -/
  heapFrames : List Nat
  /-- The events so far, the latest first. -/
  events : List MmuEvent
  /-- Some access was not to an identity-mapped page. -/
  stray : Bool
  /-- Some access was to a page that is not mapped. -/
  fault : Bool
  /-- The allocator ran out of frames. -/
  oom : Bool

/-! ## Address translation -/

/-- The index of an address in the table of the level with the given shift:
`(a >> shift) & 0x1FF`. -/
def tableIndex (shift a : Nat) : Fin 512 := Fin.ofNat 512 (a >>> shift)

/-- `table[i]`. -/
def entry (m : Mem) (table : Nat) (i : Fin 512) : Nat := m.load (table + 8 * i) 8

/-- The result of a walk: the frame and the effective rights. -/
structure Translation where
  /-- The address of the frame. -/
  frame : Nat
  /-- Writable on all levels. -/
  write : Bool
  /-- Accessible to user mode on all levels. -/
  user : Bool
deriving DecidableEq, Repr

/-- The walk of the hardware from a table on.  `shifts` are those of the levels
of tables below it, and the last level has the shift 12. -/
def walkFrom (m : Mem) : List Nat → Nat → Nat → Bool → Bool → Option Translation
  | [], t, a, w, u =>
      let e := entry m t (tableIndex 12 a)
      if e.testBit 0 then some ⟨e &&& pageMask, w && e.testBit 1, u && e.testBit 2⟩ else none
  | shift :: shifts, t, a, w, u =>
      let e := entry m t (tableIndex shift a)
      if e.testBit 0 then
        walkFrom m shifts (e &&& pageMask) a (w && e.testBit 1) (u && e.testBit 2)
      else none

/-- The walk of the hardware through four levels of tables. -/
def walk (m : Mem) (root a : Nat) : Option Translation :=
  walkFrom m [39, 30, 21] root a true true

section

variable {σ : Type}

/-- Translation by the active tables.  Those of the boot code map the first
1 GiB to itself. -/
def Mach.translate (M : Mach σ) (a : Nat) : Option Translation :=
  match M.cr3 with
  | none => if a < 2 ^ 30 then some ⟨a &&& pageMask, true, false⟩ else none
  | some root => walk M.mem root a

/-- The physical address behind a pointer. -/
def Mach.resolve (M : Mach σ) (a : Nat) : Option Nat :=
  match M.bus with
  | .phys => some a
  | .mmu => (M.translate a).map fun t => t.frame + a % 4096

/-- The active tables map `a` to itself with write rights. -/
def Mach.identity (M : Mach σ) (a : Nat) : Bool :=
  match M.translate a with
  | none => false
  | some t => t.frame + a % 4096 = a ∧ t.write = true

/-! ## Accesses -/

/-- What an access to `a` records. -/
def Mach.touch (M : Mach σ) (a : Nat) : Mach σ :=
  { M with
    stray := M.stray || !M.identity a
    fault := M.fault || (M.resolve a).isNone }

/-- The machine with another memory. -/
def Mach.withMem (M : Mach σ) (m : Mem) : Mach σ := { M with mem := m }

/-- `*(uint64_t *)a = v`. -/
def Mach.store64 (M : Mach σ) (a v : Nat) : Mach σ :=
  match M.resolve a with
  | none => M.touch a
  | some p => (M.touch a).withMem (M.mem.store p 8 v)

/-- `*(uint8_t *)a = v`. -/
def Mach.store8 (M : Mach σ) (a : Nat) (v : UInt8) : Mach σ :=
  match M.resolve a with
  | none => M.touch a
  | some p => (M.touch a).withMem (M.mem.set p v)

/-- The value of `*(uint64_t *)a`. -/
def Mach.peek64 (M : Mach σ) (a : Nat) : Nat :=
  match M.resolve a with
  | none => 0
  | some p => M.mem.load p 8

/-- The kernel as a program over the machine. -/
abbrev Act (σ : Type) := StateM (Mach σ)

/-- Reading `*(uint64_t *)a`. -/
def load64 (a : Nat) : Act σ Nat := fun M => (M.peek64 a, M.touch a)

/-- Writing `*(uint64_t *)a`. -/
def store64 (a v : Nat) : Act σ Unit := fun M => ((), M.store64 a v)

/-- Writing `*(uint8_t *)a`. -/
def store8 (a : Nat) (v : UInt8) : Act σ Unit := fun M => ((), M.store8 a v)

/-- Recording an event. -/
def event (e : MmuEvent) : Act σ Unit := fun M => ((), { M with events := e :: M.events })

/-- `for (i = 0; i < n; i++) body(i);`. -/
def forLoop (n : Nat) (body : Nat → Act σ Unit) : Act σ Unit := fun M =>
  ((), Loop.forRange 0 n (fun i M => (body i M).2) M)

/-- `pmm_alloc_frame`. -/
def allocFrame [FrameSource σ] : Act σ Nat := fun M =>
  ((FrameSource.alloc M.frames).2,
    { M with
      frames := (FrameSource.alloc M.frames).1
      oom := M.oom || (FrameSource.alloc M.frames).2 == 0 })

/-! ## Fields -/

section

variable (M : Mach σ) (a : Nat) (m : Mem)

@[simp] theorem Mach.withMem_mem : (M.withMem m).mem = m := rfl
@[simp] theorem Mach.withMem_frames : (M.withMem m).frames = M.frames := rfl
@[simp] theorem Mach.withMem_bus : (M.withMem m).bus = M.bus := rfl
@[simp] theorem Mach.withMem_cr3 : (M.withMem m).cr3 = M.cr3 := rfl
@[simp] theorem Mach.withMem_pml4 : (M.withMem m).pml4 = M.pml4 := rfl
@[simp] theorem Mach.withMem_heapFrames : (M.withMem m).heapFrames = M.heapFrames := rfl
@[simp] theorem Mach.withMem_stray : (M.withMem m).stray = M.stray := rfl
@[simp] theorem Mach.withMem_oom : (M.withMem m).oom = M.oom := rfl
@[simp] theorem Mach.touch_mem : (M.touch a).mem = M.mem := rfl
@[simp] theorem Mach.touch_frames : (M.touch a).frames = M.frames := rfl
@[simp] theorem Mach.touch_bus : (M.touch a).bus = M.bus := rfl
@[simp] theorem Mach.touch_cr3 : (M.touch a).cr3 = M.cr3 := rfl
@[simp] theorem Mach.touch_pml4 : (M.touch a).pml4 = M.pml4 := rfl
@[simp] theorem Mach.touch_heapFrames : (M.touch a).heapFrames = M.heapFrames := rfl
@[simp] theorem Mach.touch_oom : (M.touch a).oom = M.oom := rfl

end

section

variable (M : Mach σ) (a v : Nat)

@[simp] theorem Mach.store64_frames : (M.store64 a v).frames = M.frames := by
  unfold Mach.store64
  split <;> rfl

@[simp] theorem Mach.store64_pml4 : (M.store64 a v).pml4 = M.pml4 := by
  unfold Mach.store64
  split <;> rfl

@[simp] theorem Mach.store64_heapFrames : (M.store64 a v).heapFrames = M.heapFrames := by
  unfold Mach.store64
  split <;> rfl

@[simp] theorem Mach.store64_oom : (M.store64 a v).oom = M.oom := by
  unfold Mach.store64
  split <;> rfl

@[simp] theorem Mach.store64_cr3 : (M.store64 a v).cr3 = M.cr3 := by
  unfold Mach.store64
  split <;> rfl

@[simp] theorem Mach.store64_events : (M.store64 a v).events = M.events := by
  unfold Mach.store64
  split <;> rfl

@[simp] theorem Mach.store8_events (v : UInt8) : (M.store8 a v).events = M.events := by
  unfold Mach.store8
  split <;> rfl

@[simp] theorem Mach.store8_frames (v : UInt8) : (M.store8 a v).frames = M.frames := by
  unfold Mach.store8
  split <;> rfl

@[simp] theorem Mach.store8_cr3 (v : UInt8) : (M.store8 a v).cr3 = M.cr3 := by
  unfold Mach.store8
  split <;> rfl

@[simp] theorem Mach.store8_oom (v : UInt8) : (M.store8 a v).oom = M.oom := by
  unfold Mach.store8
  split <;> rfl

end

theorem allocFrame_oom [FrameSource σ] {M : Mach σ} (h : (allocFrame M).1 = 0) :
    (allocFrame M).2.oom = true := by
  have h' : (FrameSource.alloc M.frames).2 = 0 := h
  simp [allocFrame, h']

theorem allocFrame_oom_eq [FrameSource σ] {M : Mach σ} (h : (allocFrame M).1 ≠ 0) :
    (allocFrame M).2.oom = M.oom := by
  have h' : ¬ (FrameSource.alloc M.frames).2 = 0 := h
  simp [allocFrame, h']

theorem Mach.touch_stray_of_identity {M : Mach σ} {a : Nat} (h : M.identity a = true) :
    (M.touch a).stray = M.stray := by
  simp [Mach.touch, h]

theorem Mach.store64_phys {M : Mach σ} (h : M.bus = .phys) (a v : Nat) :
    M.store64 a v = (M.touch a).withMem (M.mem.store a 8 v) := by
  simp only [Mach.store64, Mach.resolve, h]

theorem Mach.store8_phys {M : Mach σ} (h : M.bus = .phys) (a : Nat) (v : UInt8) :
    M.store8 a v = (M.touch a).withMem (M.mem.set a v) := by
  simp only [Mach.store8, Mach.resolve, h]

theorem Mach.peek64_phys {M : Mach σ} (h : M.bus = .phys) (a : Nat) :
    M.peek64 a = M.mem.load a 8 := by
  simp only [Mach.peek64, Mach.resolve, h]

/-! ## Running programs -/

variable {β γ : Type}

theorem Act.bind_apply (x : Act σ β) (f : β → Act σ γ) (M : Mach σ) :
    (x >>= f) M = f (x M).1 (x M).2 := rfl

theorem Act.pure_apply (b : β) (M : Mach σ) : (pure b : Act σ β) M = (b, M) := rfl

theorem forLoop_succ (n : Nat) (body : Nat → Act σ Unit) :
    forLoop (n + 1) body = forLoop n body >>= fun _ => body n := by
  funext M
  simp only [Act.bind_apply, forLoop, Loop.forRange, Nat.sub_zero, Loop.turns, Nat.zero_add]
  rfl

/-- The rule of loops: an invariant indexed by the counter. -/
theorem forLoop_induct {n : Nat} (body : Nat → Act σ Unit) {M : Mach σ}
    {Q : Nat → Mach σ → Prop} (h0 : Q 0 M) (hs : ∀ i N, i < n → Q i N → Q (i + 1) (body i N).2) :
    Q n (forLoop n body M).2 :=
  Loop.forRange_induct (fun i M => (body i M).2) (Nat.zero_le n) h0 fun i N _ hi hN => hs i N hi hN

/-! ## The buses agree -/

/-- The machine with another bus. -/
def Mach.withBus (M : Mach σ) (b : Bus) : Mach σ := { M with bus := b }

theorem Mach.withBus_self {M : Mach σ} {b : Bus} (h : M.bus = b) : M.withBus b = M := by
  rw [← h]
  rfl

/-- A program that ends without a stray access does the same on every bus, and
the machine had not strayed before. -/
structure Robust (x : Act σ β) : Prop where
  /-- The bus stays. -/
  bus : ∀ M, (x M).2.bus = M.bus
  /-- Stray accesses are not forgotten. -/
  sticky : ∀ M, (x M).2.stray = false → M.stray = false
  /-- Without them the bus does not matter. -/
  agree : ∀ M b, (x M).2.stray = false → x (M.withBus b) = ((x M).1, (x M).2.withBus b)

theorem Robust.pure (b : β) : Robust (pure b : Act σ β) :=
  ⟨fun _ => rfl, fun _ h => h, fun _ _ _ => rfl⟩

theorem Robust.bind {x : Act σ β} {f : β → Act σ γ} (hx : Robust x) (hf : ∀ b, Robust (f b)) :
    Robust (x >>= f) := by
  constructor
  · intro M
    exact ((hf _).bus _).trans (hx.bus M)
  · intro M h
    exact hx.sticky M ((hf _).sticky _ h)
  · intro M b h
    rw [Act.bind_apply, hx.agree M b ((hf _).sticky _ h)]
    exact (hf _).agree _ b h

/-- A program that only updates fields the buses do not look at. -/
theorem Robust.update (x : Act σ β) (hstray : ∀ M, (x M).2.stray = M.stray)
    (hbus : ∀ M b, x (M.withBus b) = ((x M).1, (x M).2.withBus b)) : Robust x :=
  ⟨fun M => congrArg (fun r => r.2.bus) (hbus M M.bus), fun M h => hstray M ▸ h,
    fun M b _ => hbus M b⟩

/-- What a program does on the bus `phys`, if it runs there or does not stray. -/
theorem Robust.exact {x : Act σ β} (hx : Robust x) {M : Mach σ}
    (h : M.bus = .phys ∨ (x M).2.stray = false) :
    x (M.withBus .phys) = ((x M).1, (x M).2.withBus .phys) := by
  rcases h with hphys | hstray
  · rw [Mach.withBus_self hphys, Mach.withBus_self ((hx.bus M).trans hphys)]
    rfl
  · exact hx.agree M .phys hstray

/-- An access that does not stray goes to the address itself. -/
theorem Mach.resolve_of_identity {M : Mach σ} {a : Nat} (h : M.identity a = true) (b : Bus) :
    (M.withBus b).resolve a = some a := by
  rw [Mach.identity] at h
  cases b with
  | phys => rfl
  | mmu =>
      cases ht : M.translate a with
      | none =>
          rw [ht] at h
          cases h
      | some t =>
          rw [ht] at h
          have ht' : (M.withBus .mmu).translate a = some t := ht
          have haddr := (of_decide_eq_true h).1
          simp only [Mach.resolve, Mach.withBus] at ht' ⊢
          rw [ht', Option.map_some, haddr]

theorem Mach.stray_touch {M : Mach σ} {a : Nat} (h : (M.touch a).stray = false) :
    M.stray = false ∧ M.identity a = true := by
  simpa [Mach.touch] using h

/-- What an access that does not stray records is the same on every bus. -/
theorem Mach.touch_withBus {M : Mach σ} {a : Nat} (h : M.identity a = true) (b : Bus) :
    (M.withBus b).touch a = (M.touch a).withBus b := by
  have hb := M.resolve_of_identity h b
  have hM : M.resolve a = some a := M.resolve_of_identity h M.bus
  have hid : (M.withBus b).identity a = M.identity a := rfl
  simp only [Mach.touch, hb, hM, hid]
  rfl

@[simp] theorem Mach.store64_stray (M : Mach σ) (a v : Nat) :
    (M.store64 a v).stray = (M.touch a).stray := by
  unfold Mach.store64
  split <;> rfl

@[simp] theorem Mach.store64_bus (M : Mach σ) (a v : Nat) : (M.store64 a v).bus = M.bus := by
  unfold Mach.store64
  split <;> rfl

@[simp] theorem Mach.store8_bus (M : Mach σ) (a : Nat) (v : UInt8) :
    (M.store8 a v).bus = M.bus := by
  unfold Mach.store8
  split <;> rfl

@[simp] theorem Mach.store8_stray (M : Mach σ) (a : Nat) (v : UInt8) :
    (M.store8 a v).stray = (M.touch a).stray := by
  unfold Mach.store8
  split <;> rfl

theorem Robust.load64 (a : Nat) : Robust (TunaOs.load64 a : Act σ Nat) := by
  refine ⟨fun _ => rfl, fun M h => (Mach.stray_touch h).1, fun M b h => ?_⟩
  have hid := (Mach.stray_touch h).2
  have hM : M.resolve a = some a := M.resolve_of_identity hid M.bus
  simp only [TunaOs.load64, Mach.peek64, M.resolve_of_identity hid b, hM, M.touch_withBus hid b]
  rfl

theorem Robust.store64 (a v : Nat) : Robust (TunaOs.store64 a v : Act σ Unit) := by
  refine ⟨fun M => M.store64_bus a v, fun M h => ?_, fun M b h => ?_⟩
  · exact (Mach.stray_touch ((M.store64_stray a v).symm.trans h)).1
  · have hid := (Mach.stray_touch ((M.store64_stray a v).symm.trans h)).2
    have hM : M.resolve a = some a := M.resolve_of_identity hid M.bus
    simp only [TunaOs.store64, Mach.store64, M.resolve_of_identity hid b, hM,
      M.touch_withBus hid b]
    rfl

theorem Robust.store8 (a : Nat) (v : UInt8) : Robust (TunaOs.store8 a v : Act σ Unit) := by
  refine ⟨fun M => M.store8_bus a v, fun M h => ?_, fun M b h => ?_⟩
  · exact (Mach.stray_touch ((M.store8_stray a v).symm.trans h)).1
  · have hid := (Mach.stray_touch ((M.store8_stray a v).symm.trans h)).2
    have hM : M.resolve a = some a := M.resolve_of_identity hid M.bus
    simp only [TunaOs.store8, Mach.store8, M.resolve_of_identity hid b, hM,
      M.touch_withBus hid b]
    rfl

theorem Robust.event (e : MmuEvent) : Robust (TunaOs.event e : Act σ Unit) :=
  .update _ (fun _ => rfl) fun _ _ => rfl

theorem Robust.allocFrame [FrameSource σ] : Robust (TunaOs.allocFrame : Act σ Nat) :=
  .update _ (fun _ => rfl) fun _ _ => rfl

/-! ## Properties of programs that compose -/

/-- A property of programs that sequencing keeps. -/
structure Closed (C : {β : Type} → Act σ β → Prop) : Prop where
  pure : ∀ {β : Type} (b : β), C (pure b : Act σ β)
  bind : ∀ {β γ : Type} {x : Act σ β} {f : β → Act σ γ}, C x → (∀ b, C (f b)) → C (x >>= f)

theorem Closed.ite {C : {β : Type} → Act σ β → Prop} {c : Prop} [Decidable c] {x y : Act σ β}
    (hx : C x) (hy : C y) : C (if c then x else y) := by
  split
  · exact hx
  · exact hy

theorem Closed.forLoop {C : {β : Type} → Act σ β → Prop} (hC : Closed C)
    {body : Nat → Act σ Unit} (hbody : ∀ i, C (body i)) : ∀ n, C (TunaOs.forLoop n body)
  | 0 => hC.pure ()
  | n + 1 => by
      rw [forLoop_succ]
      exact hC.bind (Closed.forLoop hC hbody n) fun _ => hbody n

theorem closed_robust : Closed (σ := σ) Robust := ⟨Robust.pure, Robust.bind⟩

/-- The program keeps an invariant. -/
def Keeps (I : Mach σ → Prop) (x : Act σ β) : Prop := ∀ M, I M → I (x M).2

theorem closed_keeps (I : Mach σ → Prop) : Closed (σ := σ) (Keeps I) :=
  ⟨fun _ _ h => h, fun hx hf M h => hf _ _ (hx M h)⟩

end

end TunaOs
