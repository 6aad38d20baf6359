import TunaOs.Kheap.Model
import TunaOs.Machine.Model

/-!
# The virtual memory manager

The model of `vmm.c`, and of `kheap_map_region`, which puts frames behind the
heap.  The three steps of `vmm_map_page` from one level of tables to the next
are the same code with other names, so they are one function, `descend`, with
the shift of the level as an argument.  `none` is the early return of the
source when `alloc_table` fails.
-/

namespace TunaOs

open Word

section

variable {σ : Type} [FrameSource σ]

/-- The flags `PRESENT | WRITE` of kernel pages. -/
def kernelFlags : Nat := vmmFlagPresent ||| vmmFlagWrite

/-- `alloc_table`. -/
def allocTable : Act σ Nat := do
  let frame ← allocFrame
  if frame = 0 then return 0
  else
    forLoop 512 fun i => store64 (frame + 8 * i) 0
    return frame

/-- One step of `vmm_map_page`: from a table of one level to the table of the
next, which is allocated if it is not there. -/
def descend (shift virt flags table : Nat) : Act σ (Option Nat) := do
  let slot := table + 8 * tableIndex shift virt
  let e ← load64 slot
  if e &&& vmmFlagPresent ≠ 0 then
    store64 slot (e ||| flags)
    return some (e &&& pageMask)
  else
    let next ← allocTable
    if next = 0 then return none
    else
      store64 slot (next ||| flags)
      return some next

/-- `pt[pt_idx] = e`.  The old entry is read for the event only. -/
def setLeaf (virt table e : Nat) : Act σ Unit := do
  let slot := table + 8 * tableIndex 12 virt
  let old ← load64 slot
  store64 slot e
  event (.leaf virt old e)

/-- `intermediate_flags`. -/
def intermediateFlags (flags : Nat) : Nat :=
  if flags &&& vmmFlagUser ≠ 0 then kernelFlags ||| vmmFlagUser else kernelFlags

/-- The variable `pml4`. -/
def getPml4 : Act σ Nat := fun M => (M.pml4, M)

/-- `vmm_map_page (virt, phys, flags)`. -/
def vmmMapPage (virt phys flags : Nat) : Act σ Unit := do
  let pml4 ← getPml4
  match ← descend 39 virt (intermediateFlags flags) pml4 with
  | none => pure ()
  | some pdpt =>
    match ← descend 30 virt (intermediateFlags flags) pdpt with
    | none => pure ()
    | some pd =>
      match ← descend 21 virt (intermediateFlags flags) pd with
      | none => pure ()
      | some pt => setLeaf virt pt ((phys &&& pageMask) ||| flags)

/-- One step of `vmm_unmap_page` from a table to the next. -/
def lookDown (shift virt table : Nat) : Act σ (Option Nat) := do
  let e ← load64 (table + 8 * tableIndex shift virt)
  if e &&& vmmFlagPresent ≠ 0 then return some (e &&& pageMask) else return none

/-- `vmm_unmap_page (virt)`. -/
def vmmUnmapPage (virt : Nat) : Act σ Unit := do
  let pml4 ← getPml4
  match ← lookDown 39 virt pml4 with
  | none => pure ()
  | some pdpt =>
    match ← lookDown 30 virt pdpt with
    | none => pure ()
    | some pd =>
      match ← lookDown 21 virt pd with
      | none => pure ()
      | some pt => do
        setLeaf virt pt 0
        event (.invlpg virt)

/-- `pml4 = table`. -/
def setPml4 (table : Nat) : Act σ Unit := fun M => ((), { M with pml4 := table })

/-- `mov table, %cr3`. -/
def loadCr3 (table : Nat) : Act σ Unit := fun M =>
  ((), { M with cr3 := some table, events := .loadCr3 :: M.events })

/-- The number of pages `vmm_init` maps: `map_end / VMM_PAGE_SIZE`. -/
def identityPages : Nat := 1024

/-- `vmm_init`. -/
def vmmInit : Act σ Unit := do
  let pml4 ← allocTable
  setPml4 pml4
  if pml4 = 0 then pure ()
  else
    forLoop identityPages fun i => vmmMapPage (i * 4096) (i * 4096) kernelFlags
    loadCr3 pml4

/-! ## Heap pages -/

/-- Recording a frame that is used for the heap. -/
def noteHeapFrame (f : Nat) : Act σ Unit := fun M =>
  ((), { M with heapFrames := f :: M.heapFrames })

/-- The loop of `kheap_map_region` with `n` pages to go, from address `virt`
on. -/
def kheapMapPages : Nat → Nat → Act σ Unit
  | 0, _ => pure ()
  | n + 1, virt => do
    let phys ← allocFrame
    if phys = 0 then pure ()
    else
      noteHeapFrame phys
      vmmMapPage virt phys kernelFlags
      kheapMapPages n (wrap64 (virt + 4096))

/-- `kheap_map_region (start, size)`. -/
def kheapMapRegion (start size : Nat) : Act σ Unit := kheapMapPages ((size + 4095) / 4096) start

instance : HeapBacking (Mach σ) := ⟨fun M start size => (kheapMapRegion start size M).2⟩

/-! ## Properties of programs

A property that sequencing keeps and that every access to the machine has is a
property of every program over the machine. -/

/-- A property of the accesses to the machine that no event records, if sequencing
keeps it. -/
structure Silent (C : {β : Type} → Act σ β → Prop) : Prop extends Closed C where
  load64 : ∀ a, C (load64 a : Act σ Nat)
  store64 : ∀ a v, C (store64 a v : Act σ Unit)
  store8 : ∀ a v, C (store8 a v : Act σ Unit)
  allocFrame : C (allocFrame : Act σ Nat)
  getPml4 : C (getPml4 : Act σ Nat)
  noteHeapFrame : ∀ f, C (noteHeapFrame f : Act σ Unit)

/-- The same of writing leaf entries. -/
structure Mapping (C : {β : Type} → Act σ β → Prop) : Prop extends Silent C where
  leaf : ∀ virt old new, C (event (.leaf virt old new) : Act σ Unit)

/-- The same of all accesses. -/
structure Access (C : {β : Type} → Act σ β → Prop) : Prop extends Mapping C where
  invlpg : ∀ virt, C (event (.invlpg virt) : Act σ Unit)

/-- The same with the two steps that only `vmm_init` takes. -/
structure Primitive (C : {β : Type} → Act σ β → Prop) : Prop extends Access C where
  setPml4 : ∀ table, C (setPml4 table : Act σ Unit)
  loadCr3 : ∀ table, C (loadCr3 table : Act σ Unit)

section

variable {C : {β : Type} → Act σ β → Prop}

theorem Silent.allocTable (hC : Silent C) : C (TunaOs.allocTable : Act σ Nat) := by
  refine hC.bind hC.allocFrame fun frame => Closed.ite (hC.pure _) ?_
  exact hC.bind (hC.forLoop (fun i => hC.store64 ..) 512) fun _ => hC.pure _

/-- `descend` when it has asked for a new table. -/
theorem Silent.descend_linked (hC : Silent C) (slot flags next : Nat) :
    C (if next = 0 then pure none
      else TunaOs.store64 slot (next ||| flags) >>= fun _ => pure (some next) :
        Act σ (Option Nat)) :=
  Closed.ite (hC.pure _) (hC.bind (hC.store64 ..) fun _ => hC.pure _)

/-- `descend` when it has read the entry. -/
theorem Silent.descend_read (hC : Silent C) (slot flags e : Nat) :
    C (if e &&& vmmFlagPresent ≠ 0 then
        TunaOs.store64 slot (e ||| flags) >>= fun _ => pure (some (e &&& pageMask))
      else TunaOs.allocTable >>= fun next => if next = 0 then pure none
        else TunaOs.store64 slot (next ||| flags) >>= fun _ => pure (some next) :
          Act σ (Option Nat)) :=
  Closed.ite (hC.bind (hC.store64 ..) fun _ => hC.pure _)
    (hC.bind hC.allocTable fun next => hC.descend_linked slot flags next)

theorem Silent.descend (hC : Silent C) (shift virt flags table : Nat) :
    C (TunaOs.descend shift virt flags table : Act σ (Option Nat)) :=
  hC.bind (hC.load64 _) fun e => hC.descend_read _ flags e

theorem Mapping.setLeaf (hC : Mapping C) (virt table e : Nat) :
    C (TunaOs.setLeaf virt table e : Act σ Unit) :=
  hC.bind (hC.load64 _) fun _ => hC.bind (hC.store64 ..) fun _ => hC.leaf ..

/-- `vmm_map_page` when it has gone down to the last table, -/
theorem Mapping.atLast (hC : Mapping C) (virt e : Nat) (o : Option Nat) :
    C (match o with
      | none => pure ()
      | some pt => TunaOs.setLeaf virt pt e : Act σ Unit) := by
  cases o with
  | none => exact hC.pure _
  | some pt => exact hC.setLeaf ..

/-- to the one before it, -/
theorem Mapping.atSecond (hC : Mapping C) (virt flags e : Nat) (o : Option Nat) :
    C (match o with
      | none => pure ()
      | some pd => TunaOs.descend 21 virt flags pd >>= fun
        | none => pure ()
        | some pt => TunaOs.setLeaf virt pt e : Act σ Unit) := by
  cases o with
  | none => exact hC.pure _
  | some pd => exact hC.bind (hC.descend ..) (hC.atLast virt e)

/-- and to the first after the root. -/
theorem Mapping.atFirst (hC : Mapping C) (virt flags e : Nat) (o : Option Nat) :
    C (match o with
      | none => pure ()
      | some pdpt => TunaOs.descend 30 virt flags pdpt >>= fun
        | none => pure ()
        | some pd => TunaOs.descend 21 virt flags pd >>= fun
          | none => pure ()
          | some pt => TunaOs.setLeaf virt pt e : Act σ Unit) := by
  cases o with
  | none => exact hC.pure _
  | some pdpt => exact hC.bind (hC.descend ..) (hC.atSecond virt flags e)

theorem Mapping.vmmMapPage (hC : Mapping C) (virt phys flags : Nat) :
    C (TunaOs.vmmMapPage virt phys flags : Act σ Unit) :=
  hC.bind hC.getPml4 fun _ => hC.bind (hC.descend ..)
    (hC.atFirst virt (intermediateFlags flags) ((phys &&& pageMask) ||| flags))

omit [FrameSource σ] in
/-- `vmm_unmap_page` makes no use of the allocator. -/
theorem Closed.vmmUnmapPage (hC : Closed C) (hget : C (getPml4 : Act σ Nat))
    (hload : ∀ a, C (load64 a : Act σ Nat)) (hstore : ∀ a v, C (store64 a v : Act σ Unit))
    (hevent : ∀ e, C (event e : Act σ Unit)) (virt : Nat) :
    C (TunaOs.vmmUnmapPage virt : Act σ Unit) := by
  have hlook : ∀ shift table, C (lookDown shift virt table : Act σ (Option Nat)) :=
    fun shift table => hC.bind (hload _) fun _ => Closed.ite (hC.pure _) (hC.pure _)
  refine hC.bind hget fun pml4 => hC.bind (hlook ..) fun pdpt => ?_
  cases pdpt with
  | none => exact hC.pure _
  | some pdpt =>
      refine hC.bind (hlook ..) fun pd => ?_
      cases pd with
      | none => exact hC.pure _
      | some pd =>
          refine hC.bind (hlook ..) fun pt => ?_
          cases pt with
          | none => exact hC.pure _
          | some pt =>
              refine hC.bind (hC.bind (hload _) fun _ => hC.bind (hstore ..) fun _ => hevent _) ?_
              exact fun _ => hevent _

theorem Primitive.vmmInit (hC : Primitive C) : C (TunaOs.vmmInit : Act σ Unit) := by
  refine hC.bind hC.allocTable fun pml4 => hC.bind (hC.setPml4 _) fun _ => ?_
  refine Closed.ite (hC.pure _) (hC.bind ?_ fun _ => hC.loadCr3 _)
  exact hC.forLoop (fun i => hC.vmmMapPage ..) _

theorem Mapping.kheapMapPages (hC : Mapping C) :
    ∀ n virt, C (TunaOs.kheapMapPages n virt : Act σ Unit)
  | 0, _ => hC.pure _
  | n + 1, virt => by
      refine hC.bind hC.allocFrame fun phys => Closed.ite (hC.pure _) ?_
      refine hC.bind (hC.noteHeapFrame _) fun _ => hC.bind (hC.vmmMapPage ..) fun _ => ?_
      exact Mapping.kheapMapPages hC n _

end

/-- The buses agree on every program. -/
theorem primitive_robust : Primitive (σ := σ) Robust where
  toClosed := closed_robust
  load64 := .load64
  store64 := .store64
  store8 := .store8
  leaf _ _ _ := .event _
  invlpg _ := .event _
  allocFrame := .allocFrame
  getPml4 := .update _ (fun _ => rfl) fun _ _ => rfl
  setPml4 _ := .update _ (fun _ => rfl) fun _ _ => rfl
  loadCr3 _ := .update _ (fun _ => rfl) fun _ _ => rfl
  noteHeapFrame _ := .update _ (fun _ => rfl) fun _ _ => rfl

/-- A program that ends without having run out of frames has not run out
before. -/
theorem primitive_oom : Primitive (σ := σ) (Keeps fun M => M.oom = true) where
  toClosed := closed_keeps _
  load64 _ _ h := h
  store64 a v M h := (M.store64_oom a v).trans h
  store8 a v M h := (M.store8_oom a v).trans h
  leaf _ _ _ _ h := h
  invlpg _ _ h := h
  allocFrame M h := by
    change (M.oom || _) = true
    rw [h, Bool.true_or]
  getPml4 _ h := h
  setPml4 _ _ h := h
  loadCr3 _ _ h := h
  noteHeapFrame _ _ h := h

/-- What calls of the allocator keep, every program keeps. -/
theorem primitive_frames {I : σ → Prop} (hI : ∀ s, I s → I (FrameSource.alloc s).1) :
    Primitive (σ := σ) (Keeps fun M => I M.frames) where
  toClosed := closed_keeps _
  load64 _ _ h := h
  store64 a v M h := (congrArg I (M.store64_frames a v)).mpr h
  store8 a v M h := (congrArg I (M.store8_frames a v)).mpr h
  leaf _ _ _ _ h := h
  invlpg _ _ h := h
  allocFrame M h := hI M.frames h
  getPml4 _ h := h
  setPml4 _ _ h := h
  loadCr3 _ _ h := h
  noteHeapFrame _ _ h := h

/-- Only `vmm_init` loads CR3. -/
theorem access_cr3 (c : Option Nat) : Access (σ := σ) (Keeps fun M => M.cr3 = c) where
  toClosed := closed_keeps _
  load64 _ _ h := h
  store64 a v M h := (M.store64_cr3 a v).trans h
  store8 a v M h := (M.store8_cr3 a v).trans h
  leaf _ _ _ _ h := h
  invlpg _ _ h := h
  allocFrame _ h := h
  getPml4 _ h := h
  noteHeapFrame _ _ h := h

/-- No event records going down the tables. -/
theorem silent_events (l : List MmuEvent) : Silent (σ := σ) (Keeps fun M => M.events = l) where
  toClosed := closed_keeps _
  load64 _ _ h := h
  store64 a v M h := (M.store64_events a v).trans h
  store8 a v M h := (M.store8_events a v).trans h
  allocFrame _ h := h
  getPml4 _ h := h
  noteHeapFrame _ _ h := h

end

end TunaOs
