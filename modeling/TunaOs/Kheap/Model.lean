import TunaOs.Lib.Mem
import TunaOs.Lib.Word

/-!
# The kernel heap

The model of `kheap.c`.  `Heap.mem` is memory as the kernel sees it at the heap's
virtual addresses, headers and payloads alike.  Bytes above `heapEnd` are what
the frames mapped there later will hold, so mapping a page changes no byte of
the view.  It is right while the pages of the heap are mapped: the kernel faults when it writes a
header to a page that is not, which the view does not show (`Kernel.HeapMapped` says when all pages
are there).  What mapping does to frames and page tables is the effect of
`HeapBacking.mapRegion` on the environment.  It stands for `kheap_map_region`
and is instantiated with the machine in the module that models paging.

A block is a 16-byte header, with `size` at offset 0, `free` at 8 and `_pad` at
12, followed by its payload.  The walks over the chain have no bound of their
own in the source, so they take fuel.  `none` means that the fuel ran out.  A
walk whose blocks are not empty visits fewer blocks than the heap has bytes,
and every retry of `kmalloc` follows an expansion by at least a page.
-/

namespace TunaOs

open Word

/-- `KHEAP_START`. -/
def kheapStart : Nat := 0x200000

/-- `KHEAP_INITIAL_SIZE`. -/
def kheapInitialSize : Nat := 64 * 1024

/-- `KHEAP_MAX_SIZE`. -/
def kheapMaxSize : Nat := 16 * 1024 * 1024

/-- `KHEAP_MIN_BLOCK`. -/
def kheapMinBlock : Nat := 32

/-- `HEADER_SIZE`. -/
def headerSize : Nat := 16

/-- An environment that can put pages behind a range of heap addresses. -/
class HeapBacking (σ : Type) where
  /-- `kheap_map_region (start, size)`. -/
  mapRegion : σ → Nat → Nat → σ

/-- The static state of `kheap.c`, with the memory and the environment it acts
on. -/
structure Heap (σ : Type) where
  /-- Memory at the heap's addresses. -/
  mem : Mem
  /-- `heap_start`. -/
  heapStart : Nat
  /-- `heap_end`. -/
  heapEnd : Nat
  /-- Frames and page tables. -/
  env : σ

/-- The heap with its memory replaced. -/
def Heap.withMem {σ : Type} (h : Heap σ) (m : Mem) : Heap σ := { h with mem := m }

section

variable {σ : Type} (h : Heap σ) (m m' : Mem)

@[simp] theorem Heap.withMem_mem : (h.withMem m).mem = m := rfl

@[simp] theorem Heap.withMem_heapStart : (h.withMem m).heapStart = h.heapStart := rfl

@[simp] theorem Heap.withMem_heapEnd : (h.withMem m).heapEnd = h.heapEnd := rfl

@[simp] theorem Heap.withMem_withMem : (h.withMem m).withMem m' = h.withMem m' := rfl

end

/-! ## Headers -/

/-- `((struct block_header *)a)->size`. -/
def blockSize (m : Mem) (a : Nat) : Nat := m.load a 8

/-- `((struct block_header *)a)->free`. -/
def blockFree (m : Mem) (a : Nat) : Nat := m.load (a + 8) 4

/-- `((struct block_header *)a)->size = v`. -/
def setSize (m : Mem) (a v : Nat) : Mem := m.store a 8 v

/-- `((struct block_header *)a)->free = v`. -/
def setFree (m : Mem) (a v : Nat) : Mem := m.store (a + 8) 4 v

/-- `((struct block_header *)a)->_pad = v`. -/
def setPad (m : Mem) (a v : Nat) : Mem := m.store (a + 12) 4 v

/-- The three stores that make a new free block of `size` bytes at `a`. -/
def newBlock (m : Mem) (a size : Nat) : Mem := setPad (setFree (setSize m a size) a 1) a 0

/-- The address after the block at `a`. -/
def nextBlock (m : Mem) (a : Nat) : Nat := wrap64 (a + blockSize m a)

/-! ## Growing the heap -/

/-- The fuel of a walk over the chain. -/
def Heap.walkFuel {σ : Type} (h : Heap σ) : Nat := h.heapEnd - h.heapStart + 1

/-- The walk of `kheap_expand` to the last block before `heapEnd`. -/
def lastBlock (m : Mem) (heapEnd : Nat) : Nat → Nat → Option Nat → Option (Option Nat)
  | 0, _, _ => none
  | fuel + 1, cur, last =>
      if cur < heapEnd then lastBlock m heapEnd fuel (nextBlock m cur) (some cur)
      else some last

/-- The number of bytes `kheap_expand` adds for a request. -/
def expandSize (minSize : Nat) : Nat :=
  let expand := alignUp minSize 12
  if expand < 4096 then 4096 else expand

section Backing

variable {σ : Type} [HeapBacking σ]

/-- `kheap_expand`: the heap after it, and whether it succeeded. -/
def kheapExpand (h : Heap σ) (minSize : Nat) : Option (Heap σ × Bool) :=
  let expand := expandSize minSize
  if wrap64 (h.heapEnd + expand) > kheapStart + kheapMaxSize then some (h, false)
  else
    let env := HeapBacking.mapRegion h.env h.heapEnd expand
    let mem := newBlock h.mem h.heapEnd expand
    match lastBlock mem h.heapEnd h.walkFuel h.heapStart none with
    | none => none
    | some last =>
        let heapEnd := wrap64 (h.heapEnd + expand)
        let mem := match last with
          | some last =>
              if blockFree mem last ≠ 0 then
                setSize mem last (wrap64 (blockSize mem last + blockSize mem h.heapEnd))
              else mem
          | none => mem
        some ({ mem, heapStart := h.heapStart, heapEnd, env }, true)

/-- `kheap_init`.  `m` is memory before the call. -/
def kheapInit (m : Mem) (env : σ) : Heap σ where
  mem := newBlock m kheapStart kheapInitialSize
  heapStart := kheapStart
  heapEnd := kheapStart + kheapInitialSize
  env := HeapBacking.mapRegion env kheapStart kheapInitialSize

/-! ## `kmalloc` -/

/-- The block size `kmalloc` looks for. -/
def requestSize (size : Nat) : Nat :=
  let total := alignUp (wrap64 (size + headerSize)) 3
  if total < kheapMinBlock then kheapMinBlock else total

/-- The walk of `kmalloc` to the first free block that is large enough. -/
def findFit (m : Mem) (heapEnd total : Nat) : Nat → Nat → Option (Option Nat)
  | 0, _ => none
  | fuel + 1, cur =>
      if cur < heapEnd then
        if blockFree m cur ≠ 0 ∧ blockSize m cur ≥ total then some (some cur)
        else findFit m heapEnd total fuel (nextBlock m cur)
      else some none

/-- What `kmalloc` does to the block it has found: split off the rest if that
is large enough for a block, then mark the block as used. -/
def takeBlock (m : Mem) (cur total : Nat) : Mem :=
  let m :=
    if blockSize m cur ≥ wrap64 (total + kheapMinBlock) then
      setSize (newBlock m (wrap64 (cur + total)) (blockSize m cur - total)) cur total
    else m
  setFree m cur 0

/-- The part of `kmalloc` from the label `retry` on, with fuel for the retries. -/
def kmallocRetry (total : Nat) : Nat → Heap σ → Option (Heap σ × Nat)
  | 0, _ => none
  | fuel + 1, h =>
      match findFit h.mem h.heapEnd total h.walkFuel h.heapStart with
      | none => none
      | some (some cur) =>
          some (h.withMem (takeBlock h.mem cur total), wrap64 (cur + headerSize))
      | some none =>
          match kheapExpand h total with
          | none => none
          | some (h, false) => some (h, 0)
          | some (h, true) => kmallocRetry total fuel h

/-- The fuel for the retries of `kmalloc`. -/
def retryFuel : Nat := 65536

/-- `kmalloc`: the heap after it, and the pointer it returns. -/
def kmalloc (h : Heap σ) (size : Nat) : Option (Heap σ × Nat) :=
  if size = 0 then some (h, 0) else kmallocRetry (requestSize size) retryFuel h

end Backing

/-! ## `kfree` -/

/-- The inner loop of `kfree`: the free block at `cur` takes in the free blocks
right after it. -/
def absorb (heapEnd : Nat) : Nat → Mem → Nat → Option Mem
  | 0, _, _ => none
  | fuel + 1, m, cur =>
      let next := nextBlock m cur
      if next < heapEnd ∧ blockFree m next ≠ 0 then
        absorb heapEnd fuel (setSize m cur (wrap64 (blockSize m cur + blockSize m next))) cur
      else some m

/-- The outer loop of `kfree` over the chain.  `n` is the fuel of each inner
loop. -/
def coalesceWalk (heapEnd n : Nat) : Nat → Mem → Nat → Option Mem
  | 0, _, _ => none
  | fuel + 1, m, cur =>
      if cur < heapEnd then
        match (if blockFree m cur ≠ 0 then absorb heapEnd n m cur else some m) with
        | none => none
        | some m => coalesceWalk heapEnd n fuel m (nextBlock m cur)
      else some m

/-- `kfree`.  A live pointer is past its header, so the subtraction is exact. -/
def kfree {σ : Type} (h : Heap σ) (ptr : Nat) : Option (Heap σ) :=
  if ptr = 0 then some h
  else
    let m := setFree h.mem (ptr - headerSize) 1
    match coalesceWalk h.heapEnd h.walkFuel h.walkFuel m h.heapStart with
    | none => none
    | some m => some (h.withMem m)

end TunaOs
