import TunaOs.Kheap.Model
import TunaOs.Lib.Loop
import TunaOs.Serial.Model

/-!
# The file store

The model of `ramfs.c`.  File nodes and file data lie in blocks of the kernel
heap.  Names and data of the caller are read through their pointers, so the
functions here act on the heap's memory.  The loops that follow pointers take
fuel, and `none` means that some loop ran out of it.  `ramfs_list` returns what it
writes to the serial port.
-/

namespace TunaOs

open Loop (forRange)
open Word (wrap32)

/-- `RAMFS_NAME_MAX`. -/
def ramfsNameMax : Nat := 64

/-- `sizeof (struct ramfs_file)`. -/
def ramfsFileSize : Nat := 88

/-! ## File nodes in memory

`name` is at offset 0. -/

/-- `f->data`. -/
def fileData (m : Mem) (f : Nat) : Nat := m.load (f + 64) 8

/-- `f->size`. -/
def fileSize (m : Mem) (f : Nat) : Nat := m.load (f + 72) 8

/-- `f->next`. -/
def fileNext (m : Mem) (f : Nat) : Nat := m.load (f + 80) 8

/-- `f->data = v`. -/
def setFileData (m : Mem) (f v : Nat) : Mem := m.store (f + 64) 8 v

/-- `f->size = v`. -/
def setFileSize (m : Mem) (f v : Nat) : Mem := m.store (f + 72) 8 v

/-- `f->next = v`. -/
def setFileNext (m : Mem) (f v : Nat) : Mem := m.store (f + 80) 8 v

/-! ## Creating and finding files -/

/-- The static state of `ramfs.c`, with the heap. -/
structure Ramfs (σ : Type) where
  /-- The kernel heap. -/
  heap : Heap σ
  /-- `file_list`. -/
  fileList : Nat

/-- `ramfs_init`. -/
def Ramfs.init {σ : Type} (heap : Heap σ) : Ramfs σ := ⟨heap, 0⟩

/-- `str_eq (a, b)`. -/
def Ramfs.strEq (m : Mem) : Nat → Nat → Nat → Option Bool
  | 0, _, _ => none
  | fuel + 1, a, b =>
      if m a ≠ 0 ∧ m b ≠ 0 then
        if m a ≠ m b then some false else strEq m fuel (a + 1) (b + 1)
      else some (m a == m b)

/-- The loop that copies the name to `f->name`, from index `i` on, and the zero
byte after it.  At most `left` bytes are copied, which is
`RAMFS_NAME_MAX - 1 - i`. -/
def Ramfs.copyName (f name : Nat) : Nat → Nat → Mem → Mem
  | 0, i, m => m.set (f + i) 0
  | left + 1, i, m =>
      if m (name + i) ≠ 0 then Ramfs.copyName f name left (i + 1) (m.set (f + i) (m (name + i)))
      else m.set (f + i) 0

/-- The loop that copies the data: `dst[j] = src[j]`. -/
def Ramfs.copyData (dst src size : Nat) (m : Mem) : Mem :=
  forRange 0 size (fun j m => m.set (dst + j) (m (src + j))) m

/-- `ramfs_create (name, data, size)`: the state after it and the file it
returns. -/
def Ramfs.create {σ : Type} [HeapBacking σ] (name data size : Nat) (R : Ramfs σ) :
    Option (Ramfs σ × Nat) :=
  match kmalloc R.heap ramfsFileSize with
  | none => none
  | some (heap, f) =>
      if f = 0 then some ({ R with heap }, 0)
      else
        match kmalloc (heap.withMem (Ramfs.copyName f name (ramfsNameMax - 1) 0 heap.mem)) size with
        | none => none
        | some (heap, d) =>
            let m := setFileData heap.mem f d
            if d = 0 then
              match kfree (heap.withMem m) f with
              | none => none
              | some heap => some ({ R with heap }, 0)
            else
              let m := Ramfs.copyData d data size m
              let m := setFileSize m f size
              let m := setFileNext m f R.fileList
              some (⟨heap.withMem m, f⟩, f)

/-- The loop of `ramfs_find` from `f` on. -/
def Ramfs.findFrom (m : Mem) (name : Nat) : Nat → Nat → Option Nat
  | 0, _ => none
  | fuel + 1, f =>
      if f = 0 then some 0
      else
        match Ramfs.strEq m ramfsNameMax f name with
        | none => none
        | some true => some f
        | some false => findFrom m name fuel (fileNext m f)

/-- `ramfs_find (name)`. -/
def Ramfs.find {σ : Type} (name : Nat) (R : Ramfs σ) : Option Nat :=
  Ramfs.findFrom R.heap.mem name R.heap.walkFuel R.fileList

/-! ## Listing files -/

/-- The loop of `ramfs_list` from `f` on: what it writes, and `count` after it.  The
buffer of `serial_write_dec_u64` is on the stack. -/
def Ramfs.listFrom (m stack : Mem) : Nat → Nat → Nat → Option (List UInt8 × Nat)
  | 0, _, _ => none
  | fuel + 1, f, count =>
      if f = 0 then some ([], count)
      else do
        let name ← serialWriteAt m ramfsNameMax f
        let size ← serialWriteDecU64 stack (fileSize m f)
        let (rest, count) ← listFrom m stack fuel (fileNext m f) (wrap32 (count + 1))
        some (serialWrite (text "  ") ++ name ++ serialWrite (text "  ") ++ size ++
          serialWrite (text " bytes\n") ++ rest, count)

/-- `ramfs_list ()`. -/
def Ramfs.list {σ : Type} (stack : Mem) (R : Ramfs σ) : Option (List UInt8) := do
  let (files, count) ← Ramfs.listFrom R.heap.mem stack R.heap.walkFuel R.fileList 0
  let total ← serialWriteDecU64 stack count
  some (serialWrite (text "[ramfs] listing files:\n") ++ files ++
    serialWrite (text "[ramfs] total: ") ++ total ++ serialWrite (text " files\n"))

/-- `sys_listfiles ()`: what it writes and what it returns. -/
def Ramfs.sysListfiles {σ : Type} (stack : Mem) (R : Ramfs σ) : Option (List UInt8 × Nat) := do
  let out ← R.list stack
  some (out, 0)

end TunaOs
