import TunaOs.Multiboot2.Robust
import TunaOs.Serial.Fields

/-!
# The log of the memory map

The model of `mmap_type_string` and of `multiboot2_print_mmap`: what is written to the serial
port about the regions that `multiboot2_parse_mmap` has stored.

`readMmapLog` reads such a log.  Types that have no name of their own are not told apart in it.
`mmapLog_tells` states that of whatever the boot loader has left in memory the log has all
regions, and that `pmm_init` goes by nothing that is not in the log.
-/

namespace TunaOs

/-! ## The log -/

/-- `mmap_type_string`. -/
def mmapTypeString (type : Nat) : String :=
  if type = 1 then "available"
  else if type = 2 then "reserved"
  else if type = 3 then "ACPI reclaimable"
  else if type = 4 then "ACPI NVS"
  else if type = 5 then "bad memory"
  else "unknown"

/-- The turn of the loop for a region. -/
def printRegion (r : MmapRegion) : List UInt8 :=
  serialWrite (text "mmap: base=") ++ (serialWriteHexU64 r.base ++
    (serialWrite (text " length=") ++ (serialWriteHexU64 r.length ++
      (serialWrite (text " type=") ++ (serialWrite (text (mmapTypeString r.type)) ++
        serialWrite (text "\n"))))))

/-- `multiboot2_print_mmap`.  The count goes through a buffer on the stack. -/
def multiboot2PrintMmap (stack : Mem) (regions : List MmapRegion) : Option (List UInt8) := do
  let count ← serialWriteDecU64 stack (multiboot2GetMmap regions).1
  return serialWrite (text "mmap: detected ") ++ (count ++ (serialWrite (text " regions\n") ++
    (multiboot2GetMmap regions).2.flatMap printRegion))

/-! ## Reading it -/

/-- The type with this name, with 0 for a type that has no name of its own. -/
def readType (name : List UInt8) : Option Nat :=
  (List.range 6).find? fun type => text (mmapTypeString type) = name

/-- A region at the front of a log, and what follows it. -/
def readRegion (t : List UInt8) : Option (MmapRegion × List UInt8) := do
  let t ← Field.lit (text "mmap: base=0x") t
  let (base, t) ← readField 16 t
  let t ← Field.lit (text " length=0x") t
  let (length, t) ← readField 16 t
  let t ← Field.lit (text " type=") t
  let type ← readType (t.takeWhile (· ≠ carriageReturn))
  let t ← Field.lit [carriageReturn, newline] (t.dropWhile (· ≠ carriageReturn))
  return (⟨base, length, type⟩, t)

/-- A log of `n` regions. -/
def readRegions : Nat → List UInt8 → Option (List MmapRegion)
  | 0, t => if t = [] then some [] else none
  | n + 1, t => do
      let (r, t) ← readRegion t
      let rs ← readRegions n t
      return r :: rs

/-- The regions in a log. -/
def readMmapLog (t : List UInt8) : Option (List MmapRegion) := do
  let t ← Field.lit (text "mmap: detected ") t
  let (n, t) ← readField 10 t
  let t ← Field.lit (text " regions\r\n") t
  readRegions n t

/-- A region as the log has it. -/
def MmapRegion.logged (r : MmapRegion) : MmapRegion :=
  { r with type := if r.type < 6 then r.type else 0 }

/-! ## One region -/

theorem mmapTypeString_of_le {type : Nat} (h : 6 ≤ type) : mmapTypeString type = "unknown" := by
  rw [mmapTypeString, if_neg (by omega), if_neg (by omega), if_neg (by omega), if_neg (by omega),
    if_neg (by omega)]

/-- A name is that of the type in the log. -/
theorem mmapTypeString_logged (r : MmapRegion) :
    mmapTypeString r.logged.type = mmapTypeString r.type := by
  rw [MmapRegion.logged]
  by_cases h : r.type < 6
  · simp only [if_pos h]
  · simp only [if_neg h]
    rw [mmapTypeString_of_le (Nat.le_of_not_lt h)]
    rfl

theorem type_logged_lt (r : MmapRegion) : r.logged.type < 6 := by
  rw [MmapRegion.logged]
  by_cases h : r.type < 6
  · simp only [if_pos h]
    exact h
  · simp only [if_neg h]
    decide

/-- The names are different, and have no character that ends a line. -/
theorem mmapTypeString_names : ∀ type < 6, readType (text (mmapTypeString type)) = some type ∧
    newline ∉ text (mmapTypeString type) ∧
    ∀ c ∈ text (mmapTypeString type), decide (c ≠ carriageReturn) = true := by
  decide +kernel

/-- The fields of a region have 64 bits. -/
structure MmapRegion.Fits (r : MmapRegion) : Prop where
  base : r.base < 2 ^ 64
  length : r.length < 2 ^ 64

/-- A region is read back. -/
theorem readRegion_print {r : MmapRegion} (h : r.Fits) (t : List UInt8) :
    readRegion (printRegion r ++ t) = some (r.logged, t) := by
  obtain ⟨base, hbase, hbase'⟩ := serialWriteHexU64_prints h.base
  obtain ⟨length, hlength, hlength'⟩ := serialWriteHexU64_prints h.length
  obtain ⟨htype, hline, hname⟩ := mmapTypeString_names _ (type_logged_lt r)
  rw [mmapTypeString_logged] at htype hline hname
  have hend : serialWrite (text "\n") = [carriageReturn, newline] := by decide
  have hprint : printRegion r ++ t = text "mmap: base=0x" ++ (base ++ (text " length=0x" ++
      (length ++ (text " type=" ++ (text (mmapTypeString r.type) ++
        (carriageReturn :: newline :: t)))))) := by
    rw [printRegion, hbase, hlength, hend, serialWrite_plain hline,
      serialWrite_plain (s := text "mmap: base=") (by decide),
      serialWrite_plain (s := text " length=") (by decide),
      serialWrite_plain (s := text " type=") (by decide)]
    simp only [List.append_assoc]
    rfl
  have hbase'' : ∀ t, readField 16 (base ++ (text " length=0x" ++ t))
      = some (r.base, text " length=0x" ++ t) := fun t => readField_append hbase' (by decide)
  have hlength'' : ∀ t, readField 16 (length ++ (text " type=" ++ t))
      = some (r.length, text " type=" ++ t) := fun t => readField_append hlength' (by decide)
  have hstop : decide (carriageReturn ≠ carriageReturn) = false := by decide
  have hcrlf : Field.lit [carriageReturn, newline] (carriageReturn :: newline :: t) = some t :=
    Field.lit_append [carriageReturn, newline] t
  rw [hprint]
  simp only [readRegion, Field.lit_append, hbase'', hlength'', Field.takeWhile_field hname hstop,
    Field.dropWhile_field hname hstop, htype, hcrlf, bind, Option.bind, pure]
  rfl

/-! ## The whole log -/

/-- All regions are read back. -/
theorem readRegions_print : ∀ {regions : List MmapRegion}, (∀ r ∈ regions, r.Fits) →
    readRegions regions.length (regions.flatMap printRegion)
      = some (regions.map MmapRegion.logged)
  | [], _ => rfl
  | r :: regions, h => by
      rw [List.length_cons, List.flatMap_cons, readRegions,
        readRegion_print (h r List.mem_cons_self)]
      simp only [bind, Option.bind, pure,
        readRegions_print fun r' hr' => h r' (List.mem_cons_of_mem _ hr'), List.map_cons]

theorem readMmapLog_print {regions : List MmapRegion} (hlen : regions.length < 2 ^ 64)
    (h : ∀ r ∈ regions, r.Fits) (stack : Mem) :
    ∃ out, multiboot2PrintMmap stack regions = some out ∧
      readMmapLog out = some (regions.map MmapRegion.logged) := by
  have hcount : ∀ t, readField 10 (decimal regions.length ++ (text " regions\r\n" ++ t))
      = some (regions.length, text " regions\r\n" ++ t) := fun t =>
    readField_append (prints_decimal hlen) (by decide)
  have hline : serialWrite (text " regions\n") = text " regions\r\n" := by decide
  have hdec : serialWriteDecU64 stack (multiboot2GetMmap regions).1
      = some (decimal regions.length) := serialWriteDecU64_eq hlen stack
  refine ⟨_, by rw [multiboot2PrintMmap, hdec]; rfl, ?_⟩
  rw [hline, serialWrite_plain (s := text "mmap: detected ") (by decide)]
  simp only [readMmapLog, Field.lit_append, hcount, bind, Option.bind]
  exact readRegions_print h

/-! ## What is stored -/

section

variable {m : Mem}

theorem readEntry_fits (entry : Nat) : (readEntry m entry).Fits :=
  ⟨Mem.load_lt m 8 entry, Mem.load_lt m 8 (entry + 8)⟩

/-- The loop over the entries stores regions of 64 bits. -/
theorem readEntries_fits {entriesEnd entrySize : Nat} : ∀ {room entries : Nat}
    {regions : List MmapRegion}, (∀ r ∈ regions, r.Fits) →
      ∀ r ∈ readEntries m entriesEnd entrySize room entries regions, r.Fits
  | 0, _, _, h => h
  | room + 1, entries, regions, h => by
      rw [readEntries]
      split
      · refine readEntries_fits fun r hr => ?_
        rcases List.mem_append.mp hr with hr | hr
        · exact h r hr
        · rw [List.mem_singleton.mp hr]
          exact readEntry_fits entries
      · exact h

/-- So does the loop over the tags. -/
theorem parseStored_fits : ∀ {fuel ptr : Nat} {regions : List MmapRegion},
    (∀ r ∈ regions, r.Fits) → ∀ r ∈ parseStored m fuel ptr regions, r.Fits
  | 0, _, _, h => h
  | fuel + 1, ptr, regions, h => by
      rw [parseStored]
      split
      · exact h
      · refine parseStored_fits ?_
        rw [turnRegions]
        split
        · exact readEntries_fits h
        · exact h

end

/-- `pmm_init` goes by what is in the log. -/
theorem freeRegion_logged (s : Pmm) (r : MmapRegion) : freeRegion s r.logged = freeRegion s r := by
  by_cases h : r.type < 6
  · have hsame : r.logged = r := by
      rw [MmapRegion.logged, if_pos h]
    rw [hsame]
  · have hlogged : r.logged.type ≠ mmapTypeAvailable := by
      rw [MmapRegion.logged]
      simp only [if_neg h]
      decide
    have htype : r.type ≠ mmapTypeAvailable := by
      rw [mmapTypeAvailable]
      omega
    rw [freeRegion, freeRegion, if_pos hlogged, if_pos htype]

/-- Whatever the boot loader has left in memory: if `multiboot2_parse_mmap` comes to an end,
`multiboot2_print_mmap` writes a log from which the regions are read back, and with the regions
of the log `pmm_init` does what it does with those in memory. -/
theorem mmapLog_tells {m : Mem} {fuel a : Nat} {regions : List MmapRegion}
    (h : multiboot2ParseMmap m fuel a = some regions) (stack : Mem) :
    ∃ out, multiboot2PrintMmap stack regions = some out ∧
      readMmapLog out = some (regions.map MmapRegion.logged) ∧
      ∀ img s, pmmInit img (regions.map MmapRegion.logged) s = pmmInit img regions s := by
  have hstored := parseTags_stored h
  have hlen : regions.length ≤ 32 := by
    rw [← hstored]
    exact length_parseStored_le (Nat.zero_le _)
  have hfits : ∀ r ∈ regions, r.Fits := by
    rw [← hstored]
    exact parseStored_fits fun r hr => absurd hr List.not_mem_nil
  obtain ⟨out, hout, hread⟩ := readMmapLog_print (by omega) hfits stack
  refine ⟨out, hout, hread, fun img s => ?_⟩
  simp only [pmmInit, List.foldl_map, freeRegion_logged]

/-- The log of the sample block. -/
theorem mmapLog_tells_sample :
    ∃ out, multiboot2PrintMmap (fun _ => 0) [⟨0x100000, 0x7ee0000, 1⟩] = some out ∧
      readMmapLog out = some [⟨0x100000, 0x7ee0000, 1⟩] := by
  have hparse : multiboot2ParseMmap (Mem.ofBytes 0x8000 sampleBlock.bytes) 3 0x8000
      = some [⟨0x100000, 0x7ee0000, 1⟩] := by decide +kernel
  obtain ⟨out, hout, hread, -⟩ := mmapLog_tells hparse (fun _ => 0)
  exact ⟨out, hout, hread⟩

end TunaOs
