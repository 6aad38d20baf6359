import Mathlib.Data.Nat.Count
import TunaOs.Multiboot2.Parse

/-!
# What the walk over the tags reads

Neither loop of `multiboot2_parse_mmap` looks at `total_size`.  The outer one ends only at a tag
of type 0, and it stays where it is if the size of a tag rounds up to 0; the inner one follows
the two sizes in the tag.

`multiboot2Reads` is the walk with a record of what it reads, and `multiboot2Stored` what it
has stored after some number of tags.  `TagsFit` says of the bytes of a block that its tags form
a chain that ends at a tag of type 0, all inside the block.  The walk is robust exactly for such
blocks (`parseMmap_robust_iff`).
-/

namespace TunaOs

open Word

/-! ## The walk with its reads -/

/-- The reads of the loop over the entries of a tag, each an address and a number of bytes: three
fields of the entry, and `mmap->entry_size` to go on. -/
def entryReads (mmap entriesEnd entrySize : Nat) : Nat → Nat → List (Nat × Nat)
  | 0, _ => []
  | room + 1, entries =>
      if entries < entriesEnd then
        (entries, 8) :: (entries + 8, 8) :: (entries + 16, 4) :: (mmap + 8, 4) ::
          entryReads mmap entriesEnd entrySize room (wrap64 (entries + entrySize))
      else []

/-- The reads of a turn of the loop over the tags. -/
def tagReads (m : Mem) (ptr : Nat) (regions : List MmapRegion) : List (Nat × Nat) :=
  (ptr, 4) ::
    if tagType m ptr = multiboot2TagTypeEnd then []
    else
      (if tagType m ptr = multiboot2TagTypeMmap then
        (ptr + 4, 4) :: entryReads ptr (wrap64 (ptr + tagSize m ptr)) (tagEntrySize m ptr)
          (mmapMaxRegions - regions.length) (wrap64 (ptr + tagMmapSize))
      else []) ++ [(ptr + 4, 4)]

/-- The pointer to the next tag. -/
def nextTag (m : Mem) (ptr : Nat) : Nat := wrap64 (ptr + alignTag (tagSize m ptr))

/-- The regions after the turn for a tag. -/
def turnRegions (m : Mem) (ptr : Nat) (regions : List MmapRegion) : List MmapRegion :=
  if tagType m ptr = multiboot2TagTypeMmap then readMmap m ptr regions else regions

/-- The reads of at most `fuel` turns. -/
def parseReads (m : Mem) : Nat → Nat → List MmapRegion → List (Nat × Nat)
  | 0, _, _ => []
  | fuel + 1, ptr, regions =>
      tagReads m ptr regions ++
        if tagType m ptr = multiboot2TagTypeEnd then []
        else parseReads m fuel (nextTag m ptr) (turnRegions m ptr regions)

/-- What is in `regions` after at most `fuel` turns. -/
def parseStored (m : Mem) : Nat → Nat → List MmapRegion → List MmapRegion
  | 0, _, regions => regions
  | fuel + 1, ptr, regions =>
      if tagType m ptr = multiboot2TagTypeEnd then regions
      else parseStored m fuel (nextTag m ptr) (turnRegions m ptr regions)

/-- What `multiboot2_parse_mmap` reads in at most `fuel` turns. -/
def multiboot2Reads (m : Mem) (fuel multiboot2Addr : Nat) : List (Nat × Nat) :=
  parseReads m fuel (wrap64 (multiboot2Addr + 8)) []

/-- What it has stored after at most `fuel` turns. -/
def multiboot2Stored (m : Mem) (fuel multiboot2Addr : Nat) : List MmapRegion :=
  parseStored m fuel (wrap64 (multiboot2Addr + 8)) []

theorem parseTags_succ (m : Mem) (fuel ptr : Nat) (regions : List MmapRegion) :
    parseTags m (fuel + 1) ptr regions =
      if tagType m ptr = multiboot2TagTypeEnd then some regions
      else parseTags m fuel (nextTag m ptr) (turnRegions m ptr regions) := rfl

/-- What is stored is what the walk returns. -/
theorem parseTags_stored {m : Mem} : ∀ {fuel ptr : Nat} {regions rs : List MmapRegion},
    parseTags m fuel ptr regions = some rs → parseStored m fuel ptr regions = rs
  | fuel + 1, ptr, regions, rs, h => by
      rw [parseTags_succ] at h
      rw [parseStored]
      split at h
      case isTrue hend => rw [if_pos hend, Option.some.inj h]
      case isFalse hend => rw [if_neg hend, parseTags_stored h]

/-- The block is parsed: the walk ends, it reads only bytes of the `n` bytes at `a`, and at no
time more than 32 regions are stored. -/
structure ParseRobust (m : Mem) (a n : Nat) : Prop where
  ends : ∃ fuel, multiboot2ParseMmap m fuel a = some (multiboot2Stored m fuel a)
  within : ∀ fuel, ∀ rd ∈ multiboot2Reads m fuel a, a ≤ rd.1 ∧ rd.1 + rd.2 ≤ a + n
  stored : ∀ fuel, (multiboot2Stored m fuel a).length ≤ 32

/-! ## Blocks whose tags fit -/

/-- The entries that the walk reads of the tag at offset `o`, with `c` regions stored, lie in the
block: those that begin inside the tag, as long as there is room. -/
def EntriesFit (m : Mem) (a n o c : Nat) : Prop :=
  ∀ i, i < 32 - c → 16 + i * tagEntrySize m (a + o) < tagSize m (a + o) →
    o + (16 + i * tagEntrySize m (a + o)) + 20 ≤ n

/-- The number of those entries. -/
def entriesStored (m : Mem) (a o c : Nat) : Nat :=
  if tagType m (a + o) = multiboot2TagTypeMmap then
    Nat.count (fun i => 16 + i * tagEntrySize m (a + o) < tagSize m (a + o)) (32 - c)
  else 0

/-- The tags of a block of `n` bytes at `a` from offset `o` on, with `c` regions stored: each of
them lies in the block with the entries that are read, the next one is where the rounded size
says, and the last one has type 0. -/
inductive TagsFit (m : Mem) (a n : Nat) : Nat → Nat → Prop
  | last {o c : Nat} (hin : o + 4 ≤ n) (hend : tagType m (a + o) = multiboot2TagTypeEnd) :
      TagsFit m a n o c
  | tag {o c : Nat} (hin : o + 8 ≤ n) (hend : tagType m (a + o) ≠ multiboot2TagTypeEnd)
      (hentries : tagType m (a + o) = multiboot2TagTypeMmap → EntriesFit m a n o c)
      (hrest : TagsFit m a n (o + alignTag (tagSize m (a + o))) (c + entriesStored m a o c)) :
      TagsFit m a n o c

/-! ## One tag -/

section

variable {m : Mem} {a n : Nat}

theorem tagSize_lt (m : Mem) (p : Nat) : tagSize m p < 2 ^ 32 := Mem.load_lt m 4 _

theorem tagEntrySize_lt (m : Mem) (p : Nat) : tagEntrySize m p < 2 ^ 32 := Mem.load_lt m 4 _

theorem alignTag_lt (size : Nat) : alignTag size < 2 ^ 32 :=
  Nat.lt_of_le_of_lt Nat.and_le_left (wrap32_lt _)

/-- The reads of the loop over the entries lie in the block exactly if those entries do. -/
theorem entryReads_within {mmap entriesEnd entrySize : Nat}
    (hlt : entriesEnd + entrySize < 2 ^ 64) : ∀ {room entries : Nat},
    (∀ rd ∈ entryReads mmap entriesEnd entrySize room entries, a ≤ rd.1 ∧ rd.1 + rd.2 ≤ a + n) ↔
      ∀ i, i < room → entries + i * entrySize < entriesEnd →
        (a ≤ mmap + 8 ∧ mmap + 12 ≤ a + n)
          ∧ a ≤ entries + i * entrySize ∧ entries + i * entrySize + 20 ≤ a + n
  | 0, entries => by simp [entryReads]
  | room + 1, entries => by
      by_cases hin : entries < entriesEnd
      · rw [entryReads, if_pos hin, wrap64_of_lt (by omega)]
        simp only [List.forall_mem_cons, entryReads_within hlt]
        constructor
        · rintro ⟨h0, h8, h16, hsize, hrest⟩ i hi hend
          cases i with
          | zero =>
              rw [Nat.zero_mul] at hend ⊢
              exact ⟨⟨hsize.1, by omega⟩, h0.1, by omega⟩
          | succ i =>
              rw [Nat.succ_mul, Nat.add_comm (i * entrySize), ← Nat.add_assoc] at hend ⊢
              exact hrest i (Nat.lt_of_succ_lt_succ hi) hend
        · intro h
          have h0 := h 0 (Nat.succ_pos room) (by rwa [Nat.zero_mul])
          rw [Nat.zero_mul] at h0
          obtain ⟨hsize, hlo, hhi⟩ := h0
          refine ⟨⟨hlo, by omega⟩, ⟨by omega, by omega⟩, ⟨by omega, by omega⟩,
            ⟨hsize.1, by omega⟩, fun i hi hend => ?_⟩
          have hi' := h (i + 1) (Nat.succ_lt_succ hi)
          rw [Nat.succ_mul, Nat.add_comm (i * entrySize), ← Nat.add_assoc] at hi'
          exact hi' hend
      · rw [entryReads, if_neg hin]
        refine iff_of_true (fun _ h => absurd h List.not_mem_nil) fun i _ hend => ?_
        omega

/-- The number of entries that are stored. -/
theorem length_readEntries {entriesEnd entrySize : Nat} (hlt : entriesEnd + entrySize < 2 ^ 64) :
    ∀ {room entries : Nat} {regions : List MmapRegion},
      (readEntries m entriesEnd entrySize room entries regions).length
        = regions.length + Nat.count (fun i => entries + i * entrySize < entriesEnd) room
  | 0, _, regions => by simp [readEntries]
  | room + 1, entries, regions => by
      by_cases hin : entries < entriesEnd
      · have hshift : ∀ i, entries + (i + 1) * entrySize = entries + entrySize + i * entrySize :=
          fun i => by rw [Nat.succ_mul, Nat.add_comm (i * entrySize), ← Nat.add_assoc]
        rw [readEntries, if_pos hin, wrap64_of_lt (by omega), length_readEntries hlt,
          Nat.count_succ', if_pos (by rwa [Nat.zero_mul])]
        simp only [hshift, List.length_append, List.length_singleton]
        omega
      · have hnone : Nat.count (fun i => entries + i * entrySize < entriesEnd) (room + 1) = 0 :=
          Nat.count_iff_forall_not.mpr fun i _ => by omega
        rw [readEntries, if_neg hin, hnone, Nat.add_zero]

/-- There is always room for what is stored. -/
theorem length_readEntries_le {entriesEnd entrySize : Nat} :
    ∀ {room entries : Nat} {regions : List MmapRegion},
      (readEntries m entriesEnd entrySize room entries regions).length ≤ regions.length + room
  | 0, _, regions => by simp [readEntries]
  | room + 1, entries, regions => by
      rw [readEntries]
      split
      · refine Nat.le_trans length_readEntries_le ?_
        simp only [List.length_append, List.length_singleton]
        omega
      · omega

theorem length_turnRegions_le {ptr : Nat} {regions : List MmapRegion} (h : regions.length ≤ 32) :
    (turnRegions m ptr regions).length ≤ 32 := by
  rw [turnRegions]
  split
  · refine Nat.le_trans length_readEntries_le ?_
    simp only [mmapMaxRegions]
    omega
  · exact h

theorem length_parseStored_le : ∀ {fuel ptr : Nat} {regions : List MmapRegion},
    regions.length ≤ 32 → (parseStored m fuel ptr regions).length ≤ 32
  | 0, _, _, h => h
  | fuel + 1, ptr, regions, h => by
      rw [parseStored]
      split
      · exact h
      · exact length_parseStored_le (length_turnRegions_le h)

variable (hfit : a + n + 2 ^ 33 ≤ 2 ^ 64) {o : Nat} {regions : List MmapRegion}

include hfit

theorem nextTag_eq (ho : o ≤ n) :
    nextTag m (a + o) = a + (o + alignTag (tagSize m (a + o))) := by
  have hlt := alignTag_lt (tagSize m (a + o))
  rw [nextTag, wrap64_of_lt (by omega), Nat.add_assoc]

/-- The regions after a tag that begins in the block. -/
theorem length_turnRegions (ho : o ≤ n) :
    (turnRegions m (a + o) regions).length
      = regions.length + entriesStored m a o regions.length := by
  have hsize := tagSize_lt m (a + o)
  have hentry := tagEntrySize_lt m (a + o)
  rw [turnRegions, entriesStored]
  split
  · rw [readMmap, wrap64_of_lt (by omega), wrap64_of_lt (by simp only [tagMmapSize]; omega),
      length_readEntries (by omega)]
    congr 1
    refine Bitmap.count_congr fun i _ => ?_
    simp only [tagMmapSize]
    omega
  · rw [Nat.add_zero]

/-- The reads of a tag other than the last one lie in the block exactly if it fits. -/
theorem tagReads_within (ho : o ≤ n) (hend : tagType m (a + o) ≠ multiboot2TagTypeEnd) :
    (∀ rd ∈ tagReads m (a + o) regions, a ≤ rd.1 ∧ rd.1 + rd.2 ≤ a + n) ↔
      o + 8 ≤ n
        ∧ (tagType m (a + o) = multiboot2TagTypeMmap → EntriesFit m a n o regions.length) := by
  have hsize := tagSize_lt m (a + o)
  have hentry := tagEntrySize_lt m (a + o)
  rw [tagReads, if_neg hend]
  by_cases hmmap : tagType m (a + o) = multiboot2TagTypeMmap
  · have hend_eq : wrap64 (a + o + tagSize m (a + o)) = a + o + tagSize m (a + o) :=
      wrap64_of_lt (by omega)
    have hstart_eq : wrap64 (a + o + tagMmapSize) = a + o + 16 :=
      wrap64_of_lt (show a + o + 16 < 2 ^ 64 by omega)
    rw [if_pos hmmap, hend_eq, hstart_eq]
    simp only [List.forall_mem_cons, List.forall_mem_append, List.cons_append,
      entryReads_within (show a + o + tagSize m (a + o) + tagEntrySize m (a + o) < 2 ^ 64 by omega),
      List.not_mem_nil, IsEmpty.forall_iff, implies_true, and_true, mmapMaxRegions]
    constructor
    · rintro ⟨-, ⟨-, h8⟩, hentries, -⟩
      refine ⟨by omega, fun _ i hi hlt => ?_⟩
      obtain ⟨-, -, hle⟩ := hentries i hi (by omega)
      omega
    · rintro ⟨h8, hentries⟩
      refine ⟨⟨by omega, by omega⟩, ⟨by omega, by omega⟩, fun i hi hlt => ?_, by omega, by omega⟩
      have hle := hentries hmmap i hi (by omega)
      exact ⟨⟨by omega, by omega⟩, by omega, by omega⟩
  · rw [if_neg hmmap]
    simp only [List.nil_append, List.forall_mem_cons, List.not_mem_nil, IsEmpty.forall_iff,
      implies_true, and_true, hmmap]
    omega

/-! ## The walk -/

/-- A walk that ends and reads inside the block goes over a chain of tags that fit. -/
theorem tagsFit_of_parse : ∀ {fuel o : Nat} {regions rs : List MmapRegion},
    parseTags m fuel (a + o) regions = some rs →
    (∀ rd ∈ parseReads m fuel (a + o) regions, a ≤ rd.1 ∧ rd.1 + rd.2 ≤ a + n) →
    TagsFit m a n o regions.length
  | fuel + 1, o, regions, rs, hparse, hreads => by
      rw [parseReads, List.forall_mem_append] at hreads
      have htype : o + 4 ≤ n := by
        have hfirst := hreads.1 (a + o, 4) List.mem_cons_self
        simp only at hfirst
        omega
      by_cases hend : tagType m (a + o) = multiboot2TagTypeEnd
      · exact .last htype hend
      · have ho : o ≤ n := by omega
        rw [parseTags_succ, if_neg hend] at hparse
        rw [if_neg hend] at hreads
        obtain ⟨h8, hentries⟩ := (tagReads_within hfit ho hend).mp hreads.1
        refine .tag h8 hend hentries ?_
        rw [nextTag_eq hfit ho] at hparse hreads
        rw [← length_turnRegions hfit ho]
        exact tagsFit_of_parse hparse hreads.2

/-- The walk over a chain of tags that fit. -/
theorem TagsFit.parse {o c : Nat} (h : TagsFit m a n o c) : ∀ {regions : List MmapRegion},
    regions.length = c →
    (∃ fuel rs, parseTags m fuel (a + o) regions = some rs) ∧
      ∀ fuel, ∀ rd ∈ parseReads m fuel (a + o) regions, a ≤ rd.1 ∧ rd.1 + rd.2 ≤ a + n := by
  induction h with
  | @last o c hin hend =>
      intro regions _
      refine ⟨⟨1, regions, by rw [parseTags_succ, if_pos hend]⟩, fun fuel rd hrd => ?_⟩
      cases fuel with
      | zero => exact absurd hrd List.not_mem_nil
      | succ fuel =>
          rw [parseReads, tagReads, if_pos hend, if_pos hend, List.append_nil,
            List.mem_singleton] at hrd
          rw [hrd]
          exact ⟨by simp only; omega, by simp only; omega⟩
  | @tag o c hin hend hentries _ ih =>
      intro regions hlen
      have ho : o ≤ n := by omega
      have hlen' : (turnRegions m (a + o) regions).length = c + entriesStored m a o c := by
        rw [length_turnRegions hfit ho, hlen]
      obtain ⟨⟨fuel₀, rs, hparse⟩, hreads⟩ := ih hlen'
      rw [← nextTag_eq hfit ho] at hparse hreads
      refine ⟨⟨fuel₀ + 1, rs, by rw [parseTags_succ, if_neg hend]; exact hparse⟩,
        fun fuel rd hrd => ?_⟩
      cases fuel with
      | zero => exact absurd hrd List.not_mem_nil
      | succ fuel =>
          rw [parseReads, if_neg hend] at hrd
          rcases List.mem_append.mp hrd with hrd | hrd
          · exact (tagReads_within hfit ho hend).mpr ⟨hin, hlen ▸ hentries⟩ rd hrd
          · exact hreads fuel rd hrd

end

/-- `multiboot2_parse_mmap` is robust exactly for the blocks whose tags fit.  The address is any
at which neither a tag size nor an entry size takes the pointers past the end of memory. -/
theorem parseMmap_robust_iff {m : Mem} {a n : Nat} (hfit : a + n + 2 ^ 33 ≤ 2 ^ 64) :
    ParseRobust m a n ↔ TagsFit m a n 8 0 := by
  have hstart : wrap64 (a + 8) = a + 8 := wrap64_of_lt (by omega)
  constructor
  · rintro ⟨⟨fuel, hparse⟩, hwithin, -⟩
    rw [multiboot2ParseMmap, hstart] at hparse
    have hreads := hwithin fuel
    rw [multiboot2Reads, hstart] at hreads
    exact tagsFit_of_parse hfit hparse hreads
  · intro htags
    obtain ⟨⟨fuel₀, rs, hends⟩, hwithin⟩ := htags.parse hfit
      (show ([] : List MmapRegion).length = 0 from rfl)
    refine ⟨?_, ?_, fun fuel => length_parseStored_le (Nat.zero_le 32)⟩
    · refine ⟨fuel₀, ?_⟩
      rw [multiboot2ParseMmap, multiboot2Stored, hstart, hends, parseTags_stored hends]
    · simpa only [multiboot2Reads, hstart] using hwithin

/-- A block with two tags and the tag that ends the list is parsed. -/
theorem parseMmap_robust_sample :
    ParseRobust (Mem.ofBytes 0x8000 sampleBlock.bytes) 0x8000 sampleBlock.bytes.length := by
  refine (parseMmap_robust_iff (by decide)).mpr ?_
  refine .tag (by decide) (by decide) (fun h => absurd h (by decide)) ?_
  refine .tag (by decide) (by decide) (fun _ i hi hlt => ?_) (.last (by decide) (by decide))
  -- the one entry of the second tag, which lies at offset 24
  have hoffset : 8 + alignTag (tagSize (Mem.ofBytes 0x8000 sampleBlock.bytes) (0x8000 + 8)) = 24 :=
    by decide
  have hentry : tagEntrySize (Mem.ofBytes 0x8000 sampleBlock.bytes) (0x8000 + 24) = 24 := by decide
  have hsize : tagSize (Mem.ofBytes 0x8000 sampleBlock.bytes) (0x8000 + 24) = 40 := by decide
  have hlen : sampleBlock.bytes.length = 72 := by decide
  rw [hoffset] at hlt ⊢
  rw [hentry, hsize] at hlt
  rw [hentry, hlen]
  omega

/-- A walk does not leave a tag whose rounded size is 0. -/
theorem parseTags_stuck {m : Mem} {p : Nat} (hend : tagType m p ≠ multiboot2TagTypeEnd)
    (hnext : nextTag m p = p) : ∀ (fuel : Nat) (regions : List MmapRegion),
    parseTags m fuel p regions = none
  | 0, _ => rfl
  | fuel + 1, regions => by
      rw [parseTags_succ, if_neg hend, hnext]
      exact parseTags_stuck hend hnext fuel _

/-- A block of 16 bytes: the header, and a tag of type 1 and size 0. -/
def zeroSizeBlock : List UInt8 :=
  Mem.leBytes 4 16 ++ Mem.leBytes 4 0 ++ (Mem.leBytes 4 1 ++ Mem.leBytes 4 0)

/-- The walk over that block does not end. -/
theorem parseMmap_stuck :
    (Mem.ofBytes 0x8000 zeroSizeBlock).load 0x8000 4 = zeroSizeBlock.length ∧
      ¬ ParseRobust (Mem.ofBytes 0x8000 zeroSizeBlock) 0x8000 zeroSizeBlock.length := by
  refine ⟨by decide, fun h => ?_⟩
  obtain ⟨fuel, hparse⟩ := h.ends
  rw [multiboot2ParseMmap, parseTags_stuck (by decide) (by decide)] at hparse
  cases hparse

end TunaOs
