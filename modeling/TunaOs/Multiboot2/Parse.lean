import TunaOs.Lib.Bytes
import TunaOs.Lib.Word
import TunaOs.Pmm.Model

/-!
# The memory map in the Multiboot2 information

`multiboot2_parse_mmap` walks over the tags of the information block and copies the entries
of the memory map tags, at most 32 of them, into the static array `regions`.

An information block is described by its parts: a header, tags with the padding up to the
next multiple of 8, and the tag that ends the list (`InfoBlock`).  Where the loader has laid
out such a block, the walk ends after one turn per tag, and what it has copied are the first
32 entries of the block (`parseMmap_decodes`).
-/

namespace TunaOs

open Word

/-! ## The walk -/

def multiboot2TagTypeEnd : Nat := 0

def multiboot2TagTypeMmap : Nat := 6

def mmapMaxRegions : Nat := 32

/-- `sizeof(struct multiboot2_tag_mmap)`. -/
def tagMmapSize : Nat := 16

/-- `tag->type`. -/
def tagType (m : Mem) (tag : Nat) : Nat := m.load tag 4

/-- `tag->size`. -/
def tagSize (m : Mem) (tag : Nat) : Nat := m.load (tag + 4) 4

/-- `mmap->entry_size`. -/
def tagEntrySize (m : Mem) (mmap : Nat) : Nat := m.load (mmap + 8) 4

/-- The fields of `struct multiboot2_mmap_entry` that are copied. -/
def readEntry (m : Mem) (entry : Nat) : MmapRegion where
  base := m.load entry 8
  length := m.load (entry + 8) 8
  type := m.load (entry + 16) 4

/-- The loop over the entries of a tag.  The first argument is the room that is left in
`regions`, and `regions` is what has been copied. -/
def readEntries (m : Mem) (entriesEnd entrySize : Nat) :
    Nat → Nat → List MmapRegion → List MmapRegion
  | 0, _, regions => regions
  | room + 1, entries, regions =>
      if entries < entriesEnd then
        readEntries m entriesEnd entrySize room (wrap64 (entries + entrySize))
          (regions ++ [readEntry m entries])
      else regions

/-- The turn of the loop for a memory map tag. -/
def readMmap (m : Mem) (mmap : Nat) (regions : List MmapRegion) : List MmapRegion :=
  readEntries m (wrap64 (mmap + tagSize m mmap)) (tagEntrySize m mmap)
    (mmapMaxRegions - regions.length) (wrap64 (mmap + tagMmapSize)) regions

/-- `ALIGN_UP(size, 8)`, which is computed in the 32 bits of `size`. -/
def alignTag (size : Nat) : Nat := wrap32 (size + 8 - 1) &&& 0xfffffff8

/-- The loop over the tags. -/
def parseTags (m : Mem) : Nat → Nat → List MmapRegion → Option (List MmapRegion)
  | 0, _, _ => none
  | fuel + 1, ptr, regions =>
      if tagType m ptr = multiboot2TagTypeEnd then some regions
      else
        parseTags m fuel (wrap64 (ptr + alignTag (tagSize m ptr)))
          (if tagType m ptr = multiboot2TagTypeMmap then readMmap m ptr regions else regions)

/-- `multiboot2_parse_mmap`: the first `region_count` elements of `regions` after it. -/
def multiboot2ParseMmap (m : Mem) (fuel multiboot2Addr : Nat) : Option (List MmapRegion) :=
  parseTags m fuel (wrap64 (multiboot2Addr + 8)) []

/-- `multiboot2_get_mmap`: the count, and the regions. -/
def multiboot2GetMmap (regions : List MmapRegion) : Nat × List MmapRegion :=
  (regions.length, regions)

theorem alignTag_eq {size : Nat} (h : size ≤ 2 ^ 32 - 8) : alignTag size = (size + 7) / 8 * 8 := by
  have hlt : size + 8 - 1 < 2 ^ 32 := by omega
  have hmask := congrArg (· % 2 ^ 32)
    (and_highMask (k := 3) (by decide) (x := size + 8 - 1) (by omega))
  simp only [Nat.and_mod_two_pow] at hmask
  rw [Nat.mod_eq_of_lt hlt, show highMask 3 % 2 ^ 32 = 0xfffffff8 from rfl,
    Nat.mod_eq_of_lt (by omega)] at hmask
  rw [alignTag, wrap32_of_lt hlt, hmask]
  rfl

/-! ## Information blocks -/

open Mem (Holds leBytes holds_append length_leBytes)

/-- An entry of a memory map tag. -/
structure MmapEntry where
  base : UInt64
  length : UInt64
  type : UInt32
  /-- The reserved field, and what an oversized entry has after it. -/
  rest : List UInt8

/-- The layout of an entry. -/
def MmapEntry.bytes (e : MmapEntry) : List UInt8 :=
  leBytes 8 e.base.toNat ++ (leBytes 8 e.length.toNat ++ (leBytes 4 e.type.toNat ++ e.rest))

/-- What the kernel keeps of an entry. -/
def MmapEntry.region (e : MmapEntry) : MmapRegion := ⟨e.base.toNat, e.length.toNat, e.type.toNat⟩

/-- A memory map tag. -/
structure MmapTag where
  entrySize : UInt32
  entryVersion : UInt32
  entries : List MmapEntry
  /-- An entry has at least the fields of `struct multiboot2_mmap_entry`. -/
  entrySize_ge : 24 ≤ entrySize.toNat
  /-- All entries have the size the tag says. -/
  entry_length : ∀ e ∈ entries, e.bytes.length = entrySize.toNat
  size_le : 16 + entries.length * entrySize.toNat ≤ 2 ^ 32 - 8

/-- A tag before the one that ends the list. -/
inductive Tag
  | mmap (t : MmapTag)
  | other (type : UInt32) (body : List UInt8) (hend : type ≠ 0) (hmmap : type ≠ 6)
      (hsize : 8 + body.length ≤ 2 ^ 32 - 8)

/-- The type field of a tag. -/
def Tag.type : Tag → Nat
  | .mmap _ => 6
  | .other type .. => type.toNat

/-- What follows the type and the size. -/
def Tag.body : Tag → List UInt8
  | .mmap t => leBytes 4 t.entrySize.toNat ++ (leBytes 4 t.entryVersion.toNat ++
      t.entries.flatMap MmapEntry.bytes)
  | .other _ body .. => body

/-- The size field of a tag. -/
def Tag.size (t : Tag) : Nat := 8 + t.body.length

/-- The regions a tag describes. -/
def Tag.regions : Tag → List MmapRegion
  | .mmap t => t.entries.map MmapEntry.region
  | .other .. => []

/-- The layout of a tag. -/
def Tag.bytes (t : Tag) : List UInt8 := leBytes 4 t.type ++ (leBytes 4 t.size ++ t.body)

/-- A tag with the bytes up to the next multiple of 8. -/
structure PaddedTag where
  tag : Tag
  padding : List UInt8
  aligned : (tag.size + padding.length) % 8 = 0
  short : padding.length < 8

def PaddedTag.bytes (t : PaddedTag) : List UInt8 := t.tag.bytes ++ t.padding

/-- An information block. -/
structure InfoBlock where
  header : List UInt8
  tags : List PaddedTag
  /-- The size field of the tag that ends the list. -/
  endSize : UInt32
  header_length : header.length = 8

/-- The tags of a block, from the first one to the one that ends the list. -/
def tagBytes (tags : List PaddedTag) (endSize : UInt32) : List UInt8 :=
  tags.flatMap PaddedTag.bytes ++ (leBytes 4 0 ++ leBytes 4 endSize.toNat)

/-- The layout of a block. -/
def InfoBlock.bytes (b : InfoBlock) : List UInt8 := b.header ++ tagBytes b.tags b.endSize

/-- The entries of all memory map tags, in order of appearance. -/
def InfoBlock.regions (b : InfoBlock) : List MmapRegion := b.tags.flatMap fun t => t.tag.regions

theorem MmapTag.length_entries (t : MmapTag) :
    (t.entries.flatMap MmapEntry.bytes).length = t.entries.length * t.entrySize.toNat := by
  have hsum : ∀ {es : List MmapEntry}, (∀ e ∈ es, e.bytes.length = t.entrySize.toNat) →
      (es.flatMap MmapEntry.bytes).length = es.length * t.entrySize.toNat := by
    intro es
    induction es with
    | nil => intro _; simp
    | cons e es ih =>
        intro h
        rw [List.flatMap_cons, List.length_append, h e List.mem_cons_self,
          ih fun e' he' => h e' (List.mem_cons_of_mem _ he'), List.length_cons, Nat.succ_mul,
          Nat.add_comm]
  exact hsum t.entry_length

theorem Tag.size_bounds (t : Tag) : 8 ≤ t.size ∧ t.size ≤ 2 ^ 32 - 8 := by
  refine ⟨Nat.le_add_right .., ?_⟩
  cases t with
  | mmap t =>
      have hle := t.size_le
      have hlen := t.length_entries
      simp only [Tag.size, Tag.body, List.length_append, length_leBytes]
      omega
  | other _ _ _ _ hsize => exact hsize

theorem Tag.length_bytes (t : Tag) : t.bytes.length = t.size := by
  simp only [Tag.bytes, Tag.size, List.length_append, length_leBytes]
  omega

/-- The next tag is as far away as the code computes. -/
theorem PaddedTag.length_bytes (t : PaddedTag) : t.bytes.length = alignTag t.tag.size := by
  have haligned := t.aligned
  have hshort := t.short
  rw [alignTag_eq t.tag.size_bounds.2, PaddedTag.bytes, List.length_append, t.tag.length_bytes]
  omega

/-! ## Decoding -/

section

variable {m : Mem}

theorem readEntry_eq {e : MmapEntry} {p : Nat} (h : Holds m p e.bytes) :
    readEntry m p = e.region := by
  simp only [MmapEntry.bytes, holds_append, length_leBytes, Nat.add_assoc] at h
  obtain ⟨hbase, hlength, htype, -⟩ := h
  rw [readEntry, hbase.load, hlength.load, htype.load, MmapEntry.region,
    Nat.mod_eq_of_lt (show _ < 256 ^ 8 from e.base.toNat_lt),
    Nat.mod_eq_of_lt (show _ < 256 ^ 8 from e.length.toNat_lt),
    Nat.mod_eq_of_lt (show _ < 256 ^ 4 from e.type.toNat_lt)]

/-- The loop over the entries copies as many of them as there is room for. -/
theorem readEntries_eq {entrySize : Nat} (hpos : 0 < entrySize) :
    ∀ {es : List MmapEntry} {room p : Nat} {regions : List MmapRegion},
      (∀ e ∈ es, e.bytes.length = entrySize) → Holds m p (es.flatMap MmapEntry.bytes) →
      p + es.length * entrySize < 2 ^ 64 →
      readEntries m (p + es.length * entrySize) entrySize room p regions
        = regions ++ (es.map MmapEntry.region).take room
  | _, 0, _, _, _, _, _ => by simp [readEntries]
  | [], room + 1, p, regions, _, _, _ => by simp [readEntries]
  | e :: es, room + 1, p, regions, hlen, hm, hlt => by
      rw [List.flatMap_cons, holds_append, hlen e List.mem_cons_self] at hm
      rw [List.length_cons, Nat.succ_mul, Nat.add_comm (es.length * entrySize),
        ← Nat.add_assoc] at hlt ⊢
      rw [readEntries, if_pos (by omega), readEntry_eq hm.1, wrap64_of_lt (by omega),
        readEntries_eq hpos (fun e' he' => hlen e' (List.mem_cons_of_mem _ he')) hm.2 hlt]
      simp

/-- The fields of a tag. -/
theorem Tag.fields {t : Tag} {p : Nat} (h : Holds m p t.bytes) :
    tagType m p = t.type ∧ tagSize m p = t.size ∧ Holds m (p + 8) t.body := by
  simp only [Tag.bytes, holds_append, length_leBytes, Nat.add_assoc] at h
  obtain ⟨htype, hsize, hbody⟩ := h
  have htype_lt : t.type < 256 ^ 4 := by
    cases t with
    | mmap => exact show 6 < 256 ^ 4 by decide
    | other type => exact type.toNat_lt
  have hsize_lt : t.size < 256 ^ 4 := by
    have := t.size_bounds.2
    omega
  rw [tagType, tagSize, htype.load, hsize.load, Nat.mod_eq_of_lt htype_lt,
    Nat.mod_eq_of_lt hsize_lt]
  exact ⟨rfl, rfl, hbody⟩

/-- The turn for a memory map tag copies its entries, as far as there is room. -/
theorem readMmap_eq {t : MmapTag} {p : Nat} {regions : List MmapRegion}
    (h : Holds m p (Tag.mmap t).bytes) (hlt : p + (Tag.mmap t).size < 2 ^ 64) :
    readMmap m p regions
      = regions ++ (t.entries.map MmapEntry.region).take (mmapMaxRegions - regions.length) := by
  obtain ⟨-, hsize, hbody⟩ := Tag.fields h
  simp only [Tag.body, holds_append, length_leBytes, Nat.add_assoc] at hbody
  obtain ⟨hentry, -, hentries⟩ := hbody
  have hentry_eq : tagEntrySize m p = t.entrySize.toNat := by
    rw [tagEntrySize, hentry.load, Nat.mod_eq_of_lt (show _ < 256 ^ 4 from t.entrySize.toNat_lt)]
  have hsize_eq : (Tag.mmap t).size = 16 + t.entries.length * t.entrySize.toNat := by
    simp only [Tag.size, Tag.body, List.length_append, length_leBytes, t.length_entries]
    omega
  rw [hsize_eq] at hsize hlt
  have hge := t.entrySize_ge
  rw [readMmap, hsize, hentry_eq, tagMmapSize, wrap64_of_lt hlt, wrap64_of_lt (by omega),
    ← Nat.add_assoc]
  exact readEntries_eq (by omega) t.entry_length hentries (by omega)

theorem Tag.type_ne_end (t : Tag) : t.type ≠ multiboot2TagTypeEnd := by
  cases t with
  | mmap => exact show 6 ≠ 0 by decide
  | other type _ hend => exact fun h => hend (UInt32.toNat_inj.mp h)

/-- The turn for any tag. -/
theorem turn_eq {t : Tag} {p : Nat} {regions : List MmapRegion} (h : Holds m p t.bytes)
    (hlt : p + t.size < 2 ^ 64) :
    (if tagType m p = multiboot2TagTypeMmap then readMmap m p regions else regions)
      = regions ++ t.regions.take (mmapMaxRegions - regions.length) := by
  rw [(Tag.fields h).1]
  cases t with
  | mmap t => exact (if_pos rfl).trans (readMmap_eq h hlt)
  | other type body hend hmmap hsize =>
      have hne : (Tag.other type body hend hmmap hsize).type ≠ multiboot2TagTypeMmap :=
        fun heq => hmmap (UInt32.toNat_inj.mp heq)
      rw [if_neg hne]
      simp [Tag.regions]

/-- The walk over the tags, one turn for each. -/
theorem parseTags_eq {endSize : UInt32} : ∀ {tags : List PaddedTag} {p fuel : Nat}
    {regions : List MmapRegion}, Holds m p (tagBytes tags endSize) →
    p + (tagBytes tags endSize).length ≤ 2 ^ 64 → tags.length < fuel →
    parseTags m fuel p regions
      = some (regions ++
          (tags.flatMap fun t => t.tag.regions).take (mmapMaxRegions - regions.length))
  | _, _, 0, _, _, _, hfuel => absurd hfuel (Nat.not_lt_zero _)
  | [], p, fuel + 1, regions, hm, _, _ => by
      simp only [tagBytes, List.flatMap_nil, List.nil_append, holds_append] at hm
      have hend : tagType m p = multiboot2TagTypeEnd := by rw [tagType, hm.1.load]; rfl
      rw [parseTags, if_pos hend]
      simp
  | t :: tags, p, fuel + 1, regions, hm, hlt, hfuel => by
      have hcons : tagBytes (t :: tags) endSize = t.bytes ++ tagBytes tags endSize := by
        simp only [tagBytes, List.flatMap_cons, List.append_assoc]
      have hend : 8 ≤ (tagBytes tags endSize).length := by
        simp only [tagBytes, List.length_append, length_leBytes]
        omega
      rw [hcons, holds_append, t.length_bytes] at hm
      rw [hcons, List.length_append, t.length_bytes] at hlt
      obtain ⟨htag, hrest⟩ := hm
      have htag' : Holds m p t.tag.bytes := (holds_append.mp htag).1
      have hle : t.tag.size ≤ alignTag t.tag.size := by
        rw [← t.length_bytes, PaddedTag.bytes, List.length_append, t.tag.length_bytes]
        exact Nat.le_add_right ..
      obtain ⟨htype, hsize, -⟩ := Tag.fields htag'
      rw [parseTags, turn_eq htag' (by omega), htype, hsize, if_neg t.tag.type_ne_end,
        wrap64_of_lt (by omega),
        parseTags_eq hrest (by omega) (Nat.lt_of_succ_lt_succ hfuel), List.flatMap_cons,
        List.take_append, List.append_assoc, List.length_append, List.length_take]
      congr 4
      omega

end

/-- The walk over an information block anywhere in memory ends after one turn per tag, and
`multiboot2_get_mmap` then gives the first 32 entries of the memory map tags. -/
theorem parseMmap_decodes (b : InfoBlock) {m : Mem} {a : Nat} (hm : Holds m a b.bytes)
    (hfit : a + b.bytes.length ≤ 2 ^ 64) {fuel : Nat} (hfuel : b.tags.length < fuel) :
    (multiboot2ParseMmap m fuel a).map multiboot2GetMmap
      = some (min mmapMaxRegions b.regions.length, b.regions.take mmapMaxRegions) := by
  have htags : 8 ≤ (tagBytes b.tags b.endSize).length := by
    simp only [tagBytes, List.length_append, length_leBytes]
    omega
  rw [InfoBlock.bytes, holds_append, b.header_length] at hm
  rw [InfoBlock.bytes, List.length_append, b.header_length] at hfit
  rw [multiboot2ParseMmap, wrap64_of_lt (by omega), parseTags_eq hm.2 (by omega) hfuel]
  simp [multiboot2GetMmap, InfoBlock.regions]

theorem entrySize_mmapEntry : 24 ≤ (24 : UInt32).toNat := by decide

theorem length_noPadding : ([] : List UInt8).length < 8 := by decide

theorem length_zeroHeader : (List.replicate 8 (0 : UInt8)).length = 8 := rfl

/-- A block with a string tag and a memory map of one entry. -/
def sampleBlock : InfoBlock where
  header := List.replicate 8 0
  tags := [
    ⟨.other 1 [0x61, 0x62, 0] (by decide) (by decide) (by decide), [1, 2, 3, 4, 5], rfl, by decide⟩,
    ⟨.mmap ⟨24, 0, [⟨0x100000, 0x7ee0000, 1, [0, 0, 0, 0]⟩], entrySize_mmapEntry, by decide,
      by decide⟩, [], rfl, length_noPadding⟩]
  endSize := 8
  header_length := length_zeroHeader

theorem parseMmap_decodes_sample :
    (multiboot2ParseMmap (Mem.ofBytes 0x8000 sampleBlock.bytes) 3 0x8000).map multiboot2GetMmap
      = some (1, [⟨0x100000, 0x7ee0000, 1⟩]) :=
  parseMmap_decodes sampleBlock (Mem.holds_ofBytes ..) (by decide) (by decide)

end TunaOs
