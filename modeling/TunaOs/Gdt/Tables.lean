import Mathlib.Tactic.IntervalCases
import TunaOs.Gdt.Model

/-!
# What the processor finds in the tables

The packed structures are read back as numbers (`GdtDescriptor.bytes_eq`, `IdtEntry.bytes_eq`),
and the processor's decoding of those numbers inverts the encoding of the source: a base, a
limit or a handler that is cut into fields is put together again (`decode_tss`,
`decodeGate_gateEntry`).  `Installed` collects what the processor then finds, and `setup_spec`
says that setting the tables up raises no exception and installs them.
-/

namespace TunaOs

open Mem (leBytes Holds)
open Segment (Tables TableReg Exception Descriptor Gate)

/-! ## Structures as numbers -/

/-- A descriptor as a number. -/
def GdtDescriptor.word (d : GdtDescriptor) : Nat :=
  d.limitLow.toNat + 2 ^ 16 * d.baseLow.toNat + 2 ^ 32 * d.baseMid.toNat +
    2 ^ 40 * d.access.toNat + 2 ^ 48 * d.granularity.toNat + 2 ^ 56 * d.baseHigh.toNat

theorem GdtDescriptor.word_lt (d : GdtDescriptor) : d.word < 2 ^ 64 := by
  have h1 := d.limitLow.toNat_lt
  have h2 := d.baseLow.toNat_lt
  have h3 := d.baseMid.toNat_lt
  have h4 := d.access.toNat_lt
  have h5 := d.granularity.toNat_lt
  have h6 := d.baseHigh.toNat_lt
  rw [GdtDescriptor.word]
  omega

theorem GdtDescriptor.bytes_eq (d : GdtDescriptor) : d.bytes = leBytes 8 d.word := by
  have h1 := d.limitLow.toNat_lt
  have h2 := d.baseLow.toNat_lt
  have h3 := d.baseMid.toNat_lt
  have h4 := d.access.toNat_lt
  have h5 := d.granularity.toNat_lt
  simp only [GdtDescriptor.bytes, Mem.leBytes_append]
  congr 1
  rw [GdtDescriptor.word]
  omega

theorem GdtDescriptor.length_bytes (d : GdtDescriptor) : d.bytes.length = 8 := by
  rw [d.bytes_eq, Mem.length_leBytes]

/-- The low half of a gate as a number. -/
def IdtEntry.low (e : IdtEntry) : Nat :=
  e.offsetLow.toNat + 2 ^ 16 * e.selector.toNat + 2 ^ 32 * e.ist.toNat +
    2 ^ 40 * e.typeAttr.toNat + 2 ^ 48 * e.offsetMid.toNat

/-- The high half. -/
def IdtEntry.high (e : IdtEntry) : Nat := e.offsetHigh.toNat + 2 ^ 32 * e.zero.toNat

theorem IdtEntry.low_lt (e : IdtEntry) : e.low < 2 ^ 64 := by
  have h1 := e.offsetLow.toNat_lt
  have h2 := e.selector.toNat_lt
  have h3 := e.ist.toNat_lt
  have h4 := e.typeAttr.toNat_lt
  have h5 := e.offsetMid.toNat_lt
  rw [IdtEntry.low]
  omega

theorem IdtEntry.high_lt (e : IdtEntry) : e.high < 2 ^ 64 := by
  have h1 := e.offsetHigh.toNat_lt
  have h2 := e.zero.toNat_lt
  rw [IdtEntry.high]
  omega

theorem IdtEntry.bytes_eq (e : IdtEntry) : e.bytes = leBytes 8 e.low ++ leBytes 8 e.high := by
  have h1 := e.offsetLow.toNat_lt
  have h2 := e.selector.toNat_lt
  have h3 := e.ist.toNat_lt
  have h4 := e.typeAttr.toNat_lt
  have h5 := e.offsetMid.toNat_lt
  have h6 := e.offsetHigh.toNat_lt
  simp only [IdtEntry.bytes, Mem.leBytes_append]
  congr 1
  rw [IdtEntry.low, IdtEntry.high]
  omega

theorem IdtEntry.length_bytes (e : IdtEntry) : e.bytes.length = 16 := by
  rw [e.bytes_eq, List.length_append, Mem.length_leBytes, Mem.length_leBytes]

/-! ## Decoding -/

section

variable (base : UInt64) (limit : UInt32)

theorem toNat_and_low (x : UInt64) (k : Nat) (mask : UInt64) (hmask : mask.toNat = 2 ^ k - 1) :
    (x &&& mask).toNat = x.toNat % 2 ^ k := by
  rw [UInt64.toNat_and, hmask, Nat.and_two_pow_sub_one_eq_mod]

theorem toNat_and_low32 (x : UInt32) (k : Nat) (mask : UInt32) (hmask : mask.toNat = 2 ^ k - 1) :
    (x &&& mask).toNat = x.toNat % 2 ^ k := by
  rw [UInt32.toNat_and, hmask, Nat.and_two_pow_sub_one_eq_mod]

/-- The fields of `gdt[5]`. -/
theorem tssLow_fields : (tssLow base limit).word
    = limit.toNat % 2 ^ 16 + 2 ^ 16 * (base.toNat % 2 ^ 24) + 2 ^ 40 * 0x89
      + 2 ^ 48 * (limit.toNat / 2 ^ 16 % 2 ^ 4) + 2 ^ 56 * (base.toNat / 2 ^ 24 % 2 ^ 8) := by
  have h0 := base.toNat_lt
  have h1 := limit.toNat_lt
  simp only [GdtDescriptor.word, tssLow, UInt64.toNat_toUInt16, UInt32.toNat_toUInt16,
    UInt64.toNat_toUInt8, UInt32.toNat_toUInt8, toNat_and_low _ 16 0xFFFF rfl,
    toNat_and_low _ 8 0xFF rfl, toNat_and_low32 _ 16 0xFFFF rfl, toNat_and_low32 _ 4 0x0F rfl,
    UInt64.toNat_shiftRight, UInt32.toNat_shiftRight, Nat.shiftRight_eq_div_pow]
  simp only [show UInt64.toNat 16 % 64 = 16 from rfl, show UInt64.toNat 24 % 64 = 24 from rfl,
    show UInt32.toNat 16 % 32 = 16 from rfl, show UInt8.toNat 0x89 = 0x89 from rfl]
  omega

/-- The low half of `gdt[6]` is the upper half of the base. -/
theorem tssHigh_word : (tssHigh base).word = base.toNat / 2 ^ 32 := by
  have h0 := base.toNat_lt
  simp only [GdtDescriptor.word, tssHigh, GdtDescriptor.ofBytes, UInt16.toNat_ofNat',
    UInt32.toNat_toUInt8, UInt32.toNat_shiftRight, UInt64.toNat_toUInt32,
    toNat_and_low _ 32 0xFFFFFFFF rfl, UInt64.toNat_shiftRight, Nat.shiftRight_eq_div_pow]
  simp only [show UInt64.toNat 32 % 64 = 32 from rfl, show UInt32.toNat 8 % 32 = 8 from rfl,
    show UInt32.toNat 16 % 32 = 16 from rfl, show UInt32.toNat 24 % 32 = 24 from rfl,
    show UInt8.toNat 0 = 0 from rfl]
  omega

theorem gateEntry_low (typeAttr : UInt8) : (gateEntry base typeAttr).low
    = base.toNat % 2 ^ 16 + 2 ^ 16 * 8 + 2 ^ 40 * typeAttr.toNat
      + 2 ^ 48 * (base.toNat / 2 ^ 16 % 2 ^ 16) := by
  simp only [IdtEntry.low, gateEntry, UInt64.toNat_toUInt16, toNat_and_low _ 16 0xFFFF rfl,
    UInt64.toNat_shiftRight, Nat.shiftRight_eq_div_pow]
  simp only [show UInt64.toNat 16 % 64 = 16 from rfl, show UInt16.toNat 8 = 8 from rfl,
    show UInt8.toNat 0 = 0 from rfl]
  omega

theorem gateEntry_high (typeAttr : UInt8) :
    (gateEntry base typeAttr).high = base.toNat / 2 ^ 32 := by
  have h0 := base.toNat_lt
  simp only [IdtEntry.high, gateEntry, UInt64.toNat_toUInt32, toNat_and_low _ 32 0xFFFFFFFF rfl,
    UInt64.toNat_shiftRight, Nat.shiftRight_eq_div_pow]
  simp only [show UInt64.toNat 32 % 64 = 32 from rfl, show UInt32.toNat 0 = 0 from rfl]
  omega

end

/-- The fields of a descriptor are digits of it. -/
theorem decode_digits {l0 b0 t l1 b1 : Nat} (hl0 : l0 < 2 ^ 16) (hb0 : b0 < 2 ^ 24) (ht : t < 2 ^ 8)
    (hl1 : l1 < 2 ^ 4) (hb1 : b1 < 2 ^ 8) :
    Segment.decode (l0 + 2 ^ 16 * b0 + 2 ^ 40 * t + 2 ^ 48 * l1 + 2 ^ 56 * b1) =
      { base := b0 + 2 ^ 24 * b1, limit := l0 + 2 ^ 16 * l1, type := t % 2 ^ 4
        ordinary := decide (t / 2 ^ 4 % 2 = 1), dpl := t / 2 ^ 5 % 2 ^ 2
        present := decide (t / 2 ^ 7 % 2 = 1), long := false, big := false } := by
  have htype : (t + 2 ^ 8 * (l1 + 2 ^ 8 * b1)) % 2 ^ 4 = t % 2 ^ 4 := by omega
  have hordinary : (t + 2 ^ 8 * (l1 + 2 ^ 8 * b1)) / 2 ^ 4 % 2 = t / 2 ^ 4 % 2 := by omega
  have hdpl : (t + 2 ^ 8 * (l1 + 2 ^ 8 * b1)) / 2 ^ 5 % 2 ^ 2 = t / 2 ^ 5 % 2 ^ 2 := by omega
  have hpresent : (t + 2 ^ 8 * (l1 + 2 ^ 8 * b1)) / 2 ^ 7 % 2 = t / 2 ^ 7 % 2 := by omega
  have hlong : (l1 + 2 ^ 8 * b1) / 2 ^ 5 % 2 = 0 := by omega
  have hbig : (l1 + 2 ^ 8 * b1) / 2 ^ 6 % 2 = 0 := by omega
  have hlimit : (l1 + 2 ^ 8 * b1) % 2 ^ 4 = l1 := by omega
  generalize hw : l0 + 2 ^ 16 * b0 + 2 ^ 40 * t + 2 ^ 48 * l1 + 2 ^ 56 * b1 = w
  have hdiv : ∀ j k, w / 2 ^ (j + k) = w / 2 ^ j / 2 ^ k := fun j k => by
    rw [Nat.div_div_eq_div_mul, Nat.pow_add]
  have hlow : w % 2 ^ 16 = l0 := by omega
  have h16 : w / 2 ^ 16 % 2 ^ 24 = b0 := by omega
  have h40 : w / 2 ^ 40 = t + 2 ^ 8 * (l1 + 2 ^ 8 * b1) := by omega
  have h48 : w / 2 ^ 48 = l1 + 2 ^ 8 * b1 := by omega
  have h56 : w / 2 ^ 56 = b1 := by omega
  rw [Segment.decode, hlow, h16, h56, hdiv 40 4, hdiv 40 5, hdiv 40 7, hdiv 48 5, hdiv 48 6, h48,
    h40, htype, hordinary, hdpl, hpresent, hlong, hbig, hlimit, Nat.mod_eq_of_lt hb1]
  rfl

/-- The processor puts the base and the limit of the task state segment together again.  The
access byte may have been marked busy. -/
theorem decode_tss (base : UInt64) (limit : UInt32) (hlimit : limit.toNat < 2 ^ 20) (busy : Nat)
    (hbusy : busy < 4) : Segment.decode ((tssLow base limit).word + 2 ^ 40 * busy) =
    { base := base.toNat % 2 ^ 32, limit := limit.toNat, type := 9 + busy, ordinary := false
      dpl := 0, present := true, long := false, big := false } := by
  have hdigits : (tssLow base limit).word + 2 ^ 40 * busy
      = limit.toNat % 2 ^ 16 + 2 ^ 16 * (base.toNat % 2 ^ 24) + 2 ^ 40 * (0x89 + busy)
        + 2 ^ 48 * (limit.toNat / 2 ^ 16 % 2 ^ 4) + 2 ^ 56 * (base.toNat / 2 ^ 24 % 2 ^ 8) := by
    rw [tssLow_fields]
    omega
  rw [hdigits, decode_digits (Nat.mod_lt _ (by decide)) (Nat.mod_lt _ (by decide)) (by omega)
    (Nat.mod_lt _ (by decide)) (Nat.mod_lt _ (by decide)), Descriptor.mk.injEq]
  simp only [decide_eq_false_iff_not, decide_eq_true_eq]
  refine ⟨by omega, by omega, by omega, by omega, by omega, by omega, trivial, trivial⟩

/-- The fields of a gate are digits of its halves. -/
theorem decodeGate_digits {d0 d1 d2 t : Nat} (h0 : d0 < 2 ^ 16) (h1 : d1 < 2 ^ 16)
    (h2 : d2 < 2 ^ 32) (ht : t < 2 ^ 8) :
    Segment.decodeGate (d0 + 2 ^ 16 * 8 + 2 ^ 40 * t + 2 ^ 48 * d1) d2 =
      { offset := d0 + 2 ^ 16 * d1 + 2 ^ 32 * d2, selector := 8, ist := 0, type := t % 2 ^ 5,
        dpl := t / 2 ^ 5 % 2 ^ 2, present := decide (t / 2 ^ 7 % 2 = 1) } := by
  have htype : (t + 2 ^ 8 * d1) % 2 ^ 5 = t % 2 ^ 5 := by omega
  have hdpl : (t + 2 ^ 8 * d1) / 2 ^ 5 % 2 ^ 2 = t / 2 ^ 5 % 2 ^ 2 := by omega
  have hpresent : (t + 2 ^ 8 * d1) / 2 ^ 7 % 2 = t / 2 ^ 7 % 2 := by omega
  generalize hw : d0 + 2 ^ 16 * 8 + 2 ^ 40 * t + 2 ^ 48 * d1 = w
  have hdiv : ∀ j k, w / 2 ^ (j + k) = w / 2 ^ j / 2 ^ k := fun j k => by
    rw [Nat.div_div_eq_div_mul, Nat.pow_add]
  have hlow : w % 2 ^ 16 = d0 := by omega
  have h16 : w / 2 ^ 16 = 8 + 2 ^ 24 * (t + 2 ^ 8 * d1) := by omega
  have h32 : w / 2 ^ 32 = 2 ^ 8 * (t + 2 ^ 8 * d1) := by omega
  have h40 : w / 2 ^ 40 = t + 2 ^ 8 * d1 := by omega
  have h48 : w / 2 ^ 48 = d1 := by omega
  rw [Segment.decodeGate, hlow, hdiv 40 5, hdiv 40 7, h48, h16, h32, h40, htype, hdpl, hpresent,
    Nat.mod_eq_of_lt h1, Nat.mod_eq_of_lt h2, Gate.mk.injEq]
  exact ⟨rfl, by omega, by omega, rfl, rfl, rfl⟩

/-- The processor puts the address of a handler together again. -/
theorem decodeGate_gateEntry (handler : UInt64) (typeAttr : UInt8) :
    Segment.decodeGate (gateEntry handler typeAttr).low (gateEntry handler typeAttr).high =
      { offset := handler.toNat, selector := 8, ist := 0, type := typeAttr.toNat % 2 ^ 5,
        dpl := typeAttr.toNat / 2 ^ 5 % 2 ^ 2
        present := decide (typeAttr.toNat / 2 ^ 7 % 2 = 1) } := by
  have h0 := handler.toNat_lt
  have hoffset : handler.toNat % 2 ^ 16 + 2 ^ 16 * (handler.toNat / 2 ^ 16 % 2 ^ 16)
      + 2 ^ 32 * (handler.toNat / 2 ^ 32) = handler.toNat := by omega
  rw [gateEntry_low, gateEntry_high, decodeGate_digits (Nat.mod_lt _ (by decide))
    (Nat.mod_lt _ (by decide)) (by omega) typeAttr.toNat_lt, hoffset]

/-! ## The interrupt descriptor table -/

/-- The gates of the kernel. -/
def kernelGate (stub : Nat → UInt64) (n : Nat) : Gate :=
  if n < 48 then ⟨(stub n).toNat, 8, 0, 14, 0, true⟩
  else if n = 128 then ⟨(stub n).toNat, 8, 0, 15, 3, true⟩
  else ⟨0, 0, 0, 0, 0, false⟩

/-- The first loop of `idt_init`. -/
theorem clearGates_apply (idt : Nat → IdtEntry) : ∀ j < 256, Loop.forRange 0 idtEntries
    (fun i idt => Function.update idt i ⟨0, 0, 0, 0, 0, 0, 0⟩) idt j = ⟨0, 0, 0, 0, 0, 0, 0⟩ := by
  refine Loop.forRange_induct _
    (P := fun i (t : Nat → IdtEntry) => ∀ j < i, t j = ⟨0, 0, 0, 0, 0, 0, 0⟩)
    (Nat.zero_le _) (fun j hj => absurd hj (Nat.not_lt_zero j)) ?_
  intro i t _ _ ih j hj
  by_cases hji : j = i
  · rw [hji, Function.update_self]
  · rw [Function.update_of_ne hji]
    exact ih j (by omega)

/-- The second loop of `idt_init`. -/
theorem setGates_apply (stub : Nat → UInt64) {idt : Nat → IdtEntry}
    (hclear : ∀ j < 256, idt j = ⟨0, 0, 0, 0, 0, 0, 0⟩) : ∀ j < 256, Loop.forRange 0 isrStubCount
      (fun i => idtSetGate (UInt8.ofNat i) (stub i) idtGateInterrupt) idt j
        = if j < 48 then gateEntry (stub j) idtGateInterrupt else ⟨0, 0, 0, 0, 0, 0, 0⟩ := by
  refine Loop.forRange_induct _ (P := fun i (t : Nat → IdtEntry) => ∀ j < 256,
      t j = if j < i then gateEntry (stub j) idtGateInterrupt else ⟨0, 0, 0, 0, 0, 0, 0⟩)
    (Nat.zero_le _) hclear ?_
  intro i t _ hi ih j hj
  have hvector : (UInt8.ofNat i).toNat = i := by
    simp only [isrStubCount] at hi
    rw [UInt8.toNat_ofNat']
    omega
  rw [idtSetGate, hvector]
  by_cases hji : j = i
  · rw [hji, Function.update_self, if_pos (Nat.lt_succ_self i)]
  · rw [Function.update_of_ne hji, ih j hj]
    exact if_congr (by omega) rfl rfl

theorem idtInit_apply (stub : Nat → UInt64) (idt : Nat → IdtEntry) {n : Nat} (hn : n < 256) :
    idtInit stub idt n = if n = 128 then gateEntry (stub 128) idtGateTrapUser
      else if n < 48 then gateEntry (stub n) idtGateInterrupt else ⟨0, 0, 0, 0, 0, 0, 0⟩ := by
  rw [idtInit]
  by_cases h128 : n = 128
  · rw [if_pos h128, h128]
    exact Function.update_self ..
  · rw [if_neg h128]
    exact (Function.update_of_ne h128 ..).trans (setGates_apply stub (clearGates_apply idt) n hn)

/-- What the processor makes of the entries that `idt_init` writes. -/
theorem decodeGate_idtInit (stub : Nat → UInt64) (idt : Nat → IdtEntry) {n : Nat} (hn : n < 256) :
    Segment.decodeGate (idtInit stub idt n).low (idtInit stub idt n).high = kernelGate stub n := by
  rw [idtInit_apply stub idt hn, kernelGate]
  by_cases h128 : n = 128
  · subst h128
    rw [if_pos rfl, if_neg (by decide), if_pos rfl, decodeGate_gateEntry]
    rfl
  · rw [if_neg h128, if_neg h128]
    split
    · rw [decodeGate_gateEntry]
      rfl
    · rfl

/-! ## Installed tables -/

/-- The numbers in the global descriptor table, once the task register is loaded. -/
def kernelWord (tss : UInt64) : Nat → Nat
  | 1 => 0x00AF9A000000FFFF
  | 2 => 0x00CF92000000FFFF
  | 3 => 0x00CFF2000000FFFF
  | 4 => 0x00AFFA000000FFFF
  | 5 => (tssLow tss 103).word + 2 ^ 40 * 2
  | 6 => tss.toNat / 2 ^ 32
  | _ => 0

/-- They are those of `gdt_load_tss`, with the task state segment marked busy. -/
theorem kernelWord_eq (tss : UInt64) {i : Nat} (hi : i < 7) :
    ∃ d, (gdtLoadTss tss 103 gdtInit)[i]? = some d ∧
      d.word + (if i = 5 then 2 ^ 40 * 2 else 0) = kernelWord tss i := by
  have hconst : GdtDescriptor.zero.word = 0 ∧ (makeDescriptor 0x9A 0xA0).word = 0x00AF9A000000FFFF ∧
      (makeDescriptor 0x92 0xC0).word = 0x00CF92000000FFFF ∧
      (makeDescriptor 0xF2 0xC0).word = 0x00CFF2000000FFFF ∧
      (makeDescriptor 0xFA 0xA0).word = 0x00AFFA000000FFFF := by decide
  obtain ⟨h0, h1, h2, h3, h4⟩ := hconst
  interval_cases i
  · exact ⟨_, rfl, h0⟩
  · exact ⟨_, rfl, h1⟩
  · exact ⟨_, rfl, h2⟩
  · exact ⟨_, rfl, h3⟩
  · exact ⟨_, rfl, h4⟩
  · exact ⟨_, rfl, rfl⟩
  · exact ⟨_, rfl, tssHigh_word tss⟩

/-- The processor works with the tables of the kernel. -/
structure Installed (S : Statics) (tss : Tss) (T : Tables) : Prop where
  gdtr : T.gdtr = ⟨S.gdt, 55⟩
  idtr : T.idtr = ⟨S.idt, 4095⟩
  tr : T.tr = ⟨S.tss.toNat, 103⟩
  /-- The descriptors. -/
  word : ∀ i < 7, T.word i = kernelWord S.tss i
  /-- The gates. -/
  gate : ∀ n < 256, T.gate n = kernelGate S.stub n
  /-- The stack for level 0. -/
  rsp0 : T.mem.load (S.tss.toNat + 4) 8 = tss.rsp0 % 2 ^ 64
  /-- The offset of the map of ports. -/
  iopb : T.mem.load (S.tss.toNat + 102) 2 = tss.iopbOffset % 2 ^ 16

/-! ## Setting up -/

section

variable {T : Tables}

/-- A descriptor in a table of seven. -/
theorem descriptor_eq (sel : Nat) {w : Nat} (hlimit : T.gdtr.limit = 55) (htable : sel / 4 % 2 = 0)
    (hsel : sel / 8 < 7) (hw : T.word (sel / 8) = w) :
    T.descriptor sel = some (Segment.decode w) := by
  rw [Tables.descriptor, if_pos ⟨htable, by omega⟩, hw]

/-- A table in memory, as numbers. -/
theorem word_of_holds {gdt : List GdtDescriptor} (h : Holds T.mem T.gdtr.base (gdtBytes gdt))
    {i : Nat} {d : GdtDescriptor} (hd : gdt[i]? = some d) : T.word i = d.word := by
  have hrecord := Holds.record GdtDescriptor.length_bytes h hd
  rw [d.bytes_eq] at hrecord
  exact hrecord.load.trans (Nat.mod_eq_of_lt d.word_lt)

/-- `gdt_flush` finds the segments it loads. -/
theorem gdtFlush_ok (hlimit : T.gdtr.limit = 55) (h1 : T.word 1 = 0x00AF9A000000FFFF)
    (h2 : T.word 2 = 0x00CF92000000FFFF) {reload : Nat} (hreload : reload < 2 ^ 47) :
    gdtFlush T reload = .ok ⟨0x10, 0x10, 0x10, 0x10, 0x10, 0⟩ := by
  have hdata := descriptor_eq 0x10 hlimit rfl (by decide) h2
  have hcode := descriptor_eq 0x08 hlimit rfl (by decide) h1
  have hds : T.loadData 0 0x10 = .ok 0x10 := by
    rw [Tables.loadData, hdata]
    rfl
  have hss : T.loadSs 0 0x10 = .ok 0x10 := by
    rw [Tables.loadSs, hdata]
    rfl
  have hcs : T.returnTo 0 reload 0x08 0x10 = .ok 0 := by
    have hcanon : Word.canonical reload := Or.inl hreload
    rw [Tables.returnTo, hcode]
    simp only [hcanon, not_true_eq_false, if_false]
    rfl
  simp only [gdtFlush, hds, hss, bind, Except.bind, hcs, pure, Except.pure]

end

theorem length_tssBytes (t : Tss) : t.bytes.length = 104 := by
  simp only [Tss.bytes, List.length_append, Mem.length_leBytes]

theorem length_gdtBytes (gdt : List GdtDescriptor) : (gdtBytes gdt).length = 8 * gdt.length := by
  induction gdt with
  | nil => rfl
  | cons d gdt ih =>
      rw [gdtBytes, List.flatMap_cons, List.length_append, d.length_bytes, List.length_cons]
      rw [gdtBytes] at ih
      omega

theorem length_idtBytes (idt : Nat → IdtEntry) : (idtBytes idt).length = 4096 := by
  have hlen : ∀ es : List IdtEntry, (es.flatMap IdtEntry.bytes).length = 16 * es.length := by
    intro es
    induction es with
    | nil => rfl
    | cons e es ih =>
        rw [List.flatMap_cons, List.length_append, e.length_bytes, List.length_cons, ih]
        omega
  rw [idtBytes, hlen, List.length_map, List.length_range]
  rfl

section

variable (S : Statics) (tss : Tss) (T : Tables)

/-- The table that `gdt_load_tss` leaves, up to `ltr`. -/
theorem writeTss_word {i : Nat} {d : GdtDescriptor}
    (hd : (gdtLoadTss S.tss 103 gdtInit)[i]? = some d) :
    (S.writeTss tss (S.loadGdt T)).word i = d.word :=
  word_of_holds (Mem.holds_put ..) hd

theorem writeTss_access : (S.writeTss tss (S.loadGdt T)).mem (S.gdt + 40 + 5) = 0x89 := by
  have hrecord := Holds.record GdtDescriptor.length_bytes
    (Mem.holds_put ((S.loadGdt T).mem.put S.tss.toNat tss.bytes) S.gdt
      (gdtBytes (gdtLoadTss S.tss 103 gdtInit))) (i := 5) rfl
  exact Mem.holds_iff.mp hrecord 5 (by rw [GdtDescriptor.length_bytes]; decide)

/-- `ltr` reads back the address and the size of `tss`, and marks the descriptor. -/
theorem ltr_writeTss : (S.writeTss tss (S.loadGdt T)).ltr gdtTss = .ok
    { S.writeTss tss (S.loadGdt T) with
      mem := (S.writeTss tss (S.loadGdt T)).mem.set (S.gdt + 40 + 5) 0x8B
      tr := ⟨S.tss.toNat, 103⟩ } := by
  have hlow : (S.writeTss tss (S.loadGdt T)).word 5 = (tssLow S.tss 103).word :=
    writeTss_word S tss T rfl
  have hhigh : (S.writeTss tss (S.loadGdt T)).word 6 = S.tss.toNat / 2 ^ 32 :=
    (writeTss_word S tss T rfl).trans (tssHigh_word S.tss)
  have hdec := decode_tss S.tss 103 (by decide) 0 (by decide)
  rw [Nat.mul_zero, Nat.add_zero, ← hlow] at hdec
  have hacc := writeTss_access S tss T
  have hbase : S.tss.toNat % 2 ^ 32 + 2 ^ 32 * (S.tss.toNat / 2 ^ 32 % 2 ^ 32) = S.tss.toNat := by
    have := S.tss.toNat_lt
    omega
  have hgdtr : (S.writeTss tss (S.loadGdt T)).gdtr = ⟨S.gdt, 55⟩ := rfl
  generalize S.writeTss tss (S.loadGdt T) = T' at *
  simp only [Tables.ltr, gdtTss, hgdtr, show 0x28 / 8 = 5 from rfl, hdec, hhigh, hbase,
    show 8 * 5 = 40 from rfl, hacc]
  rfl

/-- The table behind `ltr`. -/
theorem word_marked {m : Mem} {a : Nat} {i : Nat} (h : m (a + 40 + 5) = 0x89) :
    (m.set (a + 40 + 5) 0x8B).load (a + 8 * i) 8
      = m.load (a + 8 * i) 8 + if i = 5 then 2 ^ 40 * 2 else 0 := by
  by_cases hi : i = 5
  · have hset := Mem.load_set (m := m) 0x8B (i := 5) (n := 8) (a := a + 40) (by decide)
    rw [h, show UInt8.toNat 0x89 = 0x89 from rfl, show UInt8.toNat 0x8B = 0x8B from rfl] at hset
    rw [if_pos hi, hi, show 8 * 5 = 40 from rfl]
    omega
  · rw [if_neg hi]
    exact (Mem.load_congr fun x h1 h2 => Mem.set_other (by omega)).trans (Nat.add_zero _).symm

/-- The fields of `tss` that the processor reads. -/
theorem tss_loads {m : Mem} {a : Nat} (h : Holds m a tss.bytes) :
    m.load (a + 4) 8 = tss.rsp0 % 2 ^ 64 ∧ m.load (a + 102) 2 = tss.iopbOffset % 2 ^ 16 := by
  obtain ⟨-, h⟩ := Mem.holds_append.mp h
  obtain ⟨hrsp0, h⟩ := Mem.holds_append.mp h
  obtain ⟨-, hiopb⟩ := Mem.holds_append.mp h
  simp only [Mem.length_leBytes] at hrsp0 hiopb
  exact ⟨hrsp0.load, hiopb.load⟩

/-- The gates that the processor reads. -/
theorem idt_gates {T : Tables} {idt : Nat → IdtEntry}
    (h : Holds T.mem T.idtr.base (idtBytes (idtInit S.stub idt))) {n : Nat} (hn : n < 256) :
    T.gate n = kernelGate S.stub n := by
  have hentry : ((List.range idtEntries).map (idtInit S.stub idt))[n]?
      = some (idtInit S.stub idt n) := by
    rw [List.getElem?_map, List.getElem?_range (show n < idtEntries from hn)]
    rfl
  have hrecord := Holds.record IdtEntry.length_bytes h hentry
  rw [IdtEntry.bytes_eq] at hrecord
  obtain ⟨hlow, hhigh⟩ := Mem.holds_append.mp hrecord
  rw [Mem.length_leBytes] at hhigh
  have hlow := hlow.load.trans (Nat.mod_eq_of_lt (IdtEntry.low_lt _))
  have hhigh := hhigh.load.trans (Nat.mod_eq_of_lt (IdtEntry.high_lt _))
  rw [Tables.gate, hlow, hhigh, decodeGate_idtInit S.stub idt hn]

/-- The tables of `kernel_main`: setting them up raises no exception, and the processor then
finds the segments, the gates and the stack that the source means. -/
theorem setup_spec (idt : Nat → IdtEntry) :
    ∃ T', S.setup tss idt T = .ok (⟨0x10, 0x10, 0x10, 0x10, 0x10, 0⟩, T') ∧ Installed S tss T' := by
  have hflush : gdtFlush (S.loadGdt T) S.reload = .ok ⟨0x10, 0x10, 0x10, 0x10, 0x10, 0⟩ :=
    gdtFlush_ok rfl
      ((word_of_holds (T := S.loadGdt T) (Mem.holds_put ..) (i := 1) rfl).trans (by decide))
      ((word_of_holds (T := S.loadGdt T) (Mem.holds_put ..) (i := 2) rfl).trans (by decide))
      S.reload_low
  refine ⟨_, by simp only [Statics.setup, hflush, ltr_writeTss, bind, Except.bind]; rfl, ?_⟩
  have haccess := writeTss_access S tss T
  have hword : ∀ i d, (gdtLoadTss S.tss 103 gdtInit)[i]? = some d →
      (S.writeTss tss (S.loadGdt T)).word i = d.word := fun i d => writeTss_word S tss T
  -- `tss` was written before `gdt` was written again
  have htss : Holds (S.writeTss tss (S.loadGdt T)).mem S.tss.toNat tss.bytes := by
    refine (Mem.holds_put ..).put ?_
    rw [length_tssBytes, length_gdtBytes]
    exact S.gdt_tss.symm
  have hgdtr : (S.writeTss tss (S.loadGdt T)).gdtr = ⟨S.gdt, 55⟩ := rfl
  generalize S.writeTss tss (S.loadGdt T) = T₂ at haccess hword htss hgdtr
  have hidt := length_idtBytes (idtInit S.stub idt)
  have happart := S.gdt_idt
  have happart' := S.tss_idt
  have happart'' := S.gdt_tss
  have htss' : Holds ((T₂.mem.set (S.gdt + 40 + 5) 0x8B).put S.idt (idtBytes (idtInit S.stub idt)))
      S.tss.toNat tss.bytes := by
    refine Holds.put (htss.congr fun x h1 h2 => Mem.set_other ?_) ?_
    · rw [length_tssBytes] at h2
      omega
    · rw [length_tssBytes, hidt]
      exact happart'
  constructor
  case gdtr => exact hgdtr
  case idtr => rfl
  case tr => rfl
  case word =>
    intro i hi
    have hload : Tables.word (S.loadIdt idt
        { T₂ with mem := T₂.mem.set (S.gdt + 40 + 5) 0x8B, tr := ⟨S.tss.toNat, 103⟩ }) i
          = T₂.word i + if i = 5 then 2 ^ 40 * 2 else 0 := by
      have hbase : T₂.gdtr.base = S.gdt := congrArg TableReg.base hgdtr
      have hmarked := word_marked (i := i) haccess
      rw [Tables.word, Tables.word, hbase, ← hmarked]
      change (Mem.put _ S.idt _).load (T₂.gdtr.base + 8 * i) 8 = _
      rw [hbase]
      exact Mem.load_overlay_other (by omega)
    obtain ⟨d, hd, heq⟩ := kernelWord_eq S.tss hi
    rw [hload, hword i d hd, heq]
  case gate => exact fun n hn => idt_gates S (Mem.holds_put ..) hn
  case rsp0 => exact (tss_loads tss htss').1
  case iopb => exact (tss_loads tss htss').2

end

end TunaOs
