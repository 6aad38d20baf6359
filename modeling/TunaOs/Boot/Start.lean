import TunaOs.Boot.Model
import TunaOs.Kernel.Supply
import TunaOs.Vmm.Count

/-!
# From the boot loader to the kernel's own tables

`boot.S` from what the boot loader leaves: `BootCpu.Entered.paged` is the 32-bit part, which ends
with paging on, `BootCpu.Paged.started` the rest, which ends in `kernel_main`.  From then on the
kernel runs on the tables of `boot.S` until `vmm_init` loads CR3.  `walk_bootTables` is the walk
of the hardware through them.

The model of the kernel has no such walk: as long as CR3 is not loaded, `Mach.translate` maps the
first gigabyte to itself.  `boot_starts_kernel` states that this is what the hardware does, after
each page that `vmm_init` maps: the frames that it writes are not those of the image.  It is about
the bus `phys`, on which the writes of `vmm_init` go to the frames they name.
-/

namespace TunaOs

open LongMode (Control Page entryAt walkFrom target)
open Mem (Holds leBytes)

/-! ## The tables -/

section

variable {m : Mem} {pml4 a : Nat}

theorem load_bootTables (h : Holds m pml4 (bootTables pml4)) {i e : Nat}
    (he : (bootEntries pml4)[i]? = some e) (hlt : e < 2 ^ 64) : m.load (pml4 + 8 * i) 8 = e := by
  have hrec := Mem.Holds.record (Mem.length_leBytes 8) h he
  rw [hrec.load]
  exact Nat.mod_eq_of_lt hlt

theorem getElem?_table {x i : Nat} (hi : i < 512) :
    (x :: List.replicate 511 0)[i]? = some (if i = 0 then x else 0) := by
  cases i with
  | zero => rfl
  | succ i =>
      rw [List.getElem?_cons_succ, List.getElem?_replicate, if_pos (by omega),
        if_neg (Nat.succ_ne_zero i)]

theorem length_table (x : Nat) : (x :: List.replicate 511 0).length = 512 := by
  rw [List.length_cons, List.length_replicate]

theorem length_bootTables (pml4 : Nat) : (bootTables pml4).length = 12288 := by
  have hlen : ∀ l : List Nat, (l.flatMap (leBytes 8)).length = l.length * 8 := by
    intro l
    rw [List.length_flatMap]
    simp
  rw [bootTables, hlen, bootEntries, List.length_append, List.length_append, length_table,
    length_table, List.length_map, List.length_range]

/-- `pml4`. -/
theorem entry_pml4 (h : Holds m pml4 (bootTables pml4)) (hlow : pml4 + 12288 ≤ 2 ^ 30) :
    entryAt m pml4 39 a = if a / 2 ^ 39 % 512 = 0 then pml4 + 4096 + 3 else 0 := by
  have hi : a / 2 ^ 39 % 512 < 512 := Nat.mod_lt _ (by decide)
  refine load_bootTables h ?_ (by split <;> omega)
  rw [bootEntries, List.append_assoc, List.getElem?_append_left (by rw [length_table]; exact hi)]
  exact getElem?_table hi

/-- `pdpt`. -/
theorem entry_pdpt (h : Holds m pml4 (bootTables pml4)) (hlow : pml4 + 12288 ≤ 2 ^ 30) :
    entryAt m (pml4 + 4096) 30 a = if a / 2 ^ 30 % 512 = 0 then pml4 + 8192 + 3 else 0 := by
  have hi : a / 2 ^ 30 % 512 < 512 := Nat.mod_lt _ (by decide)
  have haddr : pml4 + 4096 + 8 * (a / 2 ^ 30 % 512) = pml4 + 8 * (512 + a / 2 ^ 30 % 512) := by
    omega
  rw [entryAt, haddr]
  refine load_bootTables h ?_ (by split <;> omega)
  rw [bootEntries, List.append_assoc, List.getElem?_append_right (by rw [length_table]; omega),
    length_table, Nat.add_sub_cancel_left,
    List.getElem?_append_left (by rw [length_table]; exact hi)]
  exact getElem?_table hi

/-- `pd0`. -/
theorem entry_pd0 (h : Holds m pml4 (bootTables pml4)) :
    entryAt m (pml4 + 8192) 21 a = 2 ^ 21 * (a / 2 ^ 21 % 512) + 0x83 := by
  have hi : a / 2 ^ 21 % 512 < 512 := Nat.mod_lt _ (by decide)
  have haddr : pml4 + 8192 + 8 * (a / 2 ^ 21 % 512) = pml4 + 8 * (1024 + a / 2 ^ 21 % 512) := by
    omega
  rw [entryAt, haddr]
  refine load_bootTables h ?_ (by omega)
  have hskip : 1024 + a / 2 ^ 21 % 512 - 512 - 512 = a / 2 ^ 21 % 512 := by omega
  rw [bootEntries, List.append_assoc, List.getElem?_append_right (by rw [length_table]; omega),
    length_table, List.getElem?_append_right (by rw [length_table]; omega), length_table, hskip,
    List.getElem?_map, List.getElem?_range hi, Option.map_some, Nat.mul_comm]
  rfl

/-- An entry of `pml4` or `pdpt` that is present. -/
theorem table_entry {t : Nat} (ht : t % 4096 = 0) (hlow : t < 2 ^ 52) :
    (t + 3).testBit 0 = true ∧ (t + 3).testBit 1 = true ∧ (t + 3).testBit 2 = false ∧
      (t + 3).testBit 7 = false ∧ target (t + 3) 12 = t := by
  obtain ⟨k, rfl⟩ : ∃ k, t = 2 ^ 12 * k := ⟨t / 4096, by omega⟩
  have hbit : ∀ i, i < 12 → (2 ^ 12 * k + 3).testBit i = Nat.testBit 3 i := by
    intro i hi
    rw [Nat.testBit_two_pow_mul_add _ (by decide), if_pos hi]
  refine ⟨hbit 0 (by decide), hbit 1 (by decide), hbit 2 (by decide), hbit 7 (by decide), ?_⟩
  rw [target]
  omega

/-- An entry of `pd0`. -/
theorem page_entry {i : Nat} (hi : i < 512) :
    (2 ^ 21 * i + 0x83).testBit 0 = true ∧ (2 ^ 21 * i + 0x83).testBit 1 = true ∧
      (2 ^ 21 * i + 0x83).testBit 2 = false ∧ (2 ^ 21 * i + 0x83).testBit 7 = true ∧
      (2 ^ 21 * i + 0x83) / 2 ^ 13 % 2 ^ (21 - 13) = 0 ∧
      target (2 ^ 21 * i + 0x83) 21 = i * 2 ^ 21 := by
  have hbit : ∀ j, j < 21 → (2 ^ 21 * i + 0x83).testBit j = Nat.testBit 0x83 j := by
    intro j hj
    rw [Nat.testBit_two_pow_mul_add _ (by decide), if_pos hj]
  refine ⟨hbit 0 (by decide), hbit 1 (by decide), hbit 2 (by decide), hbit 7 (by decide), ?_, ?_⟩
  · omega
  · rw [target]
    omega

/-- The tables map the first gigabyte to itself, for the kernel only, and nothing else. -/
theorem walk_bootTables (h : Holds m pml4 (bootTables pml4)) (hal : pml4 % 4096 = 0)
    (hlow : pml4 + 12288 ≤ 2 ^ 30) (ha : a < 2 ^ 64) (hc : Word.canonical a) :
    LongMode.walk m pml4 a =
      if a < 2 ^ 30 then some ⟨a / 2 ^ 21 * 2 ^ 21, 21, true, false⟩ else none := by
  have hroot : target pml4 12 = pml4 := by
    rw [target]
    omega
  rw [LongMode.walk, if_pos hc, hroot]
  rcases hc with hc | hc
  · by_cases h39 : a / 2 ^ 39 % 512 = 0
    · have he39 := (entry_pml4 (a := a) h hlow).trans (if_pos h39)
      obtain ⟨h0, h1, h2, h7, ht⟩ := table_entry (t := pml4 + 4096) (by omega) (by omega)
      rw [← he39] at h0 h1 h2 h7 ht
      rw [LongMode.walkFrom_table (by decide) h0 h7, ht, h1, h2]
      by_cases h30 : a / 2 ^ 30 % 512 = 0
      · have he30 := (entry_pdpt (a := a) h hlow).trans (if_pos h30)
        obtain ⟨h0, h1, h2, h7, ht⟩ := table_entry (t := pml4 + 8192) (by omega) (by omega)
        rw [← he30] at h0 h1 h2 h7 ht
        rw [LongMode.walkFrom_table (by decide) h0 h7, ht, h1, h2]
        have hidx : a / 2 ^ 21 % 512 = a / 2 ^ 21 := by omega
        have he21 := entry_pd0 (a := a) h
        rw [hidx] at he21
        obtain ⟨h0, h1, h2, h7, hres, ht⟩ := page_entry (i := a / 2 ^ 21) (by omega)
        rw [← he21] at h0 h1 h2 h7 hres ht
        rw [LongMode.walkFrom_large (by decide) (by decide) h0 h7 hres, ht, h1, h2,
          if_pos (by omega)]
        rfl
      · have he30 := (entry_pdpt (a := a) h hlow).trans (if_neg h30)
        rw [LongMode.walkFrom_absent (by rw [he30]; rfl), if_neg (by omega)]
    · have he39 := (entry_pml4 (a := a) h hlow).trans (if_neg h39)
      rw [LongMode.walkFrom_absent (by rw [he39]; rfl), if_neg (by omega)]
  · -- the upper half
    have h39 : ¬ a / 2 ^ 39 % 512 = 0 := by omega
    have he39 := (entry_pml4 (a := a) h hlow).trans (if_neg h39)
    rw [LongMode.walkFrom_absent (by rw [he39]; rfl), if_neg (by omega)]

end

/-! ## The code -/

/-- One instruction of a run that leads to `X`. -/
theorem BootImage.run_step {B : BootImage} {k : Nat} {i : BootInstr} {is : List BootInstr}
    {c c' : BootCpu} {X : BootCpu → Except BootFault BootCpu} {P : BootCpu → Prop}
    (hrip : c.rip = B.code k) (hfetch : c.control.resolve c.mem c.rip = some c.rip)
    (hmode : i.code64 = c.long) (hexec : i.exec (B.code (k + 1)) c = .ok c')
    (hrest : ∃ c₁, B.run (k + 1) is c' = X c₁ ∧ P c₁) :
    ∃ c₁, B.run k (i :: is) c = X c₁ ∧ P c₁ := by
  rw [BootImage.run, if_neg (not_or.mpr ⟨not_not.mpr hrip, not_not.mpr hfetch⟩),
    if_neg (not_not.mpr hmode), hexec]
  exact hrest

/-- One with paging off. -/
theorem BootImage.run_off {B : BootImage} {k : Nat} {i : BootInstr} {is : List BootInstr}
    {c c' : BootCpu} {X : BootCpu → Except BootFault BootCpu} {P : BootCpu → Prop}
    (hrip : c.rip = B.code k) (hoff : c.control.paging = false)
    (hmode : i.code64 = c.long) (hexec : i.exec (B.code (k + 1)) c = .ok c')
    (hrest : ∃ c₁, B.run (k + 1) is c' = X c₁ ∧ P c₁) :
    ∃ c₁, B.run k (i :: is) c = X c₁ ∧ P c₁ :=
  B.run_step hrip (Control.resolve_off hoff _ _) hmode hexec hrest

section

variable {next : Nat} {c : BootCpu}

theorem exec_movToCr4 (h : c.control.active = false) : (BootInstr.movToCr .cr4).exec next c =
    .ok { c with control := { c.control with cr4 := c.eax }, rip := next } := by
  rw [BootInstr.exec, BootCpu.writeControl, Control.writeCr4_inactive h]

theorem exec_rdmsr (h : c.ecx = eferMsr) : BootInstr.rdmsr.exec next c = .ok { c with
    eax := c.control.efer.toUInt32, edx := (c.control.efer >>> 32).toUInt32, rip := next } := by
  rw [BootInstr.exec, if_pos h]

theorem exec_wrmsr (h : c.ecx = eferMsr) (hoff : c.control.paging = false) :
    BootInstr.wrmsr.exec next c = .ok { c with
      control := { c.control with
        efer := LongMode.withActive (c.edx.toUInt64 <<< 32 ||| c.eax.toUInt64) c.control.active }
      rip := next } := by
  rw [BootInstr.exec, if_pos h, Control.writeEfer_off hoff]

theorem exec_movToCr0 (h32 : c.long = false) (hoff : c.control.paging = false)
    (henabled : c.control.enabled = true) (hpae : c.control.pae = true)
    (hpg : c.eax.toNat.testBit 31 = true) (hpe : c.eax.toNat.testBit 0 = true)
    (hcaches : ¬ (c.eax.toNat.testBit 29 = true ∧ c.eax.toNat.testBit 30 = false)) :
    (BootInstr.movToCr .cr0).exec next c = .ok { c with
      control := { c.control with
        cr0 := c.eax
        efer := LongMode.withActive c.control.efer true }
      rip := next } := by
  rw [BootInstr.exec, BootCpu.writeControl, h32,
    Control.writeCr0_starts hoff henabled hpae hpg hpe hcaches]

end

/-- Paging is on, with the tables of the image, and nothing else has changed. -/
structure BootCpu.Paged (B : BootImage) (c c₀ : BootCpu) : Prop where
  paging : c.control.paging = true
  active : c.control.active = true
  fourLevels : c.control.fiveLevels = false
  cr3 : c.control.cr3.toNat = B.pml4
  interrupts : c.interrupts = false
  ebx : c.ebx = c₀.ebx
  cs : c.cs = c₀.cs
  long : c.long = c₀.long
  mem : c.mem = c₀.mem

theorem testBit_or32 (x y : UInt32) (i : Nat) :
    (x ||| y).toNat.testBit i = (x.toNat.testBit i || y.toNat.testBit i) := by
  rw [UInt32.toNat_or, Nat.testBit_or]

/-- Bit 8 of EFER behind `or $0x100, %eax`. -/
theorem enabled_wrmsr (edx eax : UInt32) :
    ((edx.toUInt64 <<< 32) ||| (eax ||| 0x100).toUInt64).toNat.testBit 8 = true := by
  rw [UInt64.toNat_or, Nat.testBit_or, UInt32.toNat_toUInt64, testBit_or32]
  have hbit : (0x100 : UInt32).toNat.testBit 8 = true := by decide
  rw [hbit, Bool.or_true, Bool.or_true]

/-- `_start` up to the write to CR0. -/
theorem BootCpu.Entered.paged {B : BootImage} {c : BootCpu} (h : c.Entered B) :
    ∃ c₁, B.boot c = B.run 14 (.lgdt (B.gdt64 + 24) :: .ljmp 0x08 (B.code 16) :: B.longModeEntry)
      c₁ ∧ c₁.rip = B.code 14 ∧ c₁.Paged B c := by
  have hoff := h.paging
  have h32 := h.code32.symm
  have hpg : (c.control.cr0 ||| 0x80000000).toNat.testBit 31 = true := by
    rw [testBit_or32]
    exact Bool.or_eq_true_iff.mpr (Or.inr (by decide))
  have hpe : (c.control.cr0 ||| 0x80000000).toNat.testBit 0 = true := by
    rw [testBit_or32, h.protection, Bool.true_or]
  have hcaches : ¬ ((c.control.cr0 ||| 0x80000000).toNat.testBit 29 = true ∧
      (c.control.cr0 ||| 0x80000000).toNat.testBit 30 = false) := by
    have h29 : (0x80000000 : UInt32).toNat.testBit 29 = false := by decide
    have h30 : (0x80000000 : UInt32).toNat.testBit 30 = false := by decide
    rw [testBit_or32, testBit_or32, h29, h30, Bool.or_false, Bool.or_false]
    exact h.caches
  have hpae : (c.control.cr4 ||| 0x20).toNat.testBit 5 = true := by
    rw [testBit_or32]
    exact Bool.or_eq_true_iff.mpr (Or.inr (by decide))
  have hlevels : (c.control.cr4 ||| 0x20).toNat.testBit 12 = false := by
    have h12 : (0x20 : UInt32).toNat.testBit 12 = false := by decide
    rw [testBit_or32, h12, Bool.or_false]
    exact h.fourLevels
  have hcr3 : (UInt32.ofNat B.pml4).toUInt64.toNat = B.pml4 := by
    rw [UInt32.toNat_toUInt64]
    exact UInt32.toNat_ofNat_of_lt'
      (Nat.lt_of_le_of_lt (Nat.le_of_add_right_le B.tables_low) (by decide))
  rw [BootImage.boot, BootImage.start32]
  simp only [List.cons_append, List.nil_append]
  refine B.run_off h.rip hoff h32 rfl <| B.run_off rfl hoff h32 rfl ?_
  dsimp only [BootCpu.setReg]
  -- PAE
  refine B.run_off rfl hoff h32 rfl <| B.run_off rfl hoff h32 rfl <|
    B.run_off rfl hoff h32 (exec_movToCr4 h.inactive) ?_
  dsimp only [BootCpu.readControl]
  -- CR3
  refine B.run_off rfl hoff h32 rfl <| B.run_off rfl hoff h32 rfl ?_
  dsimp only [BootCpu.setReg, Control.writeCr3]
  -- EFER
  refine B.run_off rfl hoff h32 rfl ?_
  dsimp only [BootCpu.setReg]
  refine B.run_off rfl hoff h32 (exec_rdmsr rfl) <| B.run_off rfl hoff h32 rfl <|
    B.run_off rfl hoff h32 (exec_wrmsr rfl hoff) ?_
  dsimp only
  -- CR0
  refine B.run_off rfl hoff h32 rfl <| B.run_off rfl hoff h32 rfl ?_
  dsimp only [BootCpu.readControl]
  refine B.run_off rfl hoff h32 (exec_movToCr0 h.code32 hoff
    ((LongMode.enabled_withActive _ _).trans (enabled_wrmsr _ _)) hpae hpg hpe hcaches)
    ⟨_, rfl, rfl, ?_⟩
  exact {
    paging := hpg
    active := LongMode.active_withActive _ _
    fourLevels := hlevels
    cr3 := hcr3
    interrupts := rfl
    ebx := rfl
    cs := rfl
    long := rfl
    mem := rfl }

/-! ## With paging on -/

section

variable {B : BootImage} {c c₀ : BootCpu}

/-- The page of an address. -/
theorem BootCpu.Paged.page (h : c.Paged B c₀) (h₀ : c₀.Entered B) {a : Nat} (ha : a < 2 ^ 30) :
    c.control.page c.mem a = some ⟨a / 2 ^ 21 * 2 ^ 21, 21, true, false⟩ := by
  rw [Control.page, if_pos ⟨h.active, h.fourLevels⟩, h.cr3, h.mem,
    walk_bootTables h₀.tables B.pml4_aligned B.tables_low (by omega) (Or.inl (by omega)),
    if_pos ha]

theorem address_large {a : Nat} {w u : Bool} :
    (⟨a / 2 ^ 21 * 2 ^ 21, 21, w, u⟩ : Page).address a = a := by
  rw [Page.address]
  dsimp only
  omega

theorem BootCpu.Paged.resolve (h : c.Paged B c₀) (h₀ : c₀.Entered B) {a : Nat}
    (ha : a < 2 ^ 30) : c.control.resolve c.mem a = some a := by
  rw [Control.resolve, if_pos h.paging, h.page h₀ ha, Option.map_some, address_large]

theorem BootCpu.Paged.resolveWrite (h : c.Paged B c₀) (h₀ : c₀.Entered B) {a : Nat}
    (ha : a < 2 ^ 30) : c.control.resolveWrite c.mem a = some a := by
  rw [Control.resolveWrite, if_pos h.paging, h.page h₀ ha, Option.filter_some_pos (by simp),
    Option.map_some, address_large]

theorem BootCpu.Paged.linear (h : c.Paged B c₀) (h₀ : c₀.Entered B) {a : Nat}
    (ha : a < 2 ^ 30) : c.linear a = c₀.mem a := by
  rw [BootCpu.linear, h.resolve h₀ ha, h.mem]

theorem length_bootGdt (gdt64 : Nat) : (bootGdt gdt64).length = 30 := rfl

theorem BootCpu.Paged.gdt (h : c.Paged B c₀) (h₀ : c₀.Entered B) :
    Holds c.linear B.gdt64 (bootGdt B.gdt64) := by
  refine h₀.gdt.congr fun a _ ha => h.linear h₀ ?_
  rw [length_bootGdt] at ha
  exact Nat.lt_of_lt_of_le ha B.gdt_low

/-- `gdt64_ptr`. -/
theorem load_gdt64Ptr {m : Mem} {gdt64 : Nat} (h : Holds m gdt64 (bootGdt gdt64))
    (hlow : gdt64 < 2 ^ 32) : m.load (gdt64 + 24) 2 = 29 ∧ m.load (gdt64 + 24 + 2) 4 = gdt64 := by
  have hptr := Mem.holds_append.mp (Mem.holds_append.mp h).2
  refine ⟨hptr.1.load, hptr.2.load.trans (Nat.mod_eq_of_lt hlow)⟩

/-- The descriptors of `gdt64`. -/
theorem descriptor_gdt64 {T : Segment.Tables} {gdt64 : Nat} (hgdtr : T.gdtr = ⟨gdt64, 29⟩)
    (h : Holds T.mem gdt64 (bootGdt gdt64)) :
    T.descriptor 0x08 = some (Segment.decode 0x00AF9A000000FFFF) ∧
      T.descriptor 0x10 = some (Segment.decode 0x00CF92000000FFFF) := by
  have hentries := (Mem.holds_append.mp h).1
  have hword : ∀ i e, gdt64Entries[i]? = some e → e < 2 ^ 64 → T.word i = e := by
    intro i e he hlt
    rw [Segment.Tables.word, hgdtr]
    exact (Mem.Holds.record (Mem.length_leBytes 8) hentries he).load.trans (Nat.mod_eq_of_lt hlt)
  have hlimit : T.gdtr.limit = 29 := congrArg _ hgdtr
  rw [Segment.Tables.descriptor, Segment.Tables.descriptor, hlimit, if_pos (by decide),
    if_pos (by decide)]
  exact ⟨congrArg (some <| Segment.decode ·) (hword 1 _ rfl (by decide)),
    congrArg (some <| Segment.decode ·) (hword 2 _ rfl (by decide))⟩

/-- `mov $0x10, %ax`. -/
theorem movAx_mod (x : UInt32) : ((x &&& 0xFFFF0000) ||| (0x10 : UInt16).toUInt32).toNat % 2 ^ 16
    = 0x10 := by
  rw [UInt32.toNat_or, UInt32.toNat_and, Nat.or_mod_two_pow, Nat.and_mod_two_pow]
  have hmask : (0xFFFF0000 : UInt32).toNat % 2 ^ 16 = 0 := by decide
  rw [hmask, Nat.and_zero]
  decide

/-- Segment registers are loaded with the data segment of `gdt64`. -/
theorem exec_movSeg {next : Nat} (s : DataSeg) (hcs : c.cs = 0x08)
    (hax : c.eax.toNat % 2 ^ 16 = 0x10)
    (hdesc : c.tables.descriptor 0x10 = some (Segment.decode 0x00CF92000000FFFF)) :
    (BootInstr.movSeg s).exec next c
      = .ok { c with segs := Function.update c.segs s 0x10, rip := next } := by
  have hload : c.loadSeg s = .ok 0x10 := by
    rw [BootCpu.loadSeg, hax, hcs]
    split
    · rw [Segment.Tables.loadSs, if_neg (by decide), hdesc]
      rfl
    · rw [Segment.Tables.loadData, if_neg (by decide), hdesc]
      rfl
  rw [BootInstr.exec, hload]

/-- The processor and memory when `kernel_main` is called. -/
structure BootCpu.Started (B : BootImage) (c c₀ : BootCpu) : Prop where
  rip : c.rip = B.kernelMain
  rdi : c.rdi = c₀.ebx.toNat
  rsp : c.rsp = B.stackTop - 8
  long : c.long = true
  cs : c.cs = 0x08
  segs : ∀ s, c.segs s = 0x10
  interrupts : c.interrupts = false
  active : c.control.active = true
  fourLevels : c.control.fiveLevels = false
  paging : c.control.paging = true
  cr3 : c.control.cr3.toNat = B.pml4
  /-- Nothing is written but the return address. -/
  mem : c.mem = c₀.mem.store (B.stackTop - 8) 8 (B.code 25)

/-- The far jump. -/
theorem exec_ljmp {next target : Nat} (hlevel : c.cs % 4 = 0) (hactive : c.control.active = true)
    (hdesc : c.tables.descriptor 0x08 = some (Segment.decode 0x00AF9A000000FFFF)) :
    (BootInstr.ljmp 0x08 target).exec next c
      = .ok { c with cs := 0x08, long := true, rip := target } := by
  have hfar : c.tables.far false 0 0x08 = .ok (0x08, 0) := by
    rw [Segment.Tables.far, if_neg (by decide), hdesc]
    rfl
  rw [BootInstr.exec, hlevel, hfar, hdesc, hactive]
  rfl

/-- The call. -/
theorem exec_call {next target : Nat} (hsp : 8 ≤ c.rsp)
    (hstack : ∀ a, c.rsp - 8 ≤ a → a < c.rsp → c.control.resolveWrite c.mem a = some a) :
    (BootInstr.call target).exec next c = .ok { c with
      mem := c.mem.store (c.rsp - 8) 8 next, rsp := c.rsp - 8, rip := target } := by
  have hstore : c.store64 (c.rsp - 8) next
      = .ok { c with mem := c.mem.store (c.rsp - 8) 8 next } := by
    rw [BootCpu.store64, hstack _ (Nat.le_refl _) (by omega)]
    dsimp only
    rw [if_pos fun i => hstack _ (by omega) (by omega)]
  rw [BootInstr.exec, hstore]

/-- The rest of the code. -/
theorem BootCpu.Paged.started (h : c.Paged B c₀) (h₀ : c₀.Entered B) (hrip : c.rip = B.code 14) :
    ∃ c', B.run 14 (.lgdt (B.gdt64 + 24) :: .ljmp 0x08 (B.code 16) :: B.longModeEntry) c = .ok c' ∧
      c'.Started B c₀ := by
  have hon : ∀ k, c.control.resolve c.mem (B.code k) = some (B.code k) :=
    fun k => h.resolve h₀ (B.code_low k)
  have hgdt := h.gdt h₀
  obtain ⟨hlimit, hbase⟩ := load_gdt64Ptr hgdt (by have := B.gdt_low; omega)
  have hlong : c.long = false := h.long.trans h₀.code32
  rw [BootImage.longModeEntry]
  refine B.run_step hrip (hrip ▸ hon 14) hlong.symm rfl ?_
  rw [hlimit, hbase]
  obtain ⟨hcode, hdata⟩ :=
    descriptor_gdt64 (T := ⟨c.linear, ⟨B.gdt64, 29⟩, ⟨0, 0⟩, ⟨0, 0⟩⟩) rfl hgdt
  refine B.run_step rfl (hon 15) hlong.symm (exec_ljmp (h.cs ▸ h₀.level) h.active hcode) ?_
  refine B.run_step rfl (hon 16) rfl rfl ?_
  refine B.run_step rfl (hon 17) rfl (exec_movSeg .ds rfl (movAx_mod _) hdata) <|
    B.run_step rfl (hon 18) rfl (exec_movSeg .es rfl (movAx_mod _) hdata) <|
    B.run_step rfl (hon 19) rfl (exec_movSeg .ss rfl (movAx_mod _) hdata) <|
    B.run_step rfl (hon 20) rfl (exec_movSeg .fs rfl (movAx_mod _) hdata) <|
    B.run_step rfl (hon 21) rfl (exec_movSeg .gs rfl (movAx_mod _) hdata) ?_
  dsimp only
  refine B.run_step rfl (hon 22) rfl rfl <| B.run_step rfl (hon 23) rfl rfl ?_
  dsimp only
  have hsize := B.stack_size
  have hlow := B.stack_low
  refine B.run_step rfl (hon 24) rfl (exec_call (Nat.le_trans (by decide) hsize)
    fun a _ ha => h.resolveWrite h₀ (Nat.lt_of_lt_of_le ha hlow)) ⟨_, rfl, ?_⟩
  exact {
    rip := rfl
    rdi := congrArg UInt32.toNat h.ebx
    rsp := rfl
    long := rfl
    cs := rfl
    segs := fun s => by cases s with | _ => rfl
    interrupts := h.interrupts
    active := h.active
    fourLevels := h.fourLevels
    paging := h.paging
    cr3 := h.cr3
    mem := congrArg (Mem.store · (B.stackTop - 8) 8 (B.code 25)) h.mem }

end

/-! ## Until CR3 is loaded -/

/-- The address behind an address in the model, and the rights. -/
def Mach.translation {σ : Type} (M : Mach σ) (a : Nat) : Option (Nat × Bool × Bool) :=
  (M.translate a).map fun t => (t.frame + a % 4096, t.write, t.user)

/-- In `vmm_init`, when `i` pages are mapped. -/
def BootEnv.mapping (env : BootEnv) (i : Nat) : Mach Pmm :=
  (forLoop i (fun i => vmmMapPage (i * 4096) (i * 4096) kernelFlags) (newPml4 env.start)).2

/-- Until then the tables of the boot code are active, and the image stays. -/
theorem BootEnv.mapping_spec {env : BootEnv} (hbus : env.bus = .phys)
    (h0 : (allocTable env.start).1 ≠ 0) {i : Nat} (hi : i ≤ identityPages) :
    (env.mapping i).cr3 = none ∧ ∀ x, env.image.start ≤ x → x < env.image.stop →
      (env.mapping i).mem x = env.mem x := by
  obtain ⟨hinv, honly, hroot, hav, -, hcr3, -⟩ := newPml4_spec (M := env.start) hbus h0 rfl
  have hgrows : VmInv (env.mapping i) ∧
      Grows (fun _ => True) (newPml4 env.start) (env.mapping i) := by
    refine forLoop_induct (n := i) (M := newPml4 env.start)
      (fun i => vmmMapPage (i * 4096) (i * 4096) kernelFlags)
      (Q := fun _ N => VmInv N ∧ Grows (fun _ => True) (newPml4 env.start) N)
      ⟨hinv, .refl _⟩ (fun j N hj hN => ?_)
    simp only [identityPages] at hi
    obtain ⟨hinv', hg, -⟩ := vmmMapPage_spec hN.1 (by decide) (by omega)
      (show (vmmMapPage (j * 4096) (j * 4096) kernelFlags N).2 = _ from rfl)
    exact ⟨hinv', hN.2.trans hN.1 (hg.mono fun _ _ => trivial)⟩
  refine ⟨hgrows.2.cr3.trans hcr3, fun x h1 h2 => ?_⟩
  -- no free frame has a byte of the image
  have hfree : ¬ FrameSource.avail env.start.frames (frameOf x) := by
    intro hf
    obtain ⟨n, hn, husable⟩ := env.usable_of_avail hf
    have hxn : n = x / 4096 := by
      simp only [frameOf] at hn
      omega
    exact not_usable_image h1 h2 (hxn ▸ husable)
  have hne : frameOf x ≠ (newPml4 env.start).pml4 := fun heq => hfree (heq ▸ hroot)
  rw [hgrows.2.mem x (fun ht => hne (honly _ ht)) fun hf => hfree (hav _ hf),
    newPml4_mem hbus h0 hne]
  rfl

/-- From what the boot loader leaves, `boot.S` calls `kernel_main` in 64-bit mode at level 0, with
the address of the boot information as its argument, the stack aligned as the ABI has it and
interrupts off.  From then on, until `vmm_init` loads CR3, the hardware translates every address
as the model does: the first gigabyte to itself, for the kernel only.  This is stated after each
call of `vmm_map_page`, on the bus `phys`. -/
theorem boot_starts_kernel (B : BootImage) (c : BootCpu) (h : c.Entered B) :
    ∃ c', B.boot c = .ok c' ∧ c'.rip = B.kernelMain ∧ c'.rdi = c.ebx.toNat ∧
      (c'.rsp + 8) % 16 = 0 ∧ c'.long = true ∧ c'.cs = 0x08 ∧ (∀ s, c'.segs s = 0x10) ∧
      c'.interrupts = false ∧ c'.control.paging = true ∧
      ∀ env : BootEnv, env.bus = .phys → env.mem = c'.mem → env.image.start ≤ B.pml4 →
        B.pml4 + 12288 ≤ env.image.stop → (allocTable env.start).1 ≠ 0 →
        ∀ i ≤ identityPages, ∀ a < 2 ^ 64, Word.canonical a →
          c'.control.translation (env.mapping i).mem a = (env.mapping i).translation a := by
  obtain ⟨c₁, hboot, hrip, hpaged⟩ := h.paged
  obtain ⟨c', hrun, hs⟩ := hpaged.started h hrip
  have halign := B.stack_aligned
  have hsize := B.stack_size
  have hapart := B.stack_tables
  refine ⟨c', hboot.trans hrun, hs.rip, hs.rdi, by rw [hs.rsp]; omega, hs.long, hs.cs, hs.segs,
    hs.interrupts, hs.paging, fun env hbus hmem h1 h2 h0 i hi a ha hc => ?_⟩
  obtain ⟨hcr3, hkept⟩ := env.mapping_spec hbus h0 hi
  have htables : Holds (env.mapping i).mem B.pml4 (bootTables B.pml4) := by
    refine h.tables.congr fun x hx1 hx2 => ?_
    rw [length_bootTables] at hx2
    rw [hkept x (by omega) (by omega), hmem, hs.mem]
    exact Mem.store_other (by omega)
  rw [Control.translation, Control.page, if_pos ⟨hs.active, hs.fourLevels⟩, hs.cr3,
    walk_bootTables htables B.pml4_aligned B.tables_low ha hc, Mach.translation, Mach.translate,
    hcr3]
  dsimp only
  split
  · have hpage : a / 4096 * 4096 + a % 4096 = a := by omega
    rw [Option.map_some, Option.map_some, address_large, pageMask_eq ha, hpage]
  · rfl

/-- An image at 1 MiB. -/
def sampleBootImage : BootImage where
  pml4 := 0x103000
  gdt64 := 0x101000
  stackTop := 0x10A000
  code k := 0x100018 + 4 * min k 25
  kernelMain := 0x100400
  pml4_aligned := by decide
  stack_aligned := by decide
  stack_size := by decide
  stack_tables := by decide
  tables_low := by decide
  gdt_low := by decide
  stack_low := by decide
  code_low k := by omega

/-- A boot loader that leaves the boot information at 0x9500. -/
def sampleEntry : BootCpu where
  eax := 0x36D76289
  ebx := 0x9500
  ecx := 0
  edx := 0
  rsp := 0x7FF00
  rdi := 0
  rip := 0x100018
  interrupts := false
  control := ⟨0x11, 0, 0, 0⟩
  gdtr := ⟨0x8000, 0x27⟩
  cs := 0x10
  long := false
  segs _ := 0x18
  mem := (Mem.put (fun _ => 0) 0x103000 (bootTables 0x103000)).put 0x101000 (bootGdt 0x101000)

theorem entered_sampleEntry : sampleEntry.Entered sampleBootImage where
  rip := rfl
  protection := by decide
  paging := by decide
  inactive := by decide
  fourLevels := by decide
  caches := by decide
  level := rfl
  code32 := rfl
  tables := (Mem.holds_put _ _ _).put (Or.inr (by decide))
  gdt := Mem.holds_put _ _ _

/-- The kernel in the middle of `vmm_init`. -/
def sampleMapping (m : Mem) : Mach Pmm := { roomyBoot with mem := m }.mapping 512

theorem boot_starts_kernel_sample :
    ∃ c', sampleBootImage.boot sampleEntry = .ok c' ∧ c'.rip = 0x100400 ∧ c'.rdi = 0x9500 ∧
      c'.control.translation (sampleMapping c'.mem).mem 0x200000
        = (sampleMapping c'.mem).translation 0x200000 := by
  obtain ⟨c', hboot, hrip, hrdi, -, -, -, -, -, -, hmap⟩ :=
    boot_starts_kernel sampleBootImage sampleEntry entered_sampleEntry
  have hroot : (allocTable { roomyBoot with mem := c'.mem }.start).1 ≠ 0 :=
    Plenty.allocTable (k := 0) (BootEnv.plenty (a := 0x110) _ fun f h1 h2 =>
      usable_roomyBoot h1 (by omega))
  have himage : roomyBoot.image.start ≤ 0x103000 ∧ 0x103000 + 12288 ≤ roomyBoot.image.stop := by
    decide
  exact ⟨c', hboot, hrip, hrdi, hmap { roomyBoot with mem := c'.mem } rfl rfl himage.1 himage.2
    hroot 512 (by decide) 0x200000 (by decide) (by decide)⟩

end TunaOs
