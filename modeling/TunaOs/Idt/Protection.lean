import TunaOs.Gdt.Tables
import TunaOs.Idt.Dispatch
import TunaOs.Kernel.Entry

/-!
# What the tables allow

With the tables of the kernel installed, ring 3 gets no selector past the processor's checks
but its own two (`Installed.far`, `Installed.returns`, `Installed.loadSs`), and no gate but the
one of the system calls (`Installed.deliver`).  Devices and exceptions pass the other 48 gates.
An interrupt that is refused is an exception, which passes the gate of its own.

`Core.raise` is an interrupt with the tables: which gate is passed, what the processor pushes
and where it goes on.  `Installed.raise` states that this is the interrupt of `Core.interrupt`,
with the stub of the vector behind it.
-/

namespace TunaOs

open Segment (Tables TableReg Exception Descriptor Gate Source Entry)
open WordStack (pushAll)

/-! ## Segments -/

section

variable {S : Statics} {tss : Tss} {T : Tables}

theorem Installed.descriptor (h : Installed S tss T) (sel : Nat) (htable : sel / 4 % 2 = 0)
    (hsel : sel / 8 < 7) :
    T.descriptor sel = some (Segment.decode (kernelWord S.tss (sel / 8))) :=
  descriptor_eq sel (by rw [h.gdtr]) htable hsel (h.word _ hsel)

theorem Installed.descriptor_none (h : Installed S tss T) {sel : Nat}
    (hsel : sel / 4 % 2 ≠ 0 ∨ 7 ≤ sel / 8) : T.descriptor sel = none := by
  rw [Tables.descriptor, if_neg]
  rintro ⟨htable, hlimit⟩
  rw [h.gdtr] at hlimit
  simp only at hlimit
  omega

/-- The segments: the code and the data of the kernel, the data and the code of the user. -/
theorem decode_segments (tss : UInt64) :
    Segment.decode (kernelWord tss 1) = ⟨0, 0xFFFFF, 10, true, 0, true, true, false⟩ ∧
    Segment.decode (kernelWord tss 2) = ⟨0, 0xFFFFF, 2, true, 0, true, false, true⟩ ∧
    Segment.decode (kernelWord tss 3) = ⟨0, 0xFFFFF, 2, true, 3, true, false, true⟩ ∧
    Segment.decode (kernelWord tss 4) = ⟨0, 0xFFFFF, 10, true, 3, true, true, false⟩ :=
  ⟨by simp only [kernelWord]; decide, by simp only [kernelWord]; decide,
    by simp only [kernelWord]; decide, by simp only [kernelWord]; decide⟩

/-- The two halves of the descriptor of the task state segment, taken for descriptors, are
neither segments nor call gates. -/
theorem decode_tssHalves (tss : UInt64) :
    (Segment.decode (kernelWord tss 5)).ordinary = false ∧
    (Segment.decode (kernelWord tss 5)).type = 11 ∧
    (Segment.decode (kernelWord tss 6)).ordinary = false ∧
    (Segment.decode (kernelWord tss 6)).type = 0 := by
  have hlow : Segment.decode (kernelWord tss 5) = _ :=
    decode_tss tss 103 (by decide) 2 (by decide)
  have hlt := tss.toNat_lt
  refine ⟨by rw [hlow], by rw [hlow], ?_, ?_⟩
  · simp only [kernelWord, Segment.decode, decide_eq_false_iff_not]
    omega
  · simp only [kernelWord, Segment.decode]
    omega

/-- Of the descriptors of the table four are segments, and none is a call gate. -/
theorem Installed.descriptor_cases (h : Installed S tss T) {sel : Nat} {d : Descriptor}
    (hnull : sel / 4 ≠ 0) (hd : T.descriptor sel = some d) :
    sel / 4 = 2 ∧ d = ⟨0, 0xFFFFF, 10, true, 0, true, true, false⟩ ∨
    sel / 4 = 4 ∧ d = ⟨0, 0xFFFFF, 2, true, 0, true, false, true⟩ ∨
    sel / 4 = 6 ∧ d = ⟨0, 0xFFFFF, 2, true, 3, true, false, true⟩ ∨
    sel / 4 = 8 ∧ d = ⟨0, 0xFFFFF, 10, true, 3, true, true, false⟩ ∨
    d.ordinary = false ∧ d.type ≠ 12 := by
  obtain ⟨h1, h2, h3, h4⟩ := decode_segments S.tss
  obtain ⟨h5, h5', h6, h6'⟩ := decode_tssHalves S.tss
  by_cases hin : sel / 4 % 2 = 0 ∧ sel / 8 < 7
  · obtain ⟨htable, hsel⟩ := hin
    rw [h.descriptor sel htable hsel] at hd
    obtain rfl := Option.some.inj hd
    have hindex : sel / 8 = 1 ∨ sel / 8 = 2 ∨ sel / 8 = 3 ∨ sel / 8 = 4 ∨ sel / 8 = 5 ∨
        sel / 8 = 6 := by omega
    rcases hindex with hi | hi | hi | hi | hi | hi
    · exact Or.inl ⟨by omega, by rw [hi, h1]⟩
    · exact Or.inr (Or.inl ⟨by omega, by rw [hi, h2]⟩)
    · exact Or.inr (Or.inr (Or.inl ⟨by omega, by rw [hi, h3]⟩))
    · exact Or.inr (Or.inr (Or.inr (Or.inl ⟨by omega, by rw [hi, h4]⟩)))
    · exact Or.inr (Or.inr (Or.inr (Or.inr ⟨by rw [hi, h5], by rw [hi, h5']; decide⟩)))
    · exact Or.inr (Or.inr (Or.inr (Or.inr ⟨by rw [hi, h6], by rw [hi, h6']; decide⟩)))
  · rw [h.descriptor_none (by omega)] at hd
    cases hd

/-- Code for ring 3. -/
theorem Installed.userCode (h : Installed S tss T) {sel : Nat} {d : Descriptor}
    (hnull : sel / 4 ≠ 0) (hd : T.descriptor sel = some d) (hcode : d.code = true)
    (hlevel : d.conforming = true ∨ d.dpl = 3) : sel / 4 = 8 := by
  rcases h.descriptor_cases hnull hd with ⟨-, rfl⟩ | ⟨-, rfl⟩ | ⟨-, rfl⟩ | ⟨hsel, -⟩ | ⟨hord, -⟩
  · exact absurd hlevel (by decide)
  · cases hcode
  · cases hcode
  · exact hsel
  · rw [Descriptor.code, hord] at hcode
    cases hcode

/-- Data for ring 3. -/
theorem Installed.userData (h : Installed S tss T) {sel : Nat} {d : Descriptor}
    (hnull : sel / 4 ≠ 0) (hd : T.descriptor sel = some d) (hwrite : d.writable = true)
    (hlevel : d.dpl = 3) : sel / 4 = 6 := by
  rcases h.descriptor_cases hnull hd with ⟨-, rfl⟩ | ⟨-, rfl⟩ | ⟨hsel, -⟩ | ⟨-, rfl⟩ | ⟨hord, -⟩
  · cases hlevel
  · cases hlevel
  · exact hsel
  · cases hwrite
  · rw [Descriptor.writable, hord] at hwrite
    cases hwrite

/-- A far jump or call in ring 3 stays in its code segment. -/
theorem Installed.far (h : Installed S tss T) {call : Bool} {sel cs level : Nat}
    (hfar : T.far call 3 sel = .ok (cs, level)) : cs = gdtUserCodeRpl3 ∧ level = 3 := by
  obtain ⟨hnull, d, hd, hcheck | ⟨hord, hgate⟩⟩ := Tables.far_ok hfar
  · obtain ⟨hcode, hlevel, heq⟩ := Segment.checkCode_ok hcheck
    obtain ⟨rfl, rfl⟩ := Prod.mk.inj heq
    rw [Segment.withLevel, h.userCode hnull hd hcode hlevel]
    exact ⟨rfl, rfl⟩
  · rcases h.descriptor_cases hnull hd with ⟨-, rfl⟩ | ⟨-, rfl⟩ | ⟨-, rfl⟩ | ⟨-, rfl⟩ | ⟨-, hno⟩
    · cases hord
    · cases hord
    · cases hord
    · cases hord
    · exact absurd hgate hno

/-- A load of SS in ring 3 loads its data segment. -/
theorem Installed.loadSs (h : Installed S tss T) {sel ss : Nat}
    (hss : T.loadSs 3 sel = .ok ss) : ss = gdtUserDataRpl3 := by
  obtain ⟨rfl, ⟨-, hlt⟩ | ⟨hnull, hrpl, d, hd, hwrite, hlevel⟩⟩ := Tables.loadSs_ok hss
  · exact absurd hlt (Nat.lt_irrefl 3)
  · have hsel := h.userData hnull hd hwrite hlevel
    exact show ss = 0x1B by omega

/-- A return in ring 3 stays in its code segment. -/
theorem Installed.returns (h : Installed S tss T) {rip cs ss level : Nat}
    (hret : T.returnTo 3 rip cs ss = .ok level) : cs = gdtUserCodeRpl3 ∧ level = 3 := by
  obtain ⟨hnull, rfl, hle, d, hd, hcode, hlevel⟩ := Tables.returnTo_ok hret
  have hrpl : cs % 4 = 3 := by omega
  rw [hrpl] at hlevel
  have hsel := h.userCode hnull hd hcode hlevel
  exact ⟨show cs = 0x23 by omega, hrpl⟩

/-- `iretq` to user mode. -/
theorem Installed.returnTo (h : Installed S tss T) (rip : Nat) :
    T.returnTo 0 rip gdtUserCodeRpl3 gdtUserDataRpl3
      = if Word.canonical rip then .ok 3 else .error (.gp 0) := by
  obtain ⟨-, -, h3, h4⟩ := decode_segments S.tss
  have hcs := h.descriptor 0x23 rfl (by decide)
  have hss := h.descriptor 0x1B rfl (by decide)
  rw [show 0x23 / 8 = 4 from rfl, h4] at hcs
  rw [show 0x1B / 8 = 3 from rfl, h3] at hss
  rw [Tables.returnTo, gdtUserCodeRpl3, gdtUserDataRpl3, hcs]
  by_cases hcanon : Word.canonical rip
  · simp [hcanon, Descriptor.code, Descriptor.conforming, Tables.loadSs, hss, Descriptor.writable,
      Except.map]
  · simp [hcanon, Descriptor.code, Descriptor.conforming]

/-! ## Gates -/

/-- The stack of the kernel. -/
theorem Installed.stackFor (h : Installed S tss T) (hrsp0 : tss.rsp0 < 2 ^ 47) :
    T.stackFor 0 0 = .ok tss.rsp0 := by
  have hload := h.rsp0
  have hlt : tss.rsp0 % 2 ^ 64 = tss.rsp0 := Nat.mod_eq_of_lt (by omega)
  have hok : Word.canonical tss.rsp0 := Or.inl hrsp0
  rw [hlt] at hload
  simp [Tables.stackFor, h.tr, hload, hok]

/-- A gate leads to the code of the kernel. -/
theorem Installed.enter (h : Installed S tss T) (hrsp0 : tss.rsp0 < 2 ^ 47) {g : Gate}
    (hsel : g.selector = 8) (hist : g.ist = 0) (hoffset : g.offset < 2 ^ 47) {cpl : Nat}
    (src : Source) :
    T.enter cpl src g
      = .ok ⟨g.offset, 8, 0, if cpl = 0 then none else some tss.rsp0, g.type = 14⟩ := by
  obtain ⟨h1, -⟩ := decode_segments S.tss
  have hcs := h.descriptor 8 rfl (by decide)
  rw [show 8 / 8 = 1 from rfl, h1] at hcs
  have hcanon : Word.canonical g.offset := Or.inl hoffset
  have hstack := h.stackFor hrsp0
  rw [Tables.enter, hsel, hcs]
  by_cases hcpl : cpl = 0
  · subst hcpl
    simp [Descriptor.code, Descriptor.conforming, hcanon, hist, Segment.withLevel]
  · simp [Descriptor.code, Descriptor.conforming, hcanon, hist, Segment.withLevel, hcpl,
      Ne.symm hcpl, hstack, Except.map]

/-- The interrupts that pass their gate: system calls, and devices and exceptions, or any
interrupt of the kernel itself, if there is a stub. -/
def Passes (cpl n : Nat) (src : Source) : Prop :=
  n = syscallVector ∨ n < 48 ∧ (src = .external ∨ cpl = 0)

instance (cpl n : Nat) (src : Source) : Decidable (Passes cpl n src) :=
  inferInstanceAs (Decidable (_ ∨ _ ∧ (_ ∨ _)))

/-- Where an interrupt that passes its gate goes. -/
def kernelEntry (S : Statics) (tss : Tss) (cpl n : Nat) : Entry where
  rip := (S.stub n).toNat
  cs := gdtKernelCode
  level := 0
  stack := if cpl = 0 then none else some tss.rsp0
  clears := decide (n ≠ syscallVector)

/-- Every interrupt passes its gate or is a general protection exception. -/
theorem Installed.deliver (h : Installed S tss T) (hrsp0 : tss.rsp0 < 2 ^ 47) {cpl n : Nat}
    (hcpl : cpl ≤ 3) (hn : n < 256) (src : Source) :
    T.deliver cpl n src = if Passes cpl n src then .ok (kernelEntry S tss cpl n)
      else .error (.gp (8 * n + 2 + src.bit)) := by
  have hlimit : ¬ T.idtr.limit < 16 * n + 15 := by
    rw [h.idtr]
    simp only
    omega
  simp only [Tables.deliver, if_neg hlimit, h.gate n hn]
  rw [kernelGate]
  split
  case isTrue hlt =>
    -- an interrupt gate for level 0
    have hne : n ≠ syscallVector := by
      simp only [syscallVector]
      omega
    by_cases hsrc : src = .software ∧ 0 < cpl
    · have hpass : ¬ Passes cpl n src := by
        rintro (heq | ⟨-, heq | heq⟩)
        · exact hne heq
        · rw [hsrc.1] at heq
          cases heq
        · omega
      rw [if_neg hpass, if_neg (by simp), if_pos hsrc]
    · have hpass : Passes cpl n src := by
        cases src with
        | software => exact Or.inr ⟨hlt, Or.inr (by simpa using hsrc)⟩
        | external => exact Or.inr ⟨hlt, Or.inl rfl⟩
      rw [if_pos hpass, if_neg (by simp), if_neg hsrc, if_neg (by simp),
        h.enter hrsp0 rfl rfl (S.stub_low n) src]
      simp [kernelEntry, hne, gdtKernelCode]
  case isFalse hge =>
    split
    case isTrue heq =>
      -- the trap gate for level 3
      have hpass : Passes cpl n src := Or.inl heq
      have hdpl : ¬ (src = .software ∧ 3 < cpl) := by omega
      rw [if_pos hpass, if_neg (by simp), if_neg hdpl, if_neg (by simp),
        h.enter hrsp0 rfl rfl (S.stub_low n) src]
      simp [kernelEntry, gdtKernelCode, show n = syscallVector from heq]
    case isFalse hne =>
      have hpass : ¬ Passes cpl n src := by
        rintro (heq | ⟨hlt, -⟩)
        · exact hne heq
        · exact hge hlt
      rw [if_neg hpass, if_pos (by simp)]

end

/-! ## Interrupts with the tables -/

/-- The level of the processor. -/
def Core.level (c : Core) : Nat := c.cs.toNat % 4

/-- The entry to a handler: the stack, the words that the processor pushes, the segments and
the flags. -/
def Core.enterAt (c : Core) (e : Entry) (code : List UInt64) : Core :=
  let sp := match e.stack with
    | none => c.regs .rsp
    | some sp => UInt64.ofNat sp
  { c.withStack (pushAll ([c.ss.toUInt64, c.regs .rsp, c.rflags, c.cs.toUInt64, c.rip] ++ code)
      (c.mem, sp - sp % 16)) with
    rip := UInt64.ofNat e.rip
    cs := UInt16.ofNat e.cs
    ss := if e.level = c.level then c.ss else UInt16.ofNat e.level
    rflags := c.rflags &&& ~~~ (if e.clears then 0x14300 else 0x14100) }

/-- An interrupt of vector `n`.  An instruction `int n` pushes no error code. -/
def Core.vectored (T : Tables) (c : Core) (n : Nat) (src : Source) (error : UInt64) :
    Except Exception Core :=
  (T.deliver c.level n src).map fun e =>
    c.enterAt e (if src = .external ∧ pushesErrorCode n then [error] else [])

/-- An interrupt, with the vector whose gate is passed.  If it is refused it is an exception,
if that is refused a double fault, and if that is refused the processor shuts down. -/
def Core.raise (T : Tables) (c : Core) (n : Nat) (src : Source) (error : UInt64) :
    Option (Nat × Core) :=
  match c.vectored T n src error with
  | .ok d => some (n, d)
  | .error e =>
    match c.vectored T e.vector .external (UInt64.ofNat e.error) with
    | .ok d => some (e.vector, d)
    | .error _ =>
      match c.vectored T 8 .external 0 with
      | .ok d => some (8, d)
      | .error _ => none

/-- The vector of a stub, and the error code. -/
def Core.target (c : Core) (n : Nat) (src : Source) (error : UInt64) : Nat × UInt64 :=
  if Passes c.level n src then (n, error) else (13, UInt64.ofNat (8 * n + 2 + src.bit))

section

variable {S : Statics} {tss : Tss} {T : Tables}

/-- The interrupt of `Core.interrupt`, at the stub of its vector. -/
def Core.atStub (c : Core) (S : Statics) (tss : Tss) (n : Nat) (error : UInt64) : Core :=
  { c.interrupt (UInt64.ofNat tss.rsp0) n error with rip := S.stub n }

theorem Core.enterAt_eq (c : Core) (hcs : c.cs = 0x08 ∨ c.cs = 0x23) (n : Nat) (error : UInt64) :
    c.enterAt (kernelEntry S tss c.level n) (if pushesErrorCode n then [error] else [])
      = c.atStub S tss n error := by
  have hstub : UInt64.ofNat (S.stub n).toNat = S.stub n := UInt64.ofNat_toNat
  have hflags : (if (kernelEntry S tss c.level n).clears then (0x14300 : UInt64) else 0x14100)
      = clearedFlags n := by
    simp only [kernelEntry, clearedFlags, decide_eq_true_eq]
    split <;> simp_all
  rw [Core.atStub, Core.interrupt, Core.enterAt, Core.kernelStack, hflags]
  rcases hcs with hcs | hcs
  · have hlevel : c.level = 0 := by rw [Core.level, hcs]; rfl
    have hring : c.cs &&& 3 = 0 := by rw [hcs]; rfl
    simp [hlevel, hring, kernelEntry, hstub, Core.pushed, gdtKernelCode]
  · have hlevel : c.level = 3 := by rw [Core.level, hcs]; rfl
    have hring : ¬ c.cs &&& 3 = 0 := by rw [hcs]; decide
    simp [hlevel, hring, kernelEntry, hstub, Core.pushed, gdtKernelCode]

/-- An interrupt that passes its gate. -/
theorem Installed.vectored (h : Installed S tss T) (hrsp0 : tss.rsp0 < 2 ^ 47) {c : Core}
    (hcs : c.cs = 0x08 ∨ c.cs = 0x23) {n : Nat} (hn : n < 256) {src : Source}
    (hpass : Passes c.level n src) (hcode : src = .external ∨ pushesErrorCode n = false)
    (error : UInt64) : c.vectored T n src error = .ok (c.atStub S tss n error) := by
  have hpushes : (if src = .external ∧ pushesErrorCode n then [error] else [])
      = if pushesErrorCode n then [error] else [] := by
    rcases hcode with hsrc | hnone
    · simp [hsrc]
    · simp [hnone]
  have hlevel : c.level ≤ 3 := Nat.le_of_lt_succ (Nat.mod_lt _ (by decide))
  rw [Core.vectored, h.deliver hrsp0 hlevel hn src, if_pos hpass, hpushes]
  exact congrArg Except.ok (c.enterAt_eq hcs n error)

/-- An interrupt reaches the stub of its vector, or that of a general protection exception. -/
theorem Installed.raise (h : Installed S tss T) (hrsp0 : tss.rsp0 < 2 ^ 47) {c : Core}
    (hcs : c.cs = 0x08 ∨ c.cs = 0x23) {n : Nat} (hn : n < 256) {src : Source}
    (hcode : src = .external ∨ c.cs = 0x23 ∨ pushesErrorCode n = false) (error : UInt64) :
    c.raise T n src error = some ((c.target n src error).1,
      c.atStub S tss (c.target n src error).1 (c.target n src error).2) := by
  have hlevel : c.level ≤ 3 := Nat.le_of_lt_succ (Nat.mod_lt _ (by decide))
  rw [Core.raise, Core.target]
  by_cases hpass : Passes c.level n src
  · have hcode' : src = .external ∨ pushesErrorCode n = false := by
      rcases hcode with hsrc | huser | hnone
      · exact Or.inl hsrc
      · rcases hpass with hsys | ⟨-, hsrc | hzero⟩
        · rw [hsys]
          exact Or.inr rfl
        · exact Or.inl hsrc
        · rw [Core.level, huser] at hzero
          cases hzero
      · exact Or.inr hnone
    rw [h.vectored hrsp0 hcs hn hpass hcode' error, if_pos hpass]
  · have hgp : c.vectored T n src error = .error (.gp (8 * n + 2 + src.bit)) := by
      rw [Core.vectored, h.deliver hrsp0 hlevel hn src, if_neg hpass]
      rfl
    have hpass' : Passes c.level 13 .external := Or.inr ⟨by decide, Or.inl rfl⟩
    have hnext := h.vectored hrsp0 hcs (by decide) hpass' (Or.inl rfl)
      (UInt64.ofNat (8 * n + 2 + src.bit))
    rw [hgp, if_neg hpass]
    dsimp only [Exception.vector, Exception.error]
    rw [hnext]

end

/-! ## Frames -/

/-- Another address of the next instruction. -/
def Core.withRip (c : Core) (rip : UInt64) : Core := { c with rip := rip }

/-- No stub reads RIP. -/
theorem runStub_withRip : ∀ (code : List StubInstr) (c : Core) (rip : UInt64),
    ∃ rip', runStub code (c.withRip rip) = (runStub code c).withRip rip'
  | [], _, rip => ⟨rip, rfl⟩
  | i :: code, c, rip => by
      have hstep : ∃ rip', i.exec (c.withRip rip) = (i.exec c).withRip rip' := by
        cases i with
        | general j =>
            cases j with
            | ret => exact ⟨_, rfl⟩
            | _ => exact ⟨rip, rfl⟩
        | iretq => exact ⟨_, rfl⟩
        | _ => exact ⟨rip, rfl⟩
      obtain ⟨rip', hrip⟩ := hstep
      rw [runStub_cons, runStub_cons, hrip]
      exact runStub_withRip code (i.exec c) rip'

/-- The stub of a vector, up to the call of `isr_dispatch`. -/
def Core.toDispatch (d : Core) (n : Nat) : Core := runStub (isrStub n ++ isrCommonEntry) d

section

variable (S : Statics) (tss : Tss)

/-- At the call of `isr_dispatch`. -/
theorem Core.toDispatch_atStub (c : Core) (n : Nat) (error : UInt64) :
    ((c.atStub S tss n error).toDispatch n).stack
        = (c.enter (UInt64.ofNat tss.rsp0) n error).stack ∧
      ((c.atStub S tss n error).toDispatch n).cs
        = (c.enter (UInt64.ofNat tss.rsp0) n error).cs := by
  obtain ⟨rip, hrip⟩ := runStub_withRip (isrStub n ++ isrCommonEntry)
    (c.interrupt (UInt64.ofNat tss.rsp0) n error) (S.stub n)
  have heq : (c.atStub S tss n error).toDispatch n
      = (c.enter (UInt64.ofNat tss.rsp0) n error).withRip rip := hrip
  rw [heq]
  exact ⟨rfl, rfl⟩

/-- `isr_dispatch` gets the registers of the interrupted code. -/
theorem Core.frameAt_toDispatch (c : Core) {n : Nat} (hn : HasStub n) (error : UInt64) :
    frameAt ((c.atStub S tss n error).toDispatch n).mem
        (((c.atStub S tss n error).toDispatch n).regs .rsp)
      = c.frame n (if pushesErrorCode n then error.toNat else 0) := by
  have hstack := (c.toDispatch_atStub S tss n error).1
  rw [Core.stack, Core.stack] at hstack
  obtain ⟨hmem, hrsp⟩ := Prod.mk.inj hstack
  rw [hmem, hrsp]
  exact c.frameAt_enter _ hn error

/-- The gate that is passed has a stub behind it. -/
theorem Core.hasStub_target (c : Core) (n : Nat) (src : Source) (error : UInt64) :
    HasStub (c.target n src error).1 := by
  rw [Core.target]
  split
  case isTrue hpass =>
    rcases hpass with hsys | ⟨hlt, -⟩
    · exact Or.inr hsys
    · exact Or.inl hlt
  case isFalse => exact Or.inl (show 13 < 48 by decide)

end

/-- A layout of the kernel's objects. -/
def sampleStatics : Statics where
  gdt := 0x10A000
  tss := 0x10A040
  idt := 0x10B000
  stub n := UInt64.ofNat (0x101000 + n % 256)
  reload := 0x102000
  gdt_tss := by decide
  gdt_idt := by decide
  tss_idt := by decide
  stub_low n := by
    rw [UInt64.toNat_ofNat']
    omega
  reload_low := by decide

/-- A program at its first instruction. -/
def sampleUser : Core where
  regs := Function.update (fun _ => 0) .rsp 0x802000
  rip := 0x400000
  mem _ := 0
  cs := 0x23
  ss := 0x1B
  rflags := 0x202

end TunaOs
