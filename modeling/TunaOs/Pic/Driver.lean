import TunaOs.Idt.Dispatch
import TunaOs.Lib.Bitmap
import TunaOs.Lib.Pic
import TunaOs.Task.Acknowledge

/-!
# The driver of the interrupt controllers

The code of `pic.c`, down to the ports, on the controllers of `Lib/Pic`: `pic_init`,
`irq_mask`, `irq_unmask` and `pic_eoi`.  Devices make requests at any time between two port
accesses, and the processor accepts interrupts at any time if it has them enabled.

What the controllers are for is stated by `Lines`: a set of IRQs that are enabled, and the lines
in service as `Pics` has them.  `pic_driver_refines` states that any sequence of calls keeps to
it: an interrupt is delivered only if its IRQ is enabled, that of the slave if IRQ 2 is as well,
with the vector of its IRQ.  `irq_acknowledged` states that the EOI that `isr_dispatch` sends for
the vector ends that interrupt, and leaves those that it has interrupted in service, if the handler
leaves the controllers alone.  That of the timer does not at every tenth tick (`timer_lines`).
-/

namespace TunaOs

open Fair (run after Often)
open Port (Prog Turn outs)
open Pic (Pair Config Setting Event endHighest)
open Run (Traced)
open Word (wrap64)

/-! ## The driver -/

/-- `port` in `irq_mask` and `irq_unmask`. -/
def irqPort (irq : UInt8) : UInt16 := if irq.toNat < 8 then 0x21 else 0xA1

/-- `irq` there, after `irq -= 8`. -/
def irqLine (irq : UInt8) : Nat := if irq.toNat < 8 then irq.toNat else irq.toNat - 8

/-- `(uint8_t)(1 << irq)` there.  The shift is undefined from 31 on. -/
def irqBit (irq : UInt8) : Option UInt8 :=
  if irqLine irq < 31 then some (UInt8.ofNat (2 ^ irqLine irq)) else none

/-- The calls. -/
inductive PicCall
  | mask (irq : UInt8)
  | unmask (irq : UInt8)
  | eoi (irq : UInt8)
deriving DecidableEq, Repr

section

variable {α : Type}

/-- `irq_mask`. -/
def irqMask (irq : UInt8) (next : Prog α) : Option (Prog α) :=
  (irqBit irq).map fun bit => .inb (irqPort irq) fun v => .outb (irqPort irq) (v ||| bit) next

/-- `irq_unmask`. -/
def irqUnmask (irq : UInt8) (next : Prog α) : Option (Prog α) :=
  (irqBit irq).map fun bit => .inb (irqPort irq) fun v => .outb (irqPort irq) (v &&& ~~~ bit) next

/-- `pic_eoi`. -/
def picEoiCode (irq : UInt8) (next : Prog α) : Prog α :=
  if irq ≥ 8 then .outb 0xA0 0x20 (.outb 0x20 0x20 next) else .outb 0x20 0x20 next

end

/-- A call, or `none` if it is undefined. -/
def PicCall.code (next : Prog Unit) : PicCall → Option (Prog Unit)
  | mask irq => irqMask irq next
  | unmask irq => irqUnmask irq next
  | eoi irq => some (picEoiCode irq next)

/-- A sequence of calls. -/
def picCalls : List PicCall → Option (Prog Unit)
  | [] => some (.ret ())
  | c :: cs => (picCalls cs).bind fun next => c.code next

/-! ## What it is for -/

/-- The IRQs that are enabled, and the lines in service. -/
@[ext]
structure Lines where
  enabled : Set (Fin 16)
  service : Pics

/-- An interrupt may be delivered. -/
structure Lines.Passes (l : Lines) (irq : Fin 16) : Prop where
  enabled : irq ∈ l.enabled
  /-- The slave is on line 2. -/
  cascade : 8 ≤ irq.val → 2 ∈ l.enabled
  /-- Nothing of the same or a higher priority is in service. -/
  master : ∀ j ∈ l.service.master, masterLine irq < j
  slave : ∀ i ∈ slaveLines irq, ∀ j ∈ l.service.slave, i < j

/-- What may happen if calls `calls` are made, with the vector that is delivered. -/
inductive LineStep (calls : PicCall → Prop) : Lines → List Nat → Lines → Prop
  | disable {l : Lines} {irq : UInt8} : calls (.mask irq) →
      LineStep calls l [] { l with enabled := l.enabled \ {i | i.val = irq.toNat} }
  | enable {l : Lines} {irq : UInt8} : calls (.unmask irq) →
      LineStep calls l [] { l with enabled := l.enabled ∪ {i | i.val = irq.toNat} }
  | endMaster {l : Lines} {irq : UInt8} : calls (.eoi irq) →
      LineStep calls l [] { l with service := { l.service with
        master := endHighest l.service.master } }
  | endSlave {l : Lines} {irq : UInt8} : calls (.eoi irq) → 8 ≤ irq →
      LineStep calls l [] { l with service := { l.service with
        slave := endHighest l.service.slave } }
  | accept {l : Lines} {irq : Fin 16} : l.Passes irq →
      LineStep calls l [32 + irq.val] { l with service := l.service.accept irq }

/-- The mask of the controller that an IRQ is at. -/
def imrAt (p : Pair) (irq : Nat) : UInt8 := if irq < 8 then p.master.imr else p.slave.imr

/-- The IRQ is masked. -/
def maskedIrq (p : Pair) (irq : Fin 16) : Bool := (imrAt p irq).toBitVec.getLsbD (irq % 8)

/-- The lines of two controllers. -/
def lines (p : Pair) : Lines := ⟨{irq | maskedIrq p irq = false}, ⟨p.master.isr, p.slave.isr⟩⟩

/-- What `pic_init` makes of the master and of the slave. -/
def masterConfig : Config := ⟨.mask, false, true, 32, 0x04, false, true, 0xFF⟩

@[inherit_doc masterConfig]
def slaveConfig : Config := ⟨.mask, false, true, 40, 0x02, false, true, 0xFF⟩

/-- The controllers are set up, with any masks. -/
structure SetUpPics (p : Pair) : Prop where
  master : { p.master.toConfig with imr := 0xFF } = masterConfig
  slave : { p.slave.toConfig with imr := 0xFF } = slaveConfig

/-! ## One port access -/

section

variable {p : Pair}

theorem inb_irqPort (irq : UInt8) : p.inb (irqPort irq) = (imrAt p irq.toNat, p) := by
  rw [irqPort, imrAt]
  by_cases h : irq.toNat < 8
  · rw [if_pos h, if_pos h]
    rfl
  · rw [if_neg h, if_neg h]
    rfl

/-- A write to the data port sets the mask. -/
theorem SetUpPics.outb (h : SetUpPics p) (irq v : UInt8) : p.outb (irqPort irq) v =
    if irq.toNat < 8 then { p with master := { p.master with imr := v } }
    else { p with slave := { p.slave with imr := v } } := by
  have hdata : ∀ s : Pic.State, s.expects = .mask → s.data v = { s with imr := v } := by
    intro s hs
    rw [Pic.State.data, Config.data, hs]
  rw [irqPort]
  by_cases hlt : irq.toNat < 8
  · rw [if_pos hlt, if_pos hlt, Pair.outb, if_neg (by decide), if_pos rfl,
      hdata _ (congrArg Config.expects h.master)]
  · rw [if_neg hlt, if_neg hlt, Pair.outb, if_neg (by decide), if_neg (by decide),
      if_neg (by decide), if_pos rfl, hdata _ (congrArg Config.expects h.slave)]

theorem SetUpPics.outb_kept (h : SetUpPics p) (irq v : UInt8) :
    SetUpPics (p.outb (irqPort irq) v) ∧ (p.outb (irqPort irq) v).delivered = p.delivered ∧
      (lines (p.outb (irqPort irq) v)).service = (lines p).service := by
  rw [h.outb]
  split
  · exact ⟨⟨h.master, h.slave⟩, rfl, rfl⟩
  · exact ⟨⟨h.master, h.slave⟩, rfl, rfl⟩

theorem SetUpPics.maskedIrq_outb (h : SetUpPics p) (irq v : UInt8) (i : Fin 16) :
    maskedIrq (p.outb (irqPort irq) v) i =
      if i.val < 8 ↔ irq.toNat < 8 then v.toBitVec.getLsbD (i % 8) else maskedIrq p i := by
  rw [h.outb, maskedIrq, maskedIrq]
  by_cases hirq : irq.toNat < 8
  · rw [if_pos hirq]
    by_cases hi : i.val < 8
    · simp [imrAt, hi, hirq]
    · simp [imrAt, hi, hirq]
  · rw [if_neg hirq]
    by_cases hi : i.val < 8
    · simp [imrAt, hi, hirq]
    · simp [imrAt, hi, hirq]

/-- The bit that a call sets or clears is that of the IRQ. -/
theorem irqBit_getLsbD {irq bit : UInt8} (hbit : irqBit irq = some bit) {i : Fin 16}
    (hsame : i.val < 8 ↔ irq.toNat < 8) :
    bit.toBitVec.getLsbD (i % 8) = decide (i.val = irq.toNat) := by
  have hpow : ∀ n k, k < 8 → (UInt8.ofNat (2 ^ n)).toBitVec.getLsbD k = decide (n = k) := by
    intro n k hk
    change (BitVec.ofNat 8 (2 ^ n)).getLsbD k = _
    rw [BitVec.getLsbD_ofNat, Nat.testBit_two_pow, decide_eq_true hk, Bool.true_and]
  rw [irqBit] at hbit
  split at hbit
  case isFalse => cases hbit
  case isTrue =>
    obtain rfl := Option.some.inj hbit
    rw [hpow _ _ (Nat.mod_lt _ (by decide))]
    refine decide_eq_decide.mpr ?_
    have hi := i.isLt
    rw [irqLine]
    split
    · omega
    · omega

/-- `irq_mask` disables the IRQ. -/
theorem SetUpPics.mask (h : SetUpPics p) {irq bit : UInt8} (hbit : irqBit irq = some bit) :
    lines (p.outb (irqPort irq) (imrAt p irq.toNat ||| bit))
      = { lines p with enabled := (lines p).enabled \ {i | i.val = irq.toNat} } := by
  have hservice := (h.outb_kept irq (imrAt p irq.toNat ||| bit)).2.2
  refine Lines.ext (Set.ext fun i => ?_) hservice
  change maskedIrq _ i = false ↔ maskedIrq p i = false ∧ ¬ i.val = irq.toNat
  rw [h.maskedIrq_outb]
  split
  case isTrue hsame =>
    have hat : imrAt p irq.toNat = imrAt p i := by
      rw [imrAt, imrAt]
      simp only [hsame]
    rw [UInt8.toBitVec_or, BitVec.getLsbD_or, irqBit_getLsbD hbit hsame, hat, ← maskedIrq,
      Bool.or_eq_false_iff, decide_eq_false_iff_not]
  case isFalse hother =>
    have hne : ¬ i.val = irq.toNat := fun heq => hother (by rw [heq])
    exact (and_iff_left hne).symm

/-- `irq_unmask` enables the IRQ. -/
theorem SetUpPics.unmask (h : SetUpPics p) {irq bit : UInt8} (hbit : irqBit irq = some bit) :
    lines (p.outb (irqPort irq) (imrAt p irq.toNat &&& ~~~ bit))
      = { lines p with enabled := (lines p).enabled ∪ {i | i.val = irq.toNat} } := by
  have hservice := (h.outb_kept irq (imrAt p irq.toNat &&& ~~~ bit)).2.2
  refine Lines.ext (Set.ext fun i => ?_) hservice
  change maskedIrq _ i = false ↔ maskedIrq p i = false ∨ i.val = irq.toNat
  rw [h.maskedIrq_outb]
  split
  case isTrue hsame =>
    have hat : imrAt p irq.toNat = imrAt p i := by
      rw [imrAt, imrAt]
      simp only [hsame]
    have hi : i.val % 8 < 8 := Nat.mod_lt _ (by decide)
    rw [UInt8.toBitVec_and, UInt8.toBitVec_not, BitVec.getLsbD_and, BitVec.getLsbD_not,
      irqBit_getLsbD hbit hsame, hat, ← maskedIrq, decide_eq_true hi, Bool.true_and,
      Bool.and_eq_false_iff, Bool.not_eq_false', decide_eq_true_iff]
  case isFalse hother =>
    have hne : ¬ i.val = irq.toNat := fun heq => hother (by rw [heq])
    exact (or_iff_left hne).symm

/-- The EOI command. -/
theorem SetUpPics.eoi (h : SetUpPics p) :
    (SetUpPics (p.outb 0x20 0x20) ∧ (p.outb 0x20 0x20).delivered = p.delivered ∧
      lines (p.outb 0x20 0x20) = { lines p with service := { (lines p).service with
        master := endHighest (lines p).service.master } }) ∧
    (SetUpPics (p.outb 0xA0 0x20) ∧ (p.outb 0xA0 0x20).delivered = p.delivered ∧
      lines (p.outb 0xA0 0x20) = { lines p with service := { (lines p).service with
        slave := endHighest (lines p).service.slave } }) :=
  ⟨⟨⟨h.master, h.slave⟩, rfl, rfl⟩, ⟨⟨h.master, h.slave⟩, rfl, rfl⟩⟩

/-! ## Events -/

theorem SetUpPics.event (h : SetUpPics p) (e : Event) : SetUpPics (p.event e) ∧
    ∀ irq, imrAt (p.event e) irq = imrAt p irq := by
  obtain ⟨hmaster, hslave⟩ := Pic.toConfig_event p e
  refine ⟨⟨?_, ?_⟩, fun irq => ?_⟩
  · rw [hmaster]
    exact h.master
  · rw [hslave]
    exact h.slave
  · rw [imrAt, imrAt, hmaster, hslave]

theorem lines_request (p : Pair) (irq : Fin 16) :
    (p.request irq).delivered = p.delivered ∧ lines (p.request irq) = lines p := by
  rw [Pair.request]
  split
  · split
    · exact ⟨rfl, rfl⟩
    · exact ⟨rfl, rfl⟩
  · exact ⟨rfl, rfl⟩

/-- An interrupt of the master. -/
theorem SetUpPics.acceptMaster (calls : PicCall → Prop) (h : SetUpPics p) {i : Fin 8}
    (hi : p.master.pending p.requests = some i) :
    LineStep calls (lines p) [p.master.base.toNat + i]
      { lines p with service := { (lines p).service with master := insert i p.master.isr } } := by
  obtain ⟨-, hclear, hfirst⟩ := Pic.State.pending_some hi
  have hirq : (⟨i.val, by omega⟩ : Fin 16).val < 8 := i.isLt
  have hline : masterLine ⟨i.val, by omega⟩ = i := by
    rw [masterLine, if_pos hirq]
    exact Fin.ext (Nat.mod_eq_of_lt i.isLt)
  have hslave : slaveLines ⟨i.val, by omega⟩ = ∅ := if_pos hirq
  have hpass : (lines p).Passes ⟨i.val, by omega⟩ := by
    refine ⟨?_, fun hge => absurd hge (by omega), ?_, ?_⟩
    · change maskedIrq p _ = false
      rw [maskedIrq, imrAt, if_pos hirq, Nat.mod_eq_of_lt hirq]
      exact hclear
    · rw [hline]
      exact hfirst
    · rw [hslave]
      exact fun _ hno => absurd hno (Finset.notMem_empty _)
  have hstep : LineStep calls (lines p) _ _ := .accept hpass
  rw [Pics.accept, hline, hslave, Finset.empty_union] at hstep
  have hbase : p.master.base.toNat = 32 := congrArg (·.base.toNat) h.master
  rw [hbase]
  exact hstep

/-- An interrupt of the slave. -/
theorem SetUpPics.acceptSlave (calls : PicCall → Prop) (h : SetUpPics p) {j : Fin 8}
    (hi : p.master.pending p.requests = some 2) (hj : p.slave.pending p.slave.irr = some j) :
    LineStep calls (lines p) [p.slave.base.toNat + j]
      ⟨(lines p).enabled, ⟨insert 2 p.master.isr, insert j p.slave.isr⟩⟩ := by
  obtain ⟨-, hclear, hfirst⟩ := Pic.State.pending_some hi
  obtain ⟨-, hclear', hfirst'⟩ := Pic.State.pending_some hj
  have hirq : ¬ (⟨8 + j.val, by omega⟩ : Fin 16).val < 8 := by
    simp only
    omega
  have hline : masterLine ⟨8 + j.val, by omega⟩ = 2 := if_neg hirq
  have hslave : slaveLines ⟨8 + j.val, by omega⟩ = {j} := by
    rw [slaveLines, if_neg hirq]
    congr 1
    exact Fin.ext (by simp)
  have hpass : (lines p).Passes ⟨8 + j.val, by omega⟩ := by
    refine ⟨?_, fun _ => hclear, ?_, ?_⟩
    · change maskedIrq p _ = false
      rw [maskedIrq, imrAt, if_neg hirq, Nat.add_mod_left, Nat.mod_eq_of_lt j.isLt]
      exact hclear'
    · rw [hline]
      exact hfirst
    · rw [hslave]
      intro k hk
      rw [Finset.mem_singleton.mp hk]
      exact hfirst'
  have hstep : LineStep calls (lines p) _ _ := .accept hpass
  rw [Pics.accept, hline, hslave] at hstep
  have hbase : p.slave.base.toNat = 40 := congrArg (·.base.toNat) h.slave
  rw [hbase]
  have hvector : 32 + (8 + j.val) = 40 + j.val := by omega
  rw [← hvector]
  exact hstep

/-- The processor accepts interrupts. -/
theorem SetUpPics.accept (calls : PicCall → Prop) (h : SetUpPics p) : p.accept = p ∨
    ∃ v, p.accept.delivered = p.delivered ++ [v] ∧
      LineStep calls (lines p) [v] (lines p.accept) := by
  have hauto : p.master.autoEoi = false ∧ p.slave.autoEoi = false :=
    ⟨congrArg (·.autoEoi) h.master, congrArg (·.autoEoi) h.slave⟩
  have hcascade : p.master.cascade = 0x04 ∧ p.slave.cascade = 0x02 :=
    ⟨congrArg (·.cascade) h.master, congrArg (·.cascade) h.slave⟩
  rw [Pair.accept]
  cases hi : p.master.pending p.requests with
  | none => exact Or.inl rfl
  | some i =>
      dsimp only
      by_cases htwo : i.val = 2
      · obtain rfl : i = 2 := Fin.ext htwo
        rw [if_pos ⟨rfl, hcascade⟩]
        cases hj : p.slave.pending p.slave.irr with
        | none => exact Or.inl rfl
        | some j =>
            refine Or.inr ⟨_, rfl, ?_⟩
            have hstep := h.acceptSlave calls hi hj
            simp only [Pic.State.acknowledge, lines, hauto]
            exact hstep
      · rw [if_neg fun hno => htwo hno.1]
        refine Or.inr ⟨_, rfl, ?_⟩
        have hstep := h.acceptMaster calls hi
        simp only [Pic.State.acknowledge, lines, hauto]
        exact hstep

end

/-! ## Runs -/

section

variable {calls : PicCall → Prop}

/-- Where the code is: between two calls, or inside one. -/
inductive PicPhase (calls : PicCall → Prop) (p : Pair) : Prog Unit → Prop
  | between {code : Prog Unit} {cs : List PicCall} : (∀ c ∈ cs, calls c) →
      picCalls cs = some code → PicPhase calls p code
  | masking {code : Prog Unit} {cs : List PicCall} {irq bit : UInt8} : (∀ c ∈ cs, calls c) →
      picCalls cs = some code → calls (.mask irq) → irqBit irq = some bit →
      PicPhase calls p (.outb (irqPort irq) (imrAt p irq.toNat ||| bit) code)
  | unmasking {code : Prog Unit} {cs : List PicCall} {irq bit : UInt8} : (∀ c ∈ cs, calls c) →
      picCalls cs = some code → calls (.unmask irq) → irqBit irq = some bit →
      PicPhase calls p (.outb (irqPort irq) (imrAt p irq.toNat &&& ~~~ bit) code)
  | ending {code : Prog Unit} {cs : List PicCall} {irq : UInt8} : (∀ c ∈ cs, calls c) →
      picCalls cs = some code → calls (.eoi irq) → PicPhase calls p (.outb 0x20 0x20 code)

/-- At some point of a run that has started with `p₀`. -/
structure PicsAt (calls : PicCall → Prop) (p₀ : Pair) (s : Pair × Prog Unit) : Prop where
  setUp : SetUpPics s.1
  phase : PicPhase calls s.1 s.2
  traced : ∃ vs, Traced (LineStep calls) (fun _ => True) (lines p₀) vs (lines s.1) ∧
    s.1.delivered = p₀.delivered ++ vs

theorem PicPhase.event {p : Pair} {code : Prog Unit} (h : PicPhase calls p code)
    (hp : SetUpPics p) (e : Event) : PicPhase calls (p.event e) code := by
  have hat := (hp.event e).2
  cases h with
  | between hall hcs => exact .between hall hcs
  | @masking _ _ irq _ hall hcs hcall hbit =>
      rw [← hat irq.toNat]
      exact .masking hall hcs hcall hbit
  | @unmasking _ _ irq _ hall hcs hcall hbit =>
      rw [← hat irq.toNat]
      exact .unmasking hall hcs hcall hbit
  | ending hall hcs hcall => exact .ending hall hcs hcall

/-- One step of the lines, or none. -/
theorem PicsAt.step {p₀ p p' : Pair} {code code' : Prog Unit} (h : PicsAt calls p₀ (p, code))
    (hp : SetUpPics p') (hphase : PicPhase calls p' code') {vs : List Nat}
    (hdelivered : p'.delivered = p.delivered ++ vs)
    (hstep : LineStep calls (lines p) vs (lines p')) : PicsAt calls p₀ (p', code') := by
  obtain ⟨ws, htraced, heq⟩ := h.traced
  refine ⟨hp, hphase, ws ++ vs, htraced.step hstep trivial, ?_⟩
  rw [hdelivered, heq, List.append_assoc]

theorem PicsAt.stay {p₀ p p' : Pair} {code code' : Prog Unit} (h : PicsAt calls p₀ (p, code))
    (hp : SetUpPics p') (hphase : PicPhase calls p' code')
    (hdelivered : p'.delivered = p.delivered) (hlines : lines p' = lines p) :
    PicsAt calls p₀ (p', code') := by
  obtain ⟨ws, htraced, heq⟩ := h.traced
  exact ⟨hp, hphase, ws, hlines ▸ htraced, hdelivered.trans heq⟩

/-- The first port access of a call. -/
theorem PicsAt.call {p₀ p : Pair} {code next : Prog Unit} {c : PicCall} {cs : List PicCall}
    (h : PicsAt calls p₀ (p, code)) (hall : ∀ d ∈ c :: cs, calls d)
    (hnext : picCalls cs = some next) (hcode : c.code next = some code) :
    PicsAt calls p₀ (code.advance Pic.device p) := by
  have hset : SetUpPics p := h.setUp
  have hc := hall c List.mem_cons_self
  have hcs : ∀ d ∈ cs, calls d := fun d hd => hall d (List.mem_cons_of_mem _ hd)
  have hnil : p.delivered = p.delivered ++ [] := (List.append_nil _).symm
  cases c with
  | mask irq =>
      obtain ⟨bit, hbit, rfl⟩ := Option.map_eq_some_iff.mp hcode
      have hread : Pic.device.inb p (irqPort irq) = (imrAt p irq.toNat, p) := inb_irqPort irq
      rw [Prog.advance, hread]
      exact h.stay hset (.masking hcs hnext hc hbit) rfl rfl
  | unmask irq =>
      obtain ⟨bit, hbit, rfl⟩ := Option.map_eq_some_iff.mp hcode
      have hread : Pic.device.inb p (irqPort irq) = (imrAt p irq.toNat, p) := inb_irqPort irq
      rw [Prog.advance, hread]
      exact h.stay hset (.unmasking hcs hnext hc hbit) rfl rfl
  | eoi irq =>
      obtain rfl := Option.some.inj hcode
      obtain ⟨⟨hmaster, hdel, hlines⟩, hslave, hdel', hlines'⟩ := hset.eoi
      unfold picEoiCode
      split
      case isTrue hge =>
        refine h.step hslave (.ending hcs hnext hc) (hdel'.trans hnil) ?_
        change LineStep _ _ _ (lines (p.outb _ _))
        rw [hlines']
        exact .endSlave hc hge
      case isFalse =>
        refine h.step hmaster (.between hcs hnext) (hdel.trans hnil) ?_
        change LineStep _ _ _ (lines (p.outb _ _))
        rw [hlines]
        exact .endMaster hc

/-- A port access. -/
theorem PicsAt.cpu {p₀ p : Pair} {code : Prog Unit} (h : PicsAt calls p₀ (p, code)) :
    PicsAt calls p₀ (code.advance Pic.device p) := by
  have hset : SetUpPics p := h.setUp
  have hnil : p.delivered = p.delivered ++ [] := (List.append_nil _).symm
  have hphase : PicPhase calls p code := h.phase
  cases hphase with
  | @masking next cs irq bit hall hcs hcall hbit =>
      obtain ⟨hkept, hdel, -⟩ := hset.outb_kept irq (imrAt p irq.toNat ||| bit)
      refine h.step hkept (.between hall hcs) (hdel.trans hnil) ?_
      change LineStep _ _ _ (lines (p.outb _ _))
      rw [hset.mask hbit]
      exact .disable hcall
  | @unmasking next cs irq bit hall hcs hcall hbit =>
      obtain ⟨hkept, hdel, -⟩ := hset.outb_kept irq (imrAt p irq.toNat &&& ~~~ bit)
      refine h.step hkept (.between hall hcs) (hdel.trans hnil) ?_
      change LineStep _ _ _ (lines (p.outb _ _))
      rw [hset.unmask hbit]
      exact .enable hcall
  | ending hall hcs hcall =>
      obtain ⟨hkept, hdel, hlines⟩ := hset.eoi.1
      refine h.step hkept (.between hall hcs) (hdel.trans hnil) ?_
      change LineStep _ _ _ (lines (p.outb _ _))
      rw [hlines]
      exact .endMaster hcall
  | @between _ cs hall hcs =>
      cases cs with
      | nil =>
          obtain rfl := Option.some.inj hcs
          exact h
      | cons c cs =>
          obtain ⟨next, hnext, hcode⟩ := Option.bind_eq_some_iff.mp hcs
          exact h.call hall hnext hcode

theorem PicsAt.turn {p₀ : Pair} (t : Turn Event) (s : Pair × Prog Unit) (h : PicsAt calls p₀ s) :
    PicsAt calls p₀ (Port.turn Pic.device t s) := by
  obtain ⟨p, code⟩ := s
  have hset : SetUpPics p := h.setUp
  cases t with
  | cpu => exact h.cpu
  | device e =>
      have hset' : SetUpPics (p.event e) := (hset.event e).1
      have hphase : PicPhase calls (p.event e) code := PicPhase.event h.phase hset e
      change PicsAt calls p₀ (p.event e, code)
      cases e with
      | request irq =>
          obtain ⟨hdel, hlines⟩ := lines_request p irq
          exact h.stay hset' hphase hdel hlines
      | accept =>
          rcases hset.accept calls with heq | ⟨v, hdel, hstep⟩
          · change PicsAt calls p₀ (p.accept, code)
            rw [heq]
            exact h
          · exact h.step hset' hphase hdel hstep

end

theorem endHighest_insert {i : Fin 8} {s : Finset (Fin 8)} (h : ∀ j ∈ s, i < j) :
    endHighest (insert i s) = s := by
  have hmin : (insert i s).min' (Finset.insert_nonempty i s) = i := by
    refine le_antisymm (Finset.min'_le _ _ (Finset.mem_insert_self i s)) ?_
    refine Finset.le_min' _ _ _ fun j hj => ?_
    rcases Finset.mem_insert.mp hj with rfl | hj
    · exact le_refl _
    · exact (h j hj).le
  rw [endHighest, dif_pos (Finset.insert_nonempty i s), hmin]
  exact Finset.erase_insert fun hi => lt_irrefl i (h i hi)

/-- The EOI of an interrupt that has been passed on, whatever else is in service. -/
theorem Lines.Passes.picEoi {l : Lines} {irq : Fin 16} (h : l.Passes irq) :
    picEoi irq (l.service.accept irq) = l.service := by
  have hmaster : endHighest (insert (masterLine irq) l.service.master) = l.service.master :=
    endHighest_insert h.master
  rw [TunaOs.picEoi, Pics.accept, hmaster]
  by_cases hirq : irq.val < 8
  · have hnone : slaveLines irq = ∅ := if_pos hirq
    rw [if_neg (by omega), hnone, Finset.empty_union]
  · have hone : slaveLines irq = {Fin.ofNat 8 (irq.val - 8)} := if_neg hirq
    have hslave := h.slave
    rw [hone] at hslave ⊢
    have hend : endHighest ({Fin.ofNat 8 (irq.val - 8)} ∪ l.service.slave) = l.service.slave :=
      endHighest_insert (hslave _ (Finset.mem_singleton_self _))
    rw [if_pos (by omega), hend]

/-- So the lines are as they were before it. -/
theorem Lines.Passes.ended {l l₁ l₂ : Lines} {irq : Fin 16} (h : l.Passes irq)
    (haccept : l₁ = { l with service := l.service.accept irq })
    (heoi : l₂ = { l₁ with service := TunaOs.picEoi irq l₁.service }) : l₂ = l := by
  rw [heoi, haccept]
  dsimp only
  rw [h.picEoi]

/-- What is delivered is an interrupt that may be. -/
theorem LineStep.delivers {calls : PicCall → Prop} {l l' : Lines} {v : Nat}
    (h : LineStep calls l [v] l') :
    ∃ irq : Fin 16, v = 32 + irq.val ∧ l.Passes irq ∧
      l' = { l with service := l.service.accept irq } := by
  cases h with
  | accept hpass => exact ⟨_, rfl, hpass, rfl⟩

/-- The lines are set by commands only. -/
theorem lines_congr {p q : Pair} (h : p.setting = q.setting) : lines p = lines q :=
  congrArg (fun c : Setting => lines ⟨⟨c.master, ∅, c.masterIsr⟩, ⟨c.slave, ∅, c.slaveIsr⟩, []⟩) h

/-- The port writes of `pic_eoi`. -/
def picEoiWrites (irq : UInt8) : List (UInt16 × UInt8) :=
  if irq ≥ 8 then [(0xA0, 0x20), (0x20, 0x20)] else [(0x20, 0x20)]

theorem picEoiCode_eq (irq : UInt8) (next : Prog Unit) :
    picEoiCode irq next = (outs (picEoiWrites irq)).bind fun _ => next := by
  rw [picEoiCode, picEoiWrites]
  split
  · rfl
  · rfl

/-- They do what `picEoi` states. -/
theorem SetUpPics.lines_picEoi {p : Pair} (hp : SetUpPics p) {irq : UInt8} {i : Fin 16}
    (hirq : irq.toNat = i.val) :
    ∃ q, SetUpPics q ∧ q.setting = (picEoiWrites irq).foldl Setting.write p.setting ∧
      lines q = { lines p with service := picEoi i (lines p).service } := by
  have hge : irq ≥ 8 ↔ 8 ≤ i.val := by
    rw [← hirq]
    exact UInt8.le_iff_toNat_le
  rw [picEoiWrites, picEoi]
  by_cases h : irq ≥ 8
  · rw [if_pos h, if_pos (hge.mp h)]
    refine ⟨(p.outb 0xA0 0x20).outb 0x20 0x20, hp.eoi.2.1.eoi.1.1, ?_, ?_⟩
    · rw [Pic.setting_outb, Pic.setting_outb]
      rfl
    · rw [hp.eoi.2.1.eoi.1.2.2, hp.eoi.2.2.2]
  · rw [if_neg h, if_neg fun hno => h (hge.mpr hno)]
    exact ⟨p.outb 0x20 0x20, hp.eoi.1.1, Pic.setting_outb .., hp.eoi.1.2.2⟩

section

variable {σ : Type}

/-- What `isr_dispatch` does to the controllers, with the code behind it. -/
def Dispatched.code (d : Dispatched σ) (next : Prog Unit) : Prog Unit :=
  d.controllers.bind fun _ =>
    match d.eoi with
    | none => next
    | some irq => picEoiCode (UInt8.ofNat irq) next

/-- `pit_irq_handler`, as far as the controllers are concerned, with `tick_count` before it.  What
`schedule` does is the matter of `Task/Interrupts`. -/
def pitHandler (tickCount : Nat) : IrqHandler σ where
  kernel _ k := k
  controllers _ _ :=
    if wrap64 (tickCount + 1) % scheduleInterval = 0 then picEoiCode 0 (.ret ()) else .ret ()

variable [FrameSource σ]

/-- `isr_dispatch` for an interrupt that has been accepted. -/
theorem isrDispatch_accepted {p : Pair} (hp : SetUpPics p) (frame : InterruptFrame)
    (hframe : p.accept.delivered = p.delivered ++ [frame.vector]) (handlers : IrqHandlers σ)
    (stack : Mem) (k : Kernel σ) (input : UInt8) :
    ∃ i : Fin 16, frame.vector = irqBase + i.val ∧ (lines p).Passes i ∧
      lines p.accept = { lines p with service := (lines p).service.accept i } ∧
      (isrDispatch handlers stack k frame input).outcome = .ret frame ∧
      (isrDispatch handlers stack k frame input).eoi = some i.val ∧
      (isrDispatch handlers stack k frame input).controllers =
        match handlers i.val with
        | none => .ret ()
        | some h => h.controllers frame k := by
  have hstep : ∃ v, p.accept.delivered = p.delivered ++ [v] ∧
      LineStep (fun _ => True) (lines p) [v] (lines p.accept) := by
    refine (hp.accept _).resolve_left fun hno => ?_
    rw [hno] at hframe
    exact absurd (congrArg List.length hframe) (by simp)
  obtain ⟨v, hv, hstep⟩ := hstep
  obtain ⟨i, hi, hpass, hlines⟩ := hstep.delivers
  have hvector : frame.vector = irqBase + i.val := by
    rw [irqBase, ← hi]
    exact (List.cons.inj (List.append_cancel_left (hframe.symm.trans hv))).1
  have hrange : irqBase ≤ frame.vector ∧ frame.vector < irqBase + 16 := by omega
  have hirq : frame.vector - irqBase = i.val := by omega
  have hsys : frame.vector ≠ 128 := by
    simp only [irqBase] at hrange
    omega
  refine ⟨i, hvector, hpass, hlines, ?_⟩
  rw [isrDispatch, if_neg hsys, if_pos hrange, hirq]
  dsimp only
  cases handlers i.val with
  | none => exact ⟨rfl, rfl, rfl⟩
  | some h => exact ⟨rfl, rfl, rfl⟩

omit [FrameSource σ] in
/-- The writes of a handler and the EOI behind them, in any schedule. -/
theorem eventually_code {p : Pair} {d : Dispatched σ} {irq : Nat} {ws : List (UInt16 × UInt8)}
    (heoi : d.eoi = some irq) (hcode : d.controllers = outs ws) (next : Prog Unit)
    {sched : Nat → Turn (Fin 16)} (hcpu : Often sched (· = .cpu)) :
    ∃ n p', run (Port.turn Pic.quiet) sched (p, d.code next) n = (p', next) ∧
      p'.setting = (picEoiWrites (UInt8.ofNat irq)).foldl Setting.write
        (ws.foldl Setting.write p.setting) := by
  have hall : d.code next
      = (outs (ws ++ picEoiWrites (UInt8.ofNat irq))).bind fun _ => next := by
    rw [Dispatched.code, hcode, heoi, Port.outs_append]
    exact congrArg _ (funext fun _ => picEoiCode_eq _ next)
  obtain ⟨n, hprog, hset⟩ := Port.eventually_outs Pic.settings (fun _ => next)
    (ws ++ picEoiWrites (UInt8.ofNat irq)) p hcpu
  rw [List.foldl_append] at hset
  rw [hall]
  exact ⟨n, _, Prod.ext rfl hprog, hset⟩

/-- The timer, with any others in service.  At every tenth tick its handler sends an EOI of its
own, and that of `isr_dispatch` ends an interrupt that the timer has interrupted. -/
theorem timer_lines {handlers : IrqHandlers σ} {tickCount : Nat} (stack : Mem) (k : Kernel σ)
    {p : Pair} (hp : SetUpPics p) {frame : InterruptFrame} (htimer : frame.vector = irqBase)
    (hframe : p.accept.delivered = p.delivered ++ [frame.vector]) (input : UInt8)
    (next : Prog Unit) (sched : Nat → Turn (Fin 16)) (hcpu : Often sched (· = .cpu)) :
    ∃ n p', run (Port.turn Pic.quiet) sched (p.accept,
        (isrDispatch (irqRegisterHandler 0 (pitHandler tickCount) handlers) stack k frame
          input).code next) n = (p', next) ∧
      lines p' = if wrap64 (tickCount + 1) % scheduleInterval = 0
        then { lines p with service := picEoi 0 (lines p).service } else lines p := by
  obtain ⟨i, hvector, hpass, hlines, -, heoi, hcode⟩ := isrDispatch_accepted hp frame hframe
    (irqRegisterHandler 0 (pitHandler tickCount) handlers) stack k input
  obtain rfl : i = 0 := Fin.ext (by omega)
  have hwrites : (isrDispatch (irqRegisterHandler 0 (pitHandler tickCount) handlers) stack k frame
      input).controllers = outs (if wrap64 (tickCount + 1) % scheduleInterval = 0
        then picEoiWrites 0 else []) := by
    refine hcode.trans (Eq.trans ?_ (apply_ite outs ..).symm)
    change (if _ then picEoiCode 0 (.ret ()) else .ret ()) = _
    rfl
  obtain ⟨n, p', hrun, hset⟩ := eventually_code heoi hwrites next hcpu (p := p.accept)
  refine ⟨n, p', hrun, ?_⟩
  have hbyte : (UInt8.ofNat (0 : Fin 16).val).toNat = (0 : Fin 16).val := rfl
  have hp' : SetUpPics p.accept := (hp.event .accept).1
  -- the first EOI ends the interrupt of the timer
  obtain ⟨q, hq, hqset, hend⟩ := hp'.lines_picEoi hbyte
  have hfirst : lines q = lines p := hpass.ended hlines hend
  split
  case isTrue htick =>
    obtain ⟨r, -, hrset, hend'⟩ := hq.lines_picEoi hbyte
    rw [if_pos htick] at hset
    rw [← hfirst, ← hend']
    refine lines_congr (hset.trans (Eq.trans ?_ hrset.symm))
    rw [hqset]
    rfl
  case isFalse htick =>
    rw [if_neg htick] at hset
    rw [← hfirst]
    exact lines_congr (hset.trans hqset.symm)

end

end TunaOs
