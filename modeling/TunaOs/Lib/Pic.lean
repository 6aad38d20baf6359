import Mathlib.Data.Finset.Max
import Mathlib.Data.Fintype.Basic
import Mathlib.Order.Fin.Basic
import TunaOs.Lib.Port

/-!
# 8259 interrupt controllers

A controller is set up by a sequence of command words, of which the first goes to its command
port and the others to its data port, where it then takes its mask.  Of the requests that are
not masked it passes on the one of the highest priority, which is the lowest line, unless a
line of the same or a higher priority is in service.

`Pair` is the two controllers of a PC, the second one on line 2 of the first.  Its events are
requests of devices, and the processor that accepts an interrupt; `delivered` are the vectors
that it has been given.  Rotating priorities, special masks and polling are left out, and so are
spurious interrupts: a request does not go away, so no controller ever gives the vector of its
line 7 for one that has.
-/

namespace Pic

open Port (Device)

/-! ## One controller -/

/-- What a controller expects at its data port. -/
inductive Expects
  | icw2
  | icw3
  | icw4
  | mask
deriving DecidableEq, Repr

/-- What commands set. -/
structure Config where
  expects : Expects
  /-- There is no other controller. -/
  single : Bool
  /-- There is a fourth command word. -/
  fourth : Bool
  /-- The vector of line 0. -/
  base : UInt8
  /-- The lines with another controller, or the line of the other one that this one is on. -/
  cascade : UInt8
  /-- Interrupts are not in service after they are accepted. -/
  autoEoi : Bool
  /-- The controller gives vectors. -/
  vectors : Bool
  /-- The lines that are masked. -/
  imr : UInt8
deriving DecidableEq, Repr

/-- The state of a controller. -/
structure State extends Config where
  /-- The lines with a request. -/
  irr : Finset (Fin 8)
  /-- The lines in service. -/
  isr : Finset (Fin 8)
deriving DecidableEq

/-- The first command word, if `v` is one. -/
def Config.command (c : Config) (v : UInt8) : Config :=
  if v &&& 0x10 ≠ 0 then
    { c with
      expects := .icw2
      single := v &&& 0x02 ≠ 0
      fourth := v &&& 0x01 ≠ 0
      autoEoi := false
      vectors := false
      imr := 0 }
  else c

/-- What follows the third command word. -/
def Config.afterIcw3 (c : Config) : Expects := if c.fourth then .icw4 else .mask

/-- A write to the data port. -/
def Config.data (c : Config) (v : UInt8) : Config :=
  match c.expects with
  | .icw2 => { c with base := v &&& 0xF8, expects := if c.single then c.afterIcw3 else .icw3 }
  | .icw3 => { c with cascade := v, expects := c.afterIcw3 }
  | .icw4 => { c with autoEoi := v &&& 0x02 ≠ 0, vectors := v &&& 0x01 ≠ 0, expects := .mask }
  | .mask => { c with imr := v }

/-- The end of the interrupt of the highest priority. -/
def endHighest (lines : Finset (Fin 8)) : Finset (Fin 8) :=
  if h : lines.Nonempty then lines.erase (lines.min' h) else lines

/-- What a write to the command port does to the lines in service. -/
def serviced (v : UInt8) (isr : Finset (Fin 8)) : Finset (Fin 8) :=
  if v &&& 0x10 ≠ 0 then ∅
  else if v &&& 0x08 ≠ 0 then isr
  else if v >>> 5 = 1 then endHighest isr
  else if v >>> 5 = 3 then isr.filter (·.val ≠ (v &&& 0x07).toNat)
  else isr

/-- A write to the command port. -/
def State.command (s : State) (v : UInt8) : State where
  toConfig := s.toConfig.command v
  irr := if v &&& 0x10 ≠ 0 then ∅ else s.irr
  isr := serviced v s.isr

/-- A write to the data port. -/
def State.data (s : State) (v : UInt8) : State := { s with toConfig := s.toConfig.data v }

/-- A line is masked. -/
def Config.masked (c : Config) (i : Fin 8) : Bool := c.imr.toBitVec.getLsbD i

/-- The line that is passed on, out of those with a request. -/
def State.pending (s : State) (requests : Finset (Fin 8)) : Option (Fin 8) :=
  if s.expects = .mask then
    if h : (requests.filter fun i => s.masked i = false).Nonempty then
      let i := (requests.filter fun i => s.masked i = false).min' h
      if ∀ j ∈ s.isr, i < j then some i else none
    else none
  else none

/-- A line is accepted. -/
def State.acknowledge (s : State) (i : Fin 8) : State :=
  { s with irr := s.irr.erase i, isr := if s.autoEoi then s.isr else insert i s.isr }

theorem State.pending_some {s : State} {requests : Finset (Fin 8)} {i : Fin 8}
    (h : s.pending requests = some i) :
    i ∈ requests ∧ s.masked i = false ∧ ∀ j ∈ s.isr, i < j := by
  rw [State.pending] at h
  split at h
  case isFalse => cases h
  case isTrue =>
    split at h
    case isFalse => cases h
    case isTrue hopen =>
      dsimp only at h
      split at h
      case isFalse => cases h
      case isTrue hfirst =>
        obtain rfl := Option.some.inj h
        obtain ⟨hmem, hclear⟩ := Finset.mem_filter.mp (Finset.min'_mem _ hopen)
        exact ⟨hmem, hclear, hfirst⟩

/-! ## Two controllers -/

/-- The two controllers of a PC. -/
structure Pair where
  master : State
  slave : State
  /-- The vectors that the processor has been given, the oldest one first. -/
  delivered : List Nat
deriving DecidableEq

/-- The events. -/
inductive Event
  /-- A device requests an interrupt. -/
  | request (irq : Fin 16)
  /-- The processor accepts interrupts. -/
  | accept
deriving DecidableEq, Repr

section

variable (p : Pair)

/-- A request of a device.  Line 2 of the master is not one. -/
def Pair.request (irq : Fin 16) : Pair :=
  if h : irq.val < 8 then
    if irq.val = 2 then p
    else { p with master := { p.master with irr := insert ⟨irq, h⟩ p.master.irr } }
  else { p with slave := { p.slave with
    irr := insert ⟨irq - 8, by omega⟩ p.slave.irr } }

/-- The requests at the master.  The slave is on line 2. -/
def Pair.requests : Finset (Fin 8) :=
  p.master.irr ∪ if (p.slave.pending p.slave.irr).isSome then Finset.univ.filter (·.val = 2) else ∅

/-- The processor accepts interrupts, and is given a vector if there is one to accept. -/
def Pair.accept : Pair :=
  match p.master.pending p.requests with
  | none => p
  | some i =>
    if i.val = 2 ∧ p.master.cascade = 0x04 ∧ p.slave.cascade = 0x02 then
      match p.slave.pending p.slave.irr with
      | none => p
      | some j =>
        { master := p.master.acknowledge i
          slave := p.slave.acknowledge j
          delivered := p.delivered ++ [p.slave.base.toNat + j] }
    else
      { p with
        master := p.master.acknowledge i
        delivered := p.delivered ++ [p.master.base.toNat + i] }

def Pair.event : Event → Pair
  | .request irq => p.request irq
  | .accept => p.accept

end

/-- A read of a port of the pair. -/
def Pair.inb (p : Pair) (port : UInt16) : UInt8 × Pair :=
  if port = 0x21 then (p.master.imr, p)
  else if port = 0xA1 then (p.slave.imr, p)
  else (0xFF, p)

/-- A write of a port of the pair. -/
def Pair.outb (p : Pair) (port : UInt16) (v : UInt8) : Pair :=
  if port = 0x20 then { p with master := p.master.command v }
  else if port = 0x21 then { p with master := p.master.data v }
  else if port = 0xA0 then { p with slave := p.slave.command v }
  else if port = 0xA1 then { p with slave := p.slave.data v }
  else p

/-- The pair, with a processor that may accept interrupts. -/
def device : Device Pair Event where
  inb := Pair.inb
  outb := Pair.outb
  event := Pair.event

/-- The pair, with a processor that does not. -/
def quiet : Device Pair (Fin 16) where
  inb := Pair.inb
  outb := Pair.outb
  event := Pair.request

/-! ## Settings -/

/-- What commands set at both controllers, and the lines in service. -/
structure Setting where
  master : Config
  slave : Config
  masterIsr : Finset (Fin 8)
  slaveIsr : Finset (Fin 8)

def Pair.setting (p : Pair) : Setting :=
  ⟨p.master.toConfig, p.slave.toConfig, p.master.isr, p.slave.isr⟩

def Setting.write (c : Setting) (w : UInt16 × UInt8) : Setting :=
  if w.1 = 0x20 then
    { c with master := c.master.command w.2, masterIsr := serviced w.2 c.masterIsr }
  else if w.1 = 0x21 then { c with master := c.master.data w.2 }
  else if w.1 = 0xA0 then
    { c with slave := c.slave.command w.2, slaveIsr := serviced w.2 c.slaveIsr }
  else if w.1 = 0xA1 then { c with slave := c.slave.data w.2 }
  else c

theorem setting_request (p : Pair) (irq : Fin 16) : (p.request irq).setting = p.setting := by
  rw [Pair.request]
  split
  · split
    · rfl
    · rfl
  · rfl

theorem setting_outb (p : Pair) (port : UInt16) (v : UInt8) :
    (p.outb port v).setting = p.setting.write (port, v) := by
  rw [Pair.outb, Setting.write]
  split
  · rfl
  · split
    · rfl
    · split
      · rfl
      · split
        · rfl
        · rfl

/-- No event changes what commands set. -/
theorem toConfig_event (p : Pair) (e : Event) : (p.event e).master.toConfig = p.master.toConfig ∧
    (p.event e).slave.toConfig = p.slave.toConfig := by
  cases e with
  | request irq =>
      have h := setting_request p irq
      exact ⟨congrArg Setting.master h, congrArg Setting.slave h⟩
  | accept =>
      simp only [Pair.event, Pair.accept]
      split
      · exact ⟨rfl, rfl⟩
      · split
        · split
          · exact ⟨rfl, rfl⟩
          · exact ⟨rfl, rfl⟩
        · exact ⟨rfl, rfl⟩

/-- While no interrupt is accepted, they are what writes make of them. -/
theorem settings : Port.Settings quiet Pair.setting Setting.write where
  event := setting_request
  outb := setting_outb

end Pic
