import Mathlib.Data.Nat.Count
import TunaOs.Lib.Port

/-!
# The counter of an 8254 timer

Counter 0, as far as it is written: a control word sets the mode and what is written of a count,
and a count is one or two bytes.  The event is a pulse of the clock.  `fired` is how often a count
has run out.  The output of a rate generator goes low then, and high again with the next pulse.

A rate generator with the count `n` (`Generates n`) fires at every `n`-th pulse, as long as the
program leaves its ports alone (`run_generates`).  The other counters, and reading the counter,
are left out.
-/

namespace Pit

open Fair (run)
open Port (Device Prog Turn turn)

/-- What a mode does when the count is over. -/
inductive Mode
  /-- It starts again. -/
  | periodic
  /-- It stops. -/
  | once
  /-- It waits for its gate, which never changes. -/
  | gated
deriving DecidableEq, Repr

/-- The modes, by their numbers.  Bit 2 does not matter to 6 and 7. -/
def Mode.ofBits : Nat → Mode
  | 0 | 4 => once
  | 1 | 5 => gated
  | _ => periodic

/-- The pulses that a count of `n` takes.  The first one loads it.  Modes that start again do so
from 1, and the others stop at 0. -/
def Mode.length : Mode → Nat → Nat
  | periodic, n => n
  | once, n => n + 1
  | gated, n => n + 1

/-- The state of the counter. -/
structure State where
  mode : Mode
  /-- What is written of a count: 1 is the low byte, 2 the high byte, 3 the low byte and then the
  high byte. -/
  access : UInt8
  bcd : Bool
  /-- The low byte of a count whose high byte is still to come. -/
  low : Option UInt8
  /-- The count, if there is one. -/
  reload : Option Nat
  /-- The count from the next period on, if it is another one. -/
  next : Option Nat
  /-- The pulses since it was loaded. -/
  elapsed : Nat
  fired : Nat
deriving DecidableEq, Repr

/-- A count of 16 bits.  Zero is the largest one. -/
def countOf (bcd : Bool) (v : Nat) : Nat :=
  if bcd then
    let n := v % 16 + 10 * (v / 16 % 16) + 100 * (v / 256 % 16) + 1000 * (v / 4096 % 16)
    if n = 0 then 10000 else n
  else if v = 0 then 65536 else v

section

variable (s : State)

/-- A count is written.  A period that is under way is not cut short. -/
def State.load (v : Nat) : State :=
  if s.mode = .periodic ∧ s.reload.isSome then
    { s with low := none, next := some (countOf s.bcd v) }
  else { s with low := none, reload := some (countOf s.bcd v), elapsed := 0 }

/-- A write to the control port.  Bits 7 and 6 are the counter, and an access of 0 only latches
the count. -/
def State.control (v : UInt8) : State :=
  if v >>> 6 ≠ 0 ∨ v >>> 4 &&& 3 = 0 then s
  else
    { s with
      mode := .ofBits (v >>> 1 &&& 7).toNat
      access := v >>> 4 &&& 3
      bcd := v &&& 1 ≠ 0
      low := none
      reload := none
      next := none
      elapsed := 0 }

/-- A write to the port of the counter. -/
def State.data (v : UInt8) : State :=
  if s.access = 1 then s.load v.toNat
  else if s.access = 2 then s.load (256 * v.toNat)
  else
    match s.low with
    | none => { s with low := some v }
    | some l => s.load (l.toNat + 256 * v.toNat)

/-- A pulse of the clock. -/
def State.clock : State :=
  match s.reload with
  | none => s
  | some n =>
      if s.elapsed + 1 < s.mode.length n then { s with elapsed := s.elapsed + 1 }
      else
        match s.mode with
        | .periodic =>
            { s with
              reload := some (s.next.getD n), next := none, elapsed := 0, fired := s.fired + 1 }
        | .once => { s with reload := none, fired := s.fired + 1 }
        | .gated => s

end

/-- The timer at the ports from `base` on. -/
def device (base : UInt16) : Device State Unit where
  inb s _ := (0xFF, s)
  outb s port v :=
    if port = base then s.data v else if port = base + 3 then s.control v else s
  event s _ := s.clock

/-- The ports that are written. -/
def ports (base port : UInt16) : Prop := port = base ∨ port = base + 3

/-! ## Rate generators -/

/-- The counter is a rate generator with the count `n`. -/
structure Generates (n : Nat) (s : State) : Prop where
  mode : s.mode = .periodic
  reload : s.reload = some n
  next : s.next = none
  elapsed : s.elapsed < n

/-- Pulses are periods, and those in the period that is under way. -/
def pulses (n : Nat) (s : State) : Nat := s.fired * n + s.elapsed

theorem Generates.clock {n : Nat} {s : State} (h : Generates n s) :
    Generates n s.clock ∧ pulses n s.clock = pulses n s + 1 := by
  have hlt := h.elapsed
  by_cases hgo : s.elapsed + 1 < n
  · have hclock : s.clock = { s with elapsed := s.elapsed + 1 } := by
      simp only [State.clock, h.reload, h.mode, Mode.length, if_pos hgo]
    rw [hclock]
    exact ⟨⟨h.mode, h.reload, h.next, hgo⟩, rfl⟩
  · have hclock : s.clock =
        { s with reload := some n, next := none, elapsed := 0, fired := s.fired + 1 } := by
      simp only [State.clock, h.reload, h.mode, h.next, Mode.length, if_neg hgo, Option.getD_none]
    rw [hclock]
    refine ⟨⟨h.mode, rfl, rfl, Nat.zero_lt_of_lt hlt⟩, ?_⟩
    simp only [pulses, Nat.add_mul]
    omega

/-- The turn is a pulse. -/
def isPulse : Turn Unit → Bool
  | .cpu => false
  | .device _ => true

/-- The pulses among the first turns. -/
def clocks (sched : Nat → Turn Unit) (n : Nat) : Nat := Nat.count (fun m => isPulse (sched m)) n

section

variable {α : Type} {base : UInt16}

theorem outb_device {s : State} {port : UInt16} (v : UInt8) (h : ¬ ports base port) :
    (device base).outb s port v = s := by
  obtain ⟨hdata, hcontrol⟩ := not_or.mp h
  rw [device]
  simp only [if_neg hdata, if_neg hcontrol]

/-- Pulses are counted while the program leaves the timer alone. -/
theorem run_generates {n : Nat} {s : State} (h : Generates n s) {p : Prog α}
    (hp : p.Avoids (ports base)) (sched : Nat → Turn Unit) : ∀ m,
      Generates n (run (turn (device base)) sched (s, p) m).1 ∧
      (run (turn (device base)) sched (s, p) m).2.Avoids (ports base) ∧
      pulses n (run (turn (device base)) sched (s, p) m).1 = pulses n s + clocks sched m
  | 0 => ⟨h, hp, rfl⟩
  | m + 1 => by
      obtain ⟨hgen, havoid, hpulses⟩ := run_generates h hp sched m
      have hcount : clocks sched (m + 1) = clocks sched m + if isPulse (sched m) then 1 else 0 :=
        Nat.count_succ _ _
      rw [run, hcount]
      generalize run (turn (device base)) sched (s, p) m = r at hgen havoid hpulses ⊢
      cases sched m with
      | cpu =>
          obtain ⟨hsame, hnext⟩ : (r.2.advance (device base) r.1).1 = r.1 ∧
              (r.2.advance (device base) r.1).2.Avoids (ports base) :=
            havoid.advance (fun _ _ => rfl) (fun _ _ v hno => outb_device v hno) r.1
          refine ⟨?_, hnext, ?_⟩
          · rw [turn, hsame]
            exact hgen
          · rw [turn, hsame]
            exact hpulses
      | device e =>
          obtain ⟨hgen', hone⟩ := hgen.clock
          refine ⟨hgen', havoid, ?_⟩
          change pulses n r.1.clock = _
          rw [hone, hpulses]
          rfl

/-- From the start of a period on, the timer fires at every `n`-th pulse. -/
theorem fired_generates {n : Nat} {s : State} (h : Generates n s) (hstart : s.elapsed = 0)
    {p : Prog α} (hp : p.Avoids (ports base)) (sched : Nat → Turn Unit) (m : Nat) :
    (run (turn (device base)) sched (s, p) m).1.fired = s.fired + clocks sched m / n := by
  obtain ⟨hgen, -, hpulses⟩ := run_generates h hp sched m
  generalize (run (turn (device base)) sched (s, p) m).1 = s' at hgen hpulses ⊢
  have hpos : 0 < n := Nat.zero_lt_of_lt h.elapsed
  rw [pulses, pulses, hstart, Nat.add_zero] at hpulses
  have hdiv := congrArg (· / n) hpulses
  simp only [Nat.mul_comm _ n] at hdiv
  rw [Nat.add_comm, Nat.add_mul_div_left _ _ hpos, Nat.div_eq_of_lt hgen.elapsed, Nat.zero_add,
    Nat.add_comm, Nat.add_mul_div_left _ _ hpos] at hdiv
  rw [hdiv, Nat.add_comm]

end

end Pit
