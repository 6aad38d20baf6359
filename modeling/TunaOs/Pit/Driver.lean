import TunaOs.Lib.Pit
import TunaOs.Pic.Driver

/-!
# The driver of the timer

The model of `pit_init`, down to the ports.  A frequency is turned into a count of 16 bits, which
is written to counter 0 of the timer in two bytes.  The timer counts while they are written.

The count has the 16 bits from 19 Hz on.  From 596592 Hz on it is 1, which a rate generator does
not take, and above 1193182 Hz it is 0, which stands for 65536.  `pit_init_rate` states that with
the other frequencies the timer then fires at every `1193182 / frequency`-th pulse of its clock,
whatever it was doing before, and what that makes in a second.  Above 1193182 Hz it fires at every
65536th.
-/

namespace TunaOs

open Fair (run Often)
open Pit (clocks ports Generates)
open Port (Prog Turn At)

/-! ## The driver -/

/-- `PIT_BASE_FREQ`. -/
def pitBaseFreq : UInt32 := 1193182

/-- `divisor` in `pit_init`. -/
def pitDivisor (frequency : UInt32) : UInt16 := (pitBaseFreq / frequency).toUInt16

/-- The timer. -/
abbrev timer : Port.Device Pit.State Unit := Pit.device 0x40

section

variable {α : Type}

/-- `pit_init`, with the code behind it.  A frequency of 0 is a division by zero. -/
def pitInit (frequency : UInt32) (next : Prog α) : Option (Prog α) :=
  if frequency = 0 then none
  else (irqUnmask 0 next).map fun unmask =>
    .outb 0x43 0x34 (.outb 0x40 (pitDivisor frequency &&& 0xFF).toUInt8
      (.outb 0x40 (pitDivisor frequency >>> 8 &&& 0xFF).toUInt8 unmask))

/-! ## The count -/

theorem toNat_pitDivisor (frequency : UInt32) :
    (pitDivisor frequency).toNat = 1193182 / frequency.toNat % 65536 := by
  rw [pitDivisor, UInt32.toNat_toUInt16, UInt32.toNat_div]
  rfl

/-- The two bytes of a count. -/
theorem bytes_add (d : UInt16) :
    (d &&& 0xFF).toUInt8.toNat + 256 * (d >>> 8 &&& 0xFF).toUInt8.toNat = d.toNat := by
  have hlt : d.toNat < 65536 := d.toNat_lt
  have hlow : (d &&& 0xFF).toUInt8.toNat = d.toNat % 256 := by
    rw [UInt16.toNat_toUInt8, UInt16.toNat_and]
    change (d.toNat &&& (2 ^ 8 - 1)) % 2 ^ 8 = _
    rw [Nat.and_two_pow_sub_one_eq_mod, Nat.mod_mod]
  have hhigh : (d >>> 8 &&& 0xFF).toUInt8.toNat = d.toNat / 256 := by
    rw [UInt16.toNat_toUInt8, UInt16.toNat_and, UInt16.toNat_shiftRight]
    change (d.toNat >>> 8 &&& (2 ^ 8 - 1)) % 2 ^ 8 = _
    rw [Nat.and_two_pow_sub_one_eq_mod, Nat.mod_mod, Nat.shiftRight_eq_div_pow]
    exact Nat.mod_eq_of_lt (by omega)
  rw [hlow, hhigh, Nat.mod_add_div]

/-- The frequencies whose count has 16 bits. -/
theorem pitDivisor_eq {frequency : UInt32} (hlow : 19 ≤ frequency.toNat) :
    (pitDivisor frequency).toNat = 1193182 / frequency.toNat := by
  have hle : 1193182 / frequency.toNat ≤ 1193182 / 19 := Nat.div_le_div_left hlow (by decide)
  rw [toNat_pitDivisor, Nat.mod_eq_of_lt (by omega)]

/-- The pulses between two ticks, for a frequency of at least 19 Hz. -/
def pitPeriod (frequency : UInt32) : Nat :=
  if frequency.toNat ≤ 1193182 then 1193182 / frequency.toNat else 65536

theorem pitPeriod_pos {frequency : UInt32} (hlow : 19 ≤ frequency.toNat) :
    0 < pitPeriod frequency := by
  rw [pitPeriod]
  split
  · exact Nat.div_pos (by omega) (by omega)
  · decide

theorem countOf_pitDivisor {frequency : UInt32} (hlow : 19 ≤ frequency.toNat) :
    Pit.countOf false (pitDivisor frequency).toNat = pitPeriod frequency := by
  rw [pitDivisor_eq hlow, pitPeriod]
  split
  case isTrue hle => exact if_neg (Nat.div_pos hle (by omega)).ne'
  case isFalse hgt => exact if_pos (Nat.div_eq_of_lt (by omega))

/-- The count is one that a rate generator takes, except from 596592 to 1193182 Hz. -/
theorem pitPeriod_eq_one {frequency : UInt32} (hlow : 19 ≤ frequency.toNat) :
    pitPeriod frequency = 1 ↔ 596592 ≤ frequency.toNat ∧ frequency.toNat ≤ 1193182 := by
  rw [pitPeriod]
  split
  case isTrue hle =>
    have hpos : 1 ≤ 1193182 / frequency.toNat := Nat.div_pos hle (by omega)
    have htwo : 2 ≤ 1193182 / frequency.toNat ↔ 2 * frequency.toNat ≤ 1193182 :=
      Nat.le_div_iff_mul_le (by omega)
    omega
  case isFalse hgt => omega

/-! ## Setting the timer up -/

/-- The timer waits for a count of two bytes. -/
structure Waits (low : Option UInt8) (s : Pit.State) : Prop where
  mode : s.mode = .periodic
  access : s.access = 3
  bcd : s.bcd = false
  low : s.low = low
  reload : s.reload = none
  next : s.next = none

/-- It does not count meanwhile. -/
theorem Waits.clock {low : Option UInt8} {s : Pit.State} (h : Waits low s) :
    Waits low s.clock := by
  have hsame : s.clock = s := by
    rw [Pit.State.clock, h.reload]
  rw [hsame]
  exact h

theorem waits_control (s : Pit.State) : Waits none (timer.outb s 0x43 0x34) := by
  have hword : ¬ ((0x34 : UInt8) >>> 6 ≠ 0 ∨ (0x34 : UInt8) >>> 4 &&& 3 = 0) := by decide
  have hmode : Pit.Mode.ofBits ((0x34 : UInt8) >>> 1 &&& 7).toNat = .periodic := by decide
  have haccess : (0x34 : UInt8) >>> 4 &&& 3 = 3 := by decide
  have hbcd : decide ((0x34 : UInt8) &&& 1 ≠ 0) = false := by decide
  have hcontrol : timer.outb s 0x43 0x34 = s.control 0x34 := rfl
  rw [hcontrol, Pit.State.control, if_neg hword]
  exact ⟨hmode, haccess, hbcd, rfl, rfl, rfl⟩

theorem Waits.low_byte {s : Pit.State} (h : Waits none s) (v : UInt8) :
    Waits (some v) (timer.outb s 0x40 v) := by
  have hdata : timer.outb s 0x40 v = { s with low := some v } := by
    change s.data v = _
    simp only [Pit.State.data, h.access, h.low]
    rfl
  rw [hdata]
  exact ⟨h.mode, h.access, h.bcd, rfl, h.reload, h.next⟩

/-- With the high byte it starts. -/
theorem Waits.high_byte {s : Pit.State} {l v : UInt8} {n : Nat} (h : Waits (some l) s)
    (hn : Pit.countOf false (l.toNat + 256 * v.toNat) = n) (hpos : 0 < n) :
    Generates n (timer.outb s 0x40 v) ∧ (timer.outb s 0x40 v).elapsed = 0 := by
  have hdata : timer.outb s 0x40 v = { s with low := none, reload := some n, elapsed := 0 } := by
    change s.data v = _
    have hload : s.data v = s.load (l.toNat + 256 * v.toNat) := by
      simp only [Pit.State.data, h.access, h.low]
      rfl
    rw [hload, Pit.State.load, h.reload, h.bcd, hn, if_neg fun hno => Bool.noConfusion hno.2]
  rw [hdata]
  exact ⟨⟨h.mode, rfl, h.next, hpos⟩, rfl⟩

/-- The timer pulses until the processor writes. -/
theorem eventually_write {P Q : Pit.State → Prop} {port : UInt16} {v : UInt8} {next : Prog α}
    (hclock : ∀ s, P s → P s.clock) (hwrite : ∀ s, P s → Q (timer.outb s port v))
    {sched : Nat → Turn Unit} (hcpu : Often sched (· = .cpu)) {s : Pit.State × Prog α}
    (hs : At P (.outb port v next) s) : ∃ m, At Q next (run (Port.turn timer) sched s m) :=
  Port.eventually_cpu (fun s _ h => hclock s h) (fun s h => ⟨hwrite s h, rfl⟩) hcpu hs

/-- The three writes come to their end, and at that time a period starts. -/
theorem eventually_generates {l v : UInt8} {n : Nat}
    (hn : Pit.countOf false (l.toNat + 256 * v.toNat) = n) (hpos : 0 < n) (s : Pit.State)
    (next : Prog α) {sched : Nat → Turn Unit} (hcpu : Often sched (· = .cpu)) :
    ∃ m, At (fun s' => Generates n s' ∧ s'.elapsed = 0) next
      (run (Port.turn timer) sched (s, .outb 0x43 0x34 (.outb 0x40 l (.outb 0x40 v next))) m) := by
  have hstart : At (fun _ => True) (.outb 0x43 0x34 (.outb 0x40 l (.outb 0x40 v next)))
      (s, Prog.outb 0x43 0x34 (.outb 0x40 l (.outb 0x40 v next))) := ⟨trivial, rfl⟩
  obtain ⟨a, ha⟩ := eventually_write (fun _ _ => trivial) (fun s' _ => waits_control s') hcpu hstart
  obtain ⟨b, hb⟩ := eventually_write (fun _ h => h.clock) (fun _ h => h.low_byte l)
    (hcpu.after a) ha
  obtain ⟨c, hc⟩ := eventually_write (Q := fun s' => Generates n s' ∧ s'.elapsed = 0)
    (fun _ h => h.clock) (fun _ h => h.high_byte hn hpos) ((hcpu.after a).after b) hb
  refine ⟨a + (b + c), ?_⟩
  rw [Fair.run_add, Fair.run_add]
  exact hc

/-! ## The rate -/

/-- `irq_unmask` leaves the timer alone. -/
theorem avoids_irqUnmask {next unmask : Prog α} (h : irqUnmask 0 next = some unmask)
    (hnext : next.Avoids (ports 0x40)) : unmask.Avoids (ports 0x40) := by
  cases h
  have hport : ¬ ports 0x40 (irqPort 0) := not_or.mpr (by decide)
  exact fun _ => ⟨hport, hnext⟩

/-- A second of pulses has at least as many periods of `1193182 / f` as asked for. -/
theorem rate_bounds {f d : Nat} (hpos : 0 < d) (hd : 1193182 / f = d) :
    f ≤ 1193182 / d ∧ 1193182 / d ≤ f + f / d := by
  have hf : 0 < f := by
    refine Nat.pos_of_ne_zero fun h0 => ?_
    rw [h0, Nat.div_zero] at hd
    omega
  have hle : d * f ≤ 1193182 := by
    rw [← hd]
    exact Nat.div_mul_le_self _ _
  have hlt : 1193182 < (d + 1) * f := by
    rw [← hd, Nat.mul_comm]
    exact Nat.lt_mul_div_succ _ hf
  refine ⟨(Nat.le_div_iff_mul_le hpos).mpr (by rw [Nat.mul_comm]; exact hle), ?_⟩
  have hsum : (d + 1) * f = f + d * f := by rw [Nat.add_mul, Nat.one_mul, Nat.add_comm]
  calc 1193182 / d ≤ (f + d * f) / d := Nat.div_le_div_right (by omega)
    _ = f + f / d := by rw [Nat.add_mul_div_left _ _ hpos, Nat.add_comm]

/-- Whatever the timer was doing, and whenever its clock pulses: the writes of `pit_init` come to
their end, and from then on, as long as the code leaves the timer alone, it fires at every
`pitPeriod frequency`-th pulse exactly.  Up to 596591 Hz, in the first second of 1193182 pulses
that is as often as asked for, or too often by at most `frequency / (1193182 / frequency)`. -/
theorem pit_init_rate {frequency : UInt32} (hlow : 19 ≤ frequency.toNat)
    (hcount : ¬ (596592 ≤ frequency.toNat ∧ frequency.toNat ≤ 1193182)) {next code : Prog α}
    (hcode : pitInit frequency next = some code) (hnext : next.Avoids (ports 0x40))
    (s : Pit.State) {sched : Nat → Turn Unit} (hcpu : Often sched (· = .cpu)) :
    2 ≤ pitPeriod frequency ∧
    ∃ n s' rest, run (Port.turn timer) sched (s, code) n = (s', rest) ∧
      irqUnmask 0 next = some rest ∧
      ∀ (sched' : Nat → Turn Unit) (m : Nat),
        (run (Port.turn timer) sched' (s', rest) m).1.fired
            = s'.fired + clocks sched' m / pitPeriod frequency ∧
          (frequency.toNat ≤ 596591 → clocks sched' m = 1193182 →
            s'.fired + frequency.toNat ≤ (run (Port.turn timer) sched' (s', rest) m).1.fired ∧
            (run (Port.turn timer) sched' (s', rest) m).1.fired ≤ s'.fired + (frequency.toNat +
              frequency.toNat / (1193182 / frequency.toNat))) := by
  have hpos := pitPeriod_pos hlow
  have hone := mt (pitPeriod_eq_one hlow).mp hcount
  have hne : frequency ≠ 0 := by
    rintro rfl
    exact absurd hlow (by decide)
  rw [pitInit, if_neg hne] at hcode
  obtain ⟨unmask, hunmask, rfl⟩ := Option.map_eq_some_iff.mp hcode
  obtain ⟨n, ⟨hgen, hstart⟩, hrest⟩ := eventually_generates
    ((congrArg (Pit.countOf false) (bytes_add _)).trans (countOf_pitDivisor hlow)) hpos s unmask
    hcpu
  refine ⟨by omega, n, _, unmask, Prod.ext rfl hrest, hunmask, fun sched' m => ?_⟩
  have hfired := Pit.fired_generates hgen hstart (avoids_irqUnmask hunmask hnext) sched' m
  refine ⟨hfired, fun hhigh hsecond => ?_⟩
  have hperiod : pitPeriod frequency = 1193182 / frequency.toNat := if_pos (by omega)
  obtain ⟨hge, hle⟩ := rate_bounds (hperiod ▸ hpos) rfl
  rw [hfired, hsecond, hperiod]
  exact ⟨Nat.add_le_add_left hge _, Nat.add_le_add_left hle _⟩

end

/-- A timer that no one has set up. -/
def blankTimer : Pit.State := ⟨.once, 0, true, some 7, some 3, none, 1, 0⟩

/-- The processor has every other turn. -/
def alternating (n : Nat) : Turn Unit := if n % 2 = 0 then .cpu else .device ()

theorem often_alternating : Often alternating (· = .cpu) := by
  intro n
  refine ⟨2 * n, by omega, if_pos (by omega)⟩

/-- At 100 Hz the timer fires at every 11931st pulse. -/
theorem pit_init_rate_hundred : ∃ s' rest, irqUnmask 0 (.ret ()) = some rest ∧
    ∀ sched' m, (run (Port.turn timer) sched' (s', rest) m).1.fired
      = s'.fired + clocks sched' m / 11931 := by
  obtain ⟨code, hcode⟩ : ∃ code, pitInit 100 (Prog.ret ()) = some code := ⟨_, rfl⟩
  obtain ⟨-, -, s', rest, -, hrest, hrate⟩ := pit_init_rate (by decide) (by decide) hcode trivial
    blankTimer often_alternating
  exact ⟨s', rest, hrest, fun sched' m => (hrate sched' m).1⟩

end TunaOs
