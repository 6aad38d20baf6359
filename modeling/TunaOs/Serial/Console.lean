import TunaOs.Lib.Uart

/-!
# The console

The driver of the serial port, down to the ports: `serial_init`, `serial_write_char` and the
loop of `sys_read`.  Code that uses the port through the last two only is a console program,
which writes bytes and reads bytes; what it means without a device is `Console.Runs`.

The transmitter shifts and bytes arrive at any time between two port accesses.  At every moment
what has been handed to the transmitter is what the program has written, and what the program
has read is what the receiver took in first (`Console.served`).  If the processor, the transmitter
and the sender of the other side keep going, the program ends and all it has written is sent
(`Console.eventually_ret`, `eventually_sent`).
-/

namespace TunaOs

open Fair (run after Often)
open Port (Prog Turn turn outs At)
open Uart (Event Config)

/-! ## The driver -/

/-- The UART of COM1. -/
abbrev com1 : Port.Device Uart.State Event := Uart.device 0x3F8

/-- `serial_init`. -/
def serialInit : List (UInt16 × UInt8) :=
  [(0x3F8 + 1, 0x00), (0x3F8 + 3, 0x80), (0x3F8 + 0, 0x03), (0x3F8 + 1, 0x00), (0x3F8 + 3, 0x03),
    (0x3F8 + 2, 0xC7), (0x3F8 + 4, 0x0B)]

section

variable {α : Type}

/-- `serial_write_char`.  The loop tests bit 5. -/
def serialWriteCharCode (c : UInt8) (next : Prog α) : Prog α :=
  .poll (0x3F8 + 5) 0x20 (.outb 0x3F8 c next)

/-- `sys_read`. -/
def sysReadCode (next : UInt8 → Prog α) : Prog α :=
  .poll (0x3F8 + 5) 0x01 (.inb 0x3F8 next)

/-! ## Console programs -/

/-- A program that writes and reads bytes. -/
inductive Console (α : Type)
  | ret (a : α)
  | write (c : UInt8) (next : Console α)
  | read (next : UInt8 → Console α)

/-- Its code. -/
def Console.code : Console α → Prog α
  | ret a => .ret a
  | write c next => serialWriteCharCode c next.code
  | read next => sysReadCode fun b => (next b).code

/-- A part of a run of a program, with what it reads and what it writes. -/
inductive Console.Runs (q : Console α) : List UInt8 → List UInt8 → Console α → Prop
  | start : Runs q [] [] q
  | write {input output : List UInt8} {c : UInt8} {next : Console α} :
      Runs q input output (.write c next) → Runs q input (output ++ [c]) next
  | read {input output : List UInt8} {next : UInt8 → Console α} (b : UInt8) :
      Runs q input output (.read next) → Runs q (input ++ [b]) output (next b)

/-- The settings that the driver needs. -/
def Driven (u : Uart.State) : Prop := u.dlab = false ∧ u.loopback = false

/-- Where the code is: before a call, or in one behind the loop that polls. -/
inductive Phase : Console α → Uart.State → Prog α → Prop
  | between (q : Console α) (u : Uart.State) : Phase q u q.code
  | canWrite {c : UInt8} {next : Console α} {u : Uart.State} : u.tx = [] →
      Phase (.write c next) u (.outb 0x3F8 c next.code)
  | canRead {next : UInt8 → Console α} {u : Uart.State} : u.rx ≠ [] →
      Phase (.read next) u (.inb 0x3F8 fun b => (next b).code)

/-- The UART has served a program that has read `input` and written `output` since the state
`u₀`. -/
structure Served (u₀ : Uart.State) (input output : List UInt8) (u : Uart.State) : Prop where
  driven : Driven u
  /-- All that is written is sent, being sent or about to be, in order. -/
  handed : u.handed = u₀.handed ++ output
  /-- What has been taken in is read or about to be, in order. -/
  received : ∃ new, u.accepted = u₀.accepted ++ new ∧ u₀.rx ++ new = input ++ u.rx

/-- At some point of a run. -/
def Console.At (u₀ : Uart.State) (q₀ : Console α) (s : Uart.State × Prog α) : Prop :=
  ∃ input output q, q₀.Runs input output q ∧ Served u₀ input output s.1 ∧ Phase q s.1 s.2

/-! ## Safety -/

theorem Driven.event {u : Uart.State} (h : Driven u) (e : Event) : Driven (u.event e) := by
  rw [Driven, Uart.toConfig_event]
  exact h

theorem Served.event {u₀ u : Uart.State} {input output : List UInt8}
    (h : Served u₀ input output u) (e : Event) : Served u₀ input output (u.event e) := by
  refine ⟨h.driven.event e, (Uart.handed_event h.driven.2 e).trans h.handed, ?_⟩
  obtain ⟨new, haccepted, hrx⟩ := h.received
  obtain ⟨more, haccepted', hrx'⟩ := Uart.received_event h.driven.2 e
  refine ⟨new ++ more, ?_, ?_⟩
  · rw [haccepted', haccepted, List.append_assoc]
  · rw [hrx', ← List.append_assoc, hrx, List.append_assoc]

theorem Phase.event {q : Console α} {u : Uart.State} {p : Prog α} (h : Phase q u p)
    (hu : Driven u) (e : Event) : Phase q (u.event e) p := by
  cases h with
  | between => exact .between _ _
  | canWrite htx => exact .canWrite (Uart.tx_event hu.2 htx e)
  | canRead hrx => exact .canRead (Uart.rx_event hu.2 hrx e)

/-- A read of the line status. -/
theorem Served.status {u₀ u : Uart.State} {input output : List UInt8}
    (h : Served u₀ input output u) :
    Served u₀ input output { u with overrun := false } :=
  ⟨h.driven, h.handed, h.received⟩

/-- A byte is written to an empty transmitter. -/
theorem Served.transmit {u₀ u : Uart.State} {input output : List UInt8}
    (h : Served u₀ input output u) (htx : u.tx = []) (c : UInt8) :
    Served u₀ input (output ++ [c]) (com1.outb u 0x3F8 c) := by
  have hcap : u.tx.length < u.capacity := by
    rw [htx, Config.capacity]
    split
    · decide
    · decide
  have hwrite : com1.outb u 0x3F8 c = { u with tx := u.tx ++ [c] } := by
    change (if u.dlab then { u with dll := c } else u.transmit c) = _
    rw [h.driven.1, if_neg Bool.false_ne_true, Uart.State.transmit, if_pos hcap]
  rw [hwrite]
  refine ⟨h.driven, ?_, h.received⟩
  rw [← List.append_assoc, ← h.handed]
  exact (List.append_assoc ..).symm

/-- A byte is read from the receiver. -/
theorem Served.take {u₀ u : Uart.State} {input output : List UInt8}
    (h : Served u₀ input output u) {b : UInt8} {rx : List UInt8} (hrx : u.rx = b :: rx) :
    com1.inb u 0x3F8 = (b, { u with rx }) ∧ Served u₀ (input ++ [b]) output { u with rx } := by
  have hread : com1.inb u 0x3F8 = (b, { u with rx }) := by
    change (if u.dlab then (u.dll, u) else (u.rx.headD 0, { u with rx := u.rx.tail })) = _
    rw [h.driven.1, if_neg Bool.false_ne_true, hrx]
    rfl
  obtain ⟨new, haccepted, hin⟩ := h.received
  refine ⟨hread, h.driven, h.handed, new, haccepted, ?_⟩
  rw [hin, hrx, List.append_assoc]
  rfl

/-- The code goes on. -/
theorem Console.At.cpu {u₀ u : Uart.State} {q₀ : Console α} {p : Prog α}
    (h : Console.At u₀ q₀ (u, p)) : Console.At u₀ q₀ (p.advance com1 u) := by
  obtain ⟨input, output, q, hruns, hserved, hphase⟩ := h
  cases hphase with
  | canWrite htx => exact ⟨_, _, _, hruns.write, hserved.transmit htx _, .between _ _⟩
  | canRead hrx =>
      obtain ⟨b, rx, hcons⟩ := List.exists_cons_of_ne_nil hrx
      obtain ⟨hread, hserved'⟩ := hserved.take hcons
      refine ⟨_, _, _, hruns.read b, ?_, ?_⟩
      · rw [Prog.advance, hread]
        exact hserved'
      · rw [Prog.advance, hread]
        exact .between _ _
  | between =>
      cases q with
      | ret a => exact ⟨_, _, _, hruns, hserved, .between _ _⟩
      | write c next =>
          refine ⟨_, _, _, hruns, hserved.status, ?_⟩
          change Phase _ _ (if u.lsr &&& 0x20 = 0 then (Console.write c next).code else _)
          split
          case isTrue => exact .between _ _
          case isFalse hbit =>
            exact .canWrite (Classical.not_not.mp fun h => hbit ((Uart.lsr_tx u).mpr h))
      | read next =>
          refine ⟨_, _, _, hruns, hserved.status, ?_⟩
          change Phase _ _ (if u.lsr &&& 0x01 = 0 then (Console.read next).code else _)
          split
          case isTrue => exact .between _ _
          case isFalse hbit => exact .canRead fun h => hbit ((Uart.lsr_rx u).mpr (not_not_intro h))

theorem Console.At.turn {u₀ : Uart.State} {q₀ : Console α} (t : Turn Event)
    (s : Uart.State × Prog α) (h : Console.At u₀ q₀ s) : Console.At u₀ q₀ (turn com1 t s) := by
  cases t with
  | cpu => exact h.cpu
  | device e =>
      obtain ⟨input, output, q, hruns, hserved, hphase⟩ := h
      exact ⟨input, output, q, hruns, hserved.event e, hphase.event hserved.driven e⟩

/-- At any time of any schedule. -/
theorem Console.served {u : Uart.State} (hu : Driven u) (q : Console α)
    (sched : Nat → Turn Event) (n : Nat) : q.At u (run (Port.turn com1) sched (u, q.code) n) := by
  refine Fair.run_invariant Console.At.turn ?_ sched n
  exact ⟨[], [], q, .start, ⟨hu, (List.append_nil _).symm, [], (List.append_nil _).symm,
    List.append_nil _⟩, .between _ _⟩

/-! ## Progress -/

theorem polls_tx : Port.Polls com1 (0x3F8 + 5) 0x20 Driven (fun u => u.tx = []) (· = .shifts)
    Uart.State.busy where
  sees u _ := Uart.lsr_tx u
  read u hu := ⟨hu, id, Nat.le_refl _⟩
  event u e hu := ⟨hu.event e, fun h => Uart.tx_event hu.2 h e, Uart.busy_event hu.2 e⟩
  helps u e hu he htx := by
    subst he
    have hpos : 0 < u.tx.length := List.length_pos_iff.mpr htx
    have hbusy : 0 < u.busy := by
      rw [Uart.State.busy]
      omega
    exact Or.inr ((Uart.busy_shifts hu.2).symm ▸ Nat.sub_lt hbusy Nat.one_pos)

theorem polls_rx : Port.Polls com1 (0x3F8 + 5) 0x01 Driven (fun u => u.rx ≠ [])
    (fun e => ∃ b, e = .arrives b) (fun _ => 0) where
  sees u _ := Uart.lsr_rx u
  read u hu := ⟨hu, id, Nat.le_refl _⟩
  event u e hu := ⟨hu.event e, fun h => Uart.rx_event hu.2 h e, Nat.le_refl _⟩
  helps u e hu he hrx := by
    obtain ⟨b, rfl⟩ := he
    exact Or.inl (Uart.rx_arrives hu.2 (Classical.not_not.mp hrx) b)

/-- The processor and the transmitter keep going, and bytes keep arriving. -/
structure KeepsGoing (sched : Nat → Turn Event) : Prop where
  cpu : Often sched (· = .cpu)
  shifts : Often sched fun t => ∃ e, e = .shifts ∧ t = .device e
  arrives : Often sched fun t => ∃ e, (∃ b, e = .arrives b) ∧ t = .device e

theorem KeepsGoing.after {sched : Nat → Turn Event} (h : KeepsGoing sched) (n : Nat) :
    KeepsGoing (after sched n) :=
  ⟨h.cpu.after n, h.shifts.after n, h.arrives.after n⟩

theorem Driven.outb {u : Uart.State} (h : Driven u) (c : UInt8) :
    Driven (com1.outb u 0x3F8 c) := by
  have hconfig : (com1.outb u 0x3F8 c).toConfig = u.toConfig := by
    refine (Uart.toConfig_write u 0 c).trans ?_
    rw [Config.write, h.1, if_neg Bool.false_ne_true]
  rw [Driven, hconfig]
  exact h

theorem Driven.inb {u : Uart.State} (h : Driven u) : Driven (com1.inb u 0x3F8).2 := by
  change Driven (if u.dlab then (u.dll, u) else (u.rx.headD 0, { u with rx := u.rx.tail })).2
  rw [h.1, if_neg Bool.false_ne_true]
  exact h

/-- A program ends. -/
theorem Console.eventually_ret (q : Console α) : ∀ {sched : Nat → Turn Event}
    {s : Uart.State × Prog α}, KeepsGoing sched → Port.At Driven q.code s →
      ∃ n a, Port.At Driven (.ret a) (run (Port.turn com1) sched s n) := by
  induction q with
  | ret a => exact fun _ hs => ⟨0, a, hs⟩
  | write c next ih =>
      intro sched s hgo hs
      obtain ⟨n, hn⟩ := polls_tx.eventually hgo.cpu hgo.shifts hs
      have hevent : ∀ u e, Driven u ∧ u.tx = [] → Driven (com1.event u e) ∧
          (com1.event u e).tx = [] := fun u e hu =>
        ⟨hu.1.event e, Uart.tx_event hu.1.2 hu.2 e⟩
      have hcpu : ∀ u, Driven u ∧ u.tx = [] →
          Port.At Driven next.code ((Prog.outb 0x3F8 c next.code).advance com1 u) := fun u hu =>
        ⟨hu.1.outb c, rfl⟩
      obtain ⟨m, hm⟩ := Port.eventually_cpu hevent hcpu (hgo.after n).cpu hn
      obtain ⟨k, a, hk⟩ := ih ((hgo.after n).after m) hm
      rw [← Fair.run_add, ← Fair.run_add] at hk
      exact ⟨_, a, hk⟩
  | read next ih =>
      intro sched s hgo hs
      obtain ⟨n, hn⟩ := polls_rx.eventually hgo.cpu hgo.arrives hs
      have hevent : ∀ u e, Driven u ∧ u.rx ≠ [] → Driven (com1.event u e) ∧
          (com1.event u e).rx ≠ [] := fun u e hu =>
        ⟨hu.1.event e, Uart.rx_event hu.1.2 hu.2 e⟩
      have hcpu : ∀ u, Driven u ∧ u.rx ≠ [] → ∃ b, Port.At Driven (next b).code
          ((Prog.inb 0x3F8 fun b => (next b).code).advance com1 u) := fun u hu =>
        ⟨_, hu.1.inb, rfl⟩
      obtain ⟨m, b, hm⟩ := Port.eventually_cpu (G := fun s => ∃ b, Port.At Driven (next b).code s)
        hevent hcpu (hgo.after n).cpu hn
      obtain ⟨k, a, hk⟩ := ih b ((hgo.after n).after m) hm
      rw [← Fair.run_add, ← Fair.run_add] at hk
      exact ⟨_, a, hk⟩

/-- What is under way is sent. -/
theorem eventually_sent {sched : Nat → Turn Event} (hgo : KeepsGoing sched) {a : α}
    {s : Uart.State × Prog α} (hs : Port.At Driven (.ret a) s) :
    ∃ n, Port.At (fun u => u.handed = u.sent) (.ret a) (run (Port.turn com1) sched s n) := by
  have hidle : ∀ u : Uart.State, u.busy = 0 → u.handed = u.sent := by
    intro u hbusy
    rw [Uart.State.busy] at hbusy
    rw [Uart.State.handed, List.length_eq_zero_iff.mp (show u.tx.length = 0 by omega),
      List.length_eq_zero_iff.mp (show u.shift.toList.length = 0 by omega)]
    simp
  have hdrained : ∃ n, Port.At (fun u => u.busy = 0) (.ret a)
      (run (Port.turn com1) sched s n) := by
    refine Fair.eventually_of_helpful (J := Port.At Driven (.ret a)) (fun s => s.1.busy) ?_ ?_
      hgo.shifts hs
    · rintro t ⟨u, p⟩ ⟨hu, rfl⟩ -
      cases t with
      | cpu => exact Or.inr ⟨⟨hu, rfl⟩, Nat.le_refl _⟩
      | device e => exact Or.inr ⟨⟨hu.event e, rfl⟩, Uart.busy_event hu.2 e⟩
    · rintro t ⟨u, p⟩ ⟨e, rfl, rfl⟩ ⟨hu, rfl⟩ hno
      have hpos : 0 < u.busy := Nat.pos_of_ne_zero fun h0 => hno ⟨h0, rfl⟩
      exact Or.inr ⟨⟨hu.event .shifts, rfl⟩,
        (Uart.busy_shifts hu.2).symm ▸ Nat.sub_lt hpos Nat.one_pos⟩
  obtain ⟨n, hbusy, hp⟩ := hdrained
  exact ⟨n, hidle _ hbusy, hp⟩

/-! ## From `serial_init` on -/

/-- The registers that `serial_init` writes. -/
theorem serialInit_regs : serialInit.map (fun w => ((w.1 - 0x3F8).toNat, w.2))
    = [(1, 0x00), (3, 0x80), (0, 0x03), (1, 0x00), (3, 0x03), (2, 0xC7), (4, 0x0B)] := by
  decide

/-- The settings behind `serial_init`: 38400 baud, 8 data bits, no parity, one stop bit, FIFOs.
If DLAB was set before, the first write goes to the divisor latch, and the interrupts stay
enabled as they were. -/
theorem foldl_serialInit (c : Config) :
    serialInit.foldl (fun c w => c.write (w.1 - 0x3F8).toNat w.2) c
      = ⟨if c.dlab then c.ier else 0, 0x03, 0x0B, 0x03, 0x00, true⟩ := by
  have hfold : serialInit.foldl (fun c w => c.write (w.1 - 0x3F8).toNat w.2) c
      = (serialInit.map fun w => ((w.1 - 0x3F8).toNat, w.2)).foldl
          (fun c w => c.write w.1 w.2) c := by
    rw [List.foldl_map]
  have hfirst : c.write 1 0x00 = if c.dlab then { c with dlm := 0 } else { c with ier := 0 } := rfl
  have hrest : ∀ c : Config,
      [(3, 0x80), (0, 0x03), (1, 0x00), (3, 0x03), (2, 0xC7), (4, 0x0B)].foldl
        (fun c w => c.write w.1 w.2) c = ⟨c.ier, 0x03, 0x0B, 0x03, 0x00, true⟩ := by
    intro c
    have hmcr : (0x0B : UInt8) &&& 0x1F = 0x0B := by decide
    have hfifo : ¬ (0xC7 : UInt8) &&& 0x01 = 0 := by decide
    simp [Config.write, Config.dlab, hmcr, hfifo]
  rw [hfold, serialInit_regs, List.foldl_cons, hfirst, hrest]
  cases c.dlab with
  | true => rfl
  | false => rfl

/-- The driver is set up. -/
def SetUp (u u' : Uart.State) : Prop :=
  u'.toConfig = ⟨if u.dlab then u.ier else 0, 0x03, 0x0B, 0x03, 0x00, true⟩

theorem SetUp.driven {u u' : Uart.State} (h : SetUp u u') : Driven u' := by
  rw [Driven, h]
  exact ⟨show decide ((0x03 : UInt8) &&& 0x80 ≠ 0) = false by decide,
    show decide ((0x0B : UInt8) &&& 0x10 ≠ 0) = false by decide⟩

/-- At the end of `serial_init`. -/
theorem setUp_of_done {u : Uart.State} {q : Console α} {s : Uart.State × Prog α}
    (h : Port.Done Uart.State.toConfig (fun c w => c.write (w.1 - 0x3F8).toNat w.2) serialInit
      (fun _ => q.code) u.toConfig s) : ∃ u', s = (u', q.code) ∧ SetUp u u' :=
  ⟨s.1, Prod.ext rfl h.1, h.2.trans (foldl_serialInit _)⟩

/-- The machine before `serial_init`, with a program behind it. -/
def Console.boot (q : Console α) (u : Uart.State) : Uart.State × Prog α :=
  (u, (outs serialInit).bind fun _ => q.code)

/-- A program that has ended has run to its end. -/
theorem Phase.ret {q : Console α} {u : Uart.State} {a : α} (h : Phase q u (.ret a)) :
    q = .ret a := by
  generalize hp : Prog.ret a = p at h
  cases h with
  | between =>
      cases q with
      | ret b =>
          obtain rfl := Prog.ret.inj hp
          rfl
      | write => cases hp
      | read => cases hp
  | canWrite => cases hp
  | canRead => cases hp

/-- If the processor and the transmitter keep going and bytes keep arriving, every program ends,
with all it has written on the line, in order and behind what was under way at the end of
`serial_init`. -/
theorem console_completes (u : Uart.State) (q : Console α) (sched : Nat → Turn Event)
    (hgo : KeepsGoing sched) :
    ∃ m n u' a input output, m ≤ n ∧ run (Port.turn com1) sched (q.boot u) m = (u', q.code) ∧
      SetUp u u' ∧ q.Runs input output (.ret a) ∧
      (run (Port.turn com1) sched (q.boot u) n).2 = .ret a ∧
      (run (Port.turn com1) sched (q.boot u) n).1.sent = u'.handed ++ output := by
  obtain ⟨m, hdone⟩ := Port.eventually_outs (Uart.settings 0x3F8) (fun _ => q.code) serialInit u
    hgo.cpu
  obtain ⟨u', hu', hset⟩ := setUp_of_done hdone
  change run (Port.turn com1) sched (q.boot u) m = _ at hu'
  -- the program ends, and then the transmitter gets idle
  obtain ⟨k, a, hk⟩ := q.eventually_ret (hgo.after m) (s := (u', q.code)) ⟨hset.driven, rfl⟩
  obtain ⟨l, hsent, hret⟩ := eventually_sent ((hgo.after m).after k) hk
  rw [← Fair.run_add] at hsent hret
  obtain ⟨input, output, q', hruns, hserved, hphase⟩ :=
    Console.served hset.driven q (after sched m) (k + l)
  rw [hret] at hphase
  obtain rfl := hphase.ret
  refine ⟨m, m + (k + l), u', a, input, output, Nat.le_add_right .., hu', hset, hruns, ?_, ?_⟩
  · rw [Fair.run_add, hu']
    exact hret
  · rw [Fair.run_add, hu', ← hsent]
    exact hserved.handed

end

/-- The three parties in turn. -/
def inTurn (n : Nat) : Turn Event :=
  if n % 3 = 0 then .cpu else if n % 3 = 1 then .device .shifts else .device (.arrives 0x61)

theorem keepsGoing_inTurn : KeepsGoing inTurn where
  cpu n := ⟨3 * n, by omega, if_pos (by omega)⟩
  shifts n := ⟨3 * n + 1, by omega, .shifts, rfl, by
    rw [inTurn, if_neg (by omega), if_pos (by omega)]⟩
  arrives n := ⟨3 * n + 2, by omega, .arrives 0x61, ⟨0x61, rfl⟩, by
    rw [inTurn, if_neg (by omega), if_neg (by omega)]⟩

/-- A UART after power-on. -/
def resetUart : Uart.State where
  ier := 0
  lcr := 0
  mcr := 0
  dll := 0x0C
  dlm := 0
  fifo := false
  tx := []
  shift := none
  rx := []
  overrun := false
  sent := []
  accepted := []

/-- A program that answers one byte. -/
def echoOnce : Console Unit := .read fun b => .write b (.ret ())

theorem console_completes_echo :
    ∃ m n u' a input output, m ≤ n ∧
      run (Port.turn com1) inTurn (echoOnce.boot resetUart) m = (u', echoOnce.code) ∧
      SetUp resetUart u' ∧ echoOnce.Runs input output (.ret a) ∧
      (run (Port.turn com1) inTurn (echoOnce.boot resetUart) n).2 = .ret a ∧
      (run (Port.turn com1) inTurn (echoOnce.boot resetUart) n).1.sent = u'.handed ++ output :=
  console_completes resetUart echoOnce inTurn keepsGoing_inTurn

end TunaOs
