import TunaOs.Lib.Port

/-!
# A 16550 UART

The registers that a driver uses, both FIFOs and the register that bytes are shifted out of.
The events are the end of a bit time of the transmitter and the arrival of a byte.  `sent` and
`accepted` are the bytes that have passed over the two lines so far.

A receiver that is full loses what arrives, and a transmitter that is full what is written.
Interrupts, the modem status and the errors of the line other than an overrun are left out.
-/

namespace Uart

open Port (Device)

/-- What neither events nor data change. -/
structure Config where
  /-- The interrupt enable register. -/
  ier : UInt8
  /-- The line control register.  Bit 7 is DLAB. -/
  lcr : UInt8
  /-- The modem control register.  Bit 4 connects the transmitter to the receiver. -/
  mcr : UInt8
  /-- The divisor latch. -/
  dll : UInt8
  dlm : UInt8
  /-- The FIFOs are on. -/
  fifo : Bool
deriving DecidableEq, Repr

/-- The state of a UART. -/
structure State extends Config where
  /-- The bytes that wait for the transmitter. -/
  tx : List UInt8
  /-- The byte that is being shifted out. -/
  shift : Option UInt8
  /-- The bytes that have been received and not been read. -/
  rx : List UInt8
  /-- A byte has been lost. -/
  overrun : Bool
  /-- What has been sent, the oldest byte first. -/
  sent : List UInt8
  /-- What has been put into the receiver, the oldest byte first. -/
  accepted : List UInt8

/-- The events. -/
inductive Event
  /-- The transmitter goes on. -/
  | shifts
  /-- A byte arrives. -/
  | arrives (b : UInt8)
deriving DecidableEq, Repr

/-! ## Registers -/

def Config.dlab (c : Config) : Bool := c.lcr &&& 0x80 ≠ 0

def Config.loopback (c : Config) : Bool := c.mcr &&& 0x10 ≠ 0

/-- The number of bytes that a direction can hold. -/
def Config.capacity (c : Config) : Nat := if c.fifo then 16 else 1

/-- A write of a register, as far as the settings go. -/
def Config.write (c : Config) : Nat → UInt8 → Config
  | 0, v => if c.dlab then { c with dll := v } else c
  | 1, v => if c.dlab then { c with dlm := v } else { c with ier := v &&& 0x0F }
  | 2, v => { c with fifo := v &&& 0x01 ≠ 0 }
  | 3, v => { c with lcr := v }
  | 4, v => { c with mcr := v &&& 0x1F }
  | _, _ => c

/-- The bits of the line status register: there is data, some has been lost, the transmitter
takes data, it is idle. -/
def status (data overrun empty idle : Bool) : UInt8 :=
  (if data then 0x01 else 0) ||| (if overrun then 0x02 else 0) ||| (if empty then 0x20 else 0) |||
    (if idle then 0x40 else 0)

section

variable (u : State)

/-- The line status register. -/
def State.lsr : UInt8 :=
  status (decide (u.rx ≠ [])) u.overrun (decide (u.tx = [])) (decide (u.tx = [] ∧ u.shift = none))

/-- A byte gets to the receiver. -/
def State.receive (b : UInt8) : State :=
  if u.rx.length < u.capacity then { u with rx := u.rx ++ [b], accepted := u.accepted ++ [b] }
  else { u with overrun := true }

/-- A byte is written to the transmitter. -/
def State.transmit (b : UInt8) : State :=
  if u.tx.length < u.capacity then { u with tx := u.tx ++ [b] } else u

/-- A byte has been shifted out. -/
def State.emit (b : UInt8) : State :=
  if u.loopback then u.receive b else { u with sent := u.sent ++ [b] }

def State.event : Event → State
  | .shifts =>
      match u.shift, u.tx with
      | some b, _ => { u.emit b with shift := none }
      | none, [] => u
      | none, b :: tx => { u with shift := some b, tx := tx }
  | .arrives b => if u.loopback then u else u.receive b

/-- The FIFO control register: bit 0 turns the FIFOs on, a change of it clears them, and bits 1
and 2 clear one of them. -/
def State.control (v : UInt8) : State :=
  let fifo : Bool := v &&& 0x01 ≠ 0
  { u with
    fifo
    rx := if fifo ≠ u.fifo ∨ v &&& 0x03 = 0x03 then [] else u.rx
    tx := if fifo ≠ u.fifo ∨ v &&& 0x05 = 0x05 then [] else u.tx }

/-- A read of a register. -/
def State.read : Nat → UInt8 × State
  | 0 => if u.dlab then (u.dll, u) else (u.rx.headD 0, { u with rx := u.rx.tail })
  | 1 => (if u.dlab then u.dlm else u.ier, u)
  | 3 => (u.lcr, u)
  | 4 => (u.mcr, u)
  | 5 => (u.lsr, { u with overrun := false })
  | _ => (0xFF, u)

/-- A write of a register. -/
def State.write : Nat → UInt8 → State
  | 0, v => if u.dlab then { u with dll := v } else u.transmit v
  | 2, v => u.control v
  | reg, v => { u with toConfig := u.toConfig.write reg v }

end

/-- The UART at the ports from `base` on. -/
def device (base : UInt16) : Device State Event where
  inb u port := u.read (port - base).toNat
  outb u port v := u.write (port - base).toNat v
  event := State.event

/-! ## Settings -/

section

variable (u : State)

theorem toConfig_receive (b : UInt8) : (u.receive b).toConfig = u.toConfig := by
  rw [State.receive]
  split
  · rfl
  · rfl

theorem toConfig_transmit (b : UInt8) : (u.transmit b).toConfig = u.toConfig := by
  rw [State.transmit]
  split
  · rfl
  · rfl

theorem toConfig_emit (b : UInt8) : (u.emit b).toConfig = u.toConfig := by
  rw [State.emit]
  split
  · exact toConfig_receive u b
  · rfl

theorem toConfig_event (e : Event) : (u.event e).toConfig = u.toConfig := by
  cases e with
  | shifts =>
      simp only [State.event]
      split
      · exact toConfig_emit u _
      · rfl
      · rfl
  | arrives b =>
      simp only [State.event]
      split
      · rfl
      · exact toConfig_receive u b

theorem toConfig_write (reg : Nat) (v : UInt8) :
    (u.write reg v).toConfig = u.toConfig.write reg v := by
  unfold State.write
  split
  · rw [Config.write]
    split
    · rfl
    · exact toConfig_transmit u v
  · rfl
  · rfl

end

/-- The settings are what writes make of them. -/
theorem settings (base : UInt16) : Port.Settings (device base) State.toConfig
    fun c w => c.write (w.1 - base).toNat w.2 where
  event := toConfig_event
  outb u port v := toConfig_write u (port - base).toNat v

/-! ## Bytes under way -/

section

variable (u : State)

/-- The bytes that have been handed to the transmitter. -/
def State.handed : List UInt8 := u.sent ++ u.shift.toList ++ u.tx

/-- The number of turns of the transmitter until it is idle. -/
def State.busy : Nat := 2 * u.tx.length + u.shift.toList.length

theorem status_bits : ∀ a b c d : Bool,
    (status a b c d &&& 0x01 = 0 ↔ a = false) ∧ (status a b c d &&& 0x20 = 0 ↔ c = false) := by
  decide

/-- The transmitter is empty. -/
theorem lsr_tx : u.lsr &&& 0x20 = 0 ↔ ¬ u.tx = [] :=
  ((status_bits _ _ _ _).2).trans decide_eq_false_iff_not

/-- There is a byte to read. -/
theorem lsr_rx : u.lsr &&& 0x01 = 0 ↔ ¬ u.rx ≠ [] :=
  ((status_bits _ _ _ _).1).trans decide_eq_false_iff_not

variable {u} (hloop : u.loopback = false)

include hloop

theorem shifts_cases :
    (∃ b, u.shift = some b ∧ u.event .shifts = { u with sent := u.sent ++ [b], shift := none }) ∨
    (u.shift = none ∧ u.tx = [] ∧ u.event .shifts = u) ∨
    (∃ b tx, u.shift = none ∧ u.tx = b :: tx ∧
      u.event .shifts = { u with shift := some b, tx := tx }) := by
  simp only [State.event]
  cases hshift : u.shift with
  | some b =>
      refine Or.inl ⟨b, rfl, ?_⟩
      simp only [State.emit, hloop, Bool.false_eq_true, if_false]
  | none =>
      cases htx : u.tx with
      | nil => exact Or.inr (Or.inl ⟨rfl, rfl, rfl⟩)
      | cons b tx => exact Or.inr (Or.inr ⟨b, tx, rfl, rfl, rfl⟩)

theorem arrives_cases (b : UInt8) :
    (u.rx.length < u.capacity ∧
      u.event (.arrives b) = { u with rx := u.rx ++ [b], accepted := u.accepted ++ [b] }) ∨
    (u.capacity ≤ u.rx.length ∧ u.event (.arrives b) = { u with overrun := true }) := by
  simp only [State.event, hloop, Bool.false_eq_true, if_false, State.receive]
  by_cases hroom : u.rx.length < u.capacity
  · exact Or.inl ⟨hroom, if_pos hroom⟩
  · exact Or.inr ⟨Nat.le_of_not_lt hroom, if_neg hroom⟩

/-- The transmitter loses nothing and keeps the order. -/
theorem handed_event (e : Event) : (u.event e).handed = u.handed := by
  cases e with
  | shifts =>
      rcases shifts_cases hloop with ⟨b, hshift, heq⟩ | ⟨-, -, heq⟩ | ⟨b, tx, hshift, htx, heq⟩
      · simp [heq, State.handed, hshift]
      · rw [heq]
      · simp [heq, State.handed, hshift, htx]
  | arrives b =>
      rcases arrives_cases hloop b with ⟨-, heq⟩ | ⟨-, heq⟩
      · rw [heq, State.handed, State.handed]
      · rw [heq, State.handed, State.handed]

/-- What is put into the receiver is at the end of what is there. -/
theorem received_event (e : Event) : ∃ new, (u.event e).accepted = u.accepted ++ new ∧
    (u.event e).rx = u.rx ++ new := by
  cases e with
  | shifts =>
      refine ⟨[], ?_⟩
      rcases shifts_cases hloop with ⟨b, -, heq⟩ | ⟨-, -, heq⟩ | ⟨b, tx, -, -, heq⟩
      · simp [heq]
      · simp [heq]
      · simp [heq]
  | arrives b =>
      rcases arrives_cases hloop b with ⟨-, heq⟩ | ⟨-, heq⟩
      · exact ⟨[b], by rw [heq], by rw [heq]⟩
      · exact ⟨[], by simp [heq], by simp [heq]⟩

theorem tx_event (htx : u.tx = []) (e : Event) : (u.event e).tx = [] := by
  cases e with
  | shifts =>
      rcases shifts_cases hloop with ⟨b, -, heq⟩ | ⟨-, -, heq⟩ | ⟨b, tx, -, hcons, -⟩
      · rw [heq, htx]
      · rw [heq, htx]
      · rw [htx] at hcons
        cases hcons
  | arrives b =>
      rcases arrives_cases hloop b with ⟨-, heq⟩ | ⟨-, heq⟩
      · rw [heq, htx]
      · rw [heq, htx]

theorem rx_event (hrx : u.rx ≠ []) (e : Event) : (u.event e).rx ≠ [] := by
  obtain ⟨new, -, heq⟩ := received_event hloop e
  rw [heq]
  exact List.append_ne_nil_of_left_ne_nil hrx new

theorem busy_shifts : (u.event .shifts).busy = u.busy - 1 := by
  rcases shifts_cases hloop with ⟨b, hshift, heq⟩ | ⟨hshift, htx, heq⟩ | ⟨b, tx, hshift, htx, heq⟩
  · simp [heq, State.busy, hshift]
  · simp [heq, State.busy, hshift, htx]
  · simp only [heq, State.busy, hshift, htx, List.length_cons, Option.toList_some,
      Option.toList_none, List.length_nil]
    omega

theorem busy_event (e : Event) : (u.event e).busy ≤ u.busy := by
  cases e with
  | shifts => exact (busy_shifts hloop).symm ▸ Nat.sub_le ..
  | arrives b =>
      rcases arrives_cases hloop b with ⟨-, heq⟩ | ⟨-, heq⟩
      · exact Nat.le_of_eq (by rw [heq, State.busy, State.busy])
      · exact Nat.le_of_eq (by rw [heq, State.busy, State.busy])

/-- A byte that arrives at an empty receiver is there. -/
theorem rx_arrives (hrx : u.rx = []) (b : UInt8) : (u.event (.arrives b)).rx ≠ [] := by
  have hcap : 0 < u.capacity := by
    rw [Config.capacity]
    split
    · decide
    · decide
  rcases arrives_cases hloop b with ⟨-, heq⟩ | ⟨hfull, -⟩
  · rw [heq, hrx]
    exact List.cons_ne_nil _ _
  · rw [hrx, List.length_nil] at hfull
    omega

end

end Uart
