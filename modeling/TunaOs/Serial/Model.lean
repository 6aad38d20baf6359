import TunaOs.Lib.Bytes

/-!
# The serial port

The model of the output functions of `serial.c`.  A function returns the bytes that it
sends to the port, in order.  The wait for the transmitter and the set-up of the port
are left out.  The digits of a decimal number go through a buffer on the stack, and
`none` means that it was accessed outside, or that a loop ran out of fuel.
-/

namespace TunaOs

/-! ## Characters -/

/-- The bytes of a string literal, without the zero byte. -/
def text (s : String) : List UInt8 := s.toList.map fun c => UInt8.ofNat c.toNat

/-- `'\n'`. -/
def newline : UInt8 := 0x0A

/-- `'\r'`. -/
def carriageReturn : UInt8 := 0x0D

/-! ## Writing -/

/-- `serial_write_char (c)`. -/
def serialWriteChar (c : UInt8) : List UInt8 := [c]

/-- The body of the loop of `serial_write`. -/
def serialWriteByte (c : UInt8) : List UInt8 :=
  (if c = newline then serialWriteChar carriageReturn else []) ++ serialWriteChar c

/-- `serial_write (s)` of a string literal. -/
def serialWrite (s : List UInt8) : List UInt8 := s.flatMap serialWriteByte

/-- `serial_write (s)` of a string in memory.  The fuel bounds its length. -/
def serialWriteAt (m : Mem) : Nat → Nat → Option (List UInt8)
  | 0, _ => none
  | fuel + 1, s =>
      if m s ≠ 0 then (serialWriteAt m fuel (s + 1)).map (serialWriteByte (m s) ++ ·) else some []

/-! ## Hexadecimal numbers -/

/-- `hex[nibble]`. -/
def hexChar (nibble : Nat) : UInt8 := (text "0123456789ABCDEF").getD nibble 0

/-- The last `n` turns of the loop of `serial_write_hex_u64`. -/
def hexLoop (value : Nat) : Nat → Bool → List UInt8
  | 0, _ => []
  | n + 1, started =>
      let shift := 4 * n
      let nibble := (value >>> shift) &&& 0xF
      if nibble ≠ 0 ∨ started ∨ shift = 0 then
        serialWriteChar (hexChar nibble) ++ hexLoop value n true
      else hexLoop value n started

/-- `serial_write_hex_u64 (value)`. -/
def serialWriteHexU64 (value : Nat) : List UInt8 :=
  serialWrite (text "0x") ++ hexLoop value 16 false

/-! ## Decimal numbers -/

/-- `sizeof (buf)`. -/
def decBufSize : Nat := 21

/-- `'0' + digit`. -/
def decChar (digit : Nat) : UInt8 := 0x30 + UInt8.ofNat digit

/-- `while (value > 0) { buf[i++] = '0' + value % 10; value /= 10; }`. -/
def fillDigits : Nat → Nat → Nat → Mem → Option (Mem × Nat)
  | 0, _, _, _ => none
  | fuel + 1, value, i, buf =>
      if value > 0 then
        if i < decBufSize then
          fillDigits fuel (value / 10) (i + 1) (buf.set i (decChar (value % 10)))
        else none
      else some (buf, i)

/-- `while (i > 0) serial_write_char (buf[--i])`. -/
def emitDigits (buf : Mem) : Nat → Option (List UInt8)
  | 0 => some []
  | i + 1 =>
      if i < decBufSize then (emitDigits buf i).map (serialWriteChar (buf i) ++ ·) else none

/-- `serial_write_dec_u64 (value)`.  The buffer is not initialised. -/
def serialWriteDecU64 (buf : Mem) (value : Nat) : Option (List UInt8) :=
  if value = 0 then some (serialWriteChar (decChar 0))
  else
    match fillDigits 64 value 0 buf with
    | none => none
    | some (buf, i) => emitDigits buf i

end TunaOs
