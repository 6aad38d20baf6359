import TunaOs.Lib.Field
import TunaOs.Serial.Output

/-!
# Reading messages

Messages are literals and numbers.  A number is read back up to the first character that is
not a digit (`readField_append`), so a message with a separator behind every number can be
taken apart again.
-/

namespace TunaOs

open Numeral (isNumeral_numeral)

/-- A character of a number. -/
def isDigit (c : UInt8) : Bool := (digitOf c).isSome

/-- A number to the base `b` at the front of a text, and what follows it. -/
def readField (b : Nat) (t : List UInt8) : Option (Nat × List UInt8) :=
  (readNumber b (t.takeWhile isDigit)).map fun n => (n, t.dropWhile isDigit)

theorem isDigit_of_mapM : ∀ {cs : List UInt8} {ds : List Nat}, cs.mapM digitOf = some ds →
    ∀ c ∈ cs, isDigit c = true
  | [], _, _, c, hc => absurd hc List.not_mem_nil
  | c :: cs, ds, h, d, hd => by
      rw [List.mapM_cons] at h
      cases hdigit : digitOf c with
      | none =>
          rw [hdigit] at h
          cases h
      | some n =>
          rw [hdigit] at h
          cases hrest : cs.mapM digitOf with
          | none =>
              rw [hrest] at h
              cases h
          | some ns =>
              rcases List.mem_cons.mp hd with rfl | hd
              · rw [isDigit, hdigit]
                rfl
              · exact isDigit_of_mapM hrest d hd

/-- The characters of a number are digits. -/
theorem Prints.isDigit {b width v : Nat} {cs : List UInt8} (h : Prints b width v cs) :
    ∀ c ∈ cs, TunaOs.isDigit c = true := by
  have hreads := h.reads
  rw [readNumber] at hreads
  cases hds : cs.mapM digitOf with
  | none =>
      rw [hds] at hreads
      cases hreads
  | some ds => exact isDigit_of_mapM hds

/-- A number in front of a character that is not a digit is read back. -/
theorem readField_append {b width v : Nat} {cs r : List UInt8} {c : UInt8}
    (h : Prints b width v cs) (hc : isDigit c = false) :
    readField b (cs ++ c :: r) = some (v, c :: r) := by
  rw [readField, Field.takeWhile_field h.isDigit hc, Field.dropWhile_field h.isDigit hc, h.reads]
  rfl

/-! ## Numbers of 64 bits -/

theorem prints_decimal {v : Nat} (hv : v < 2 ^ 64) : Prints 10 20 v (decimal v) :=
  prints_of_isNumeral (isNumeral_numeral (by decide) v) digitOf_decChar (by decide) (by decide)
    (Nat.lt_trans hv (by decide))

/-- `serial_write_hex_u64`. -/
theorem serialWriteHexU64_prints {v : Nat} (hv : v < 2 ^ 64) :
    ∃ cs, serialWriteHexU64 v = text "0x" ++ cs ∧ Prints 16 16 v cs := by
  obtain ⟨ds, hloop, hnum⟩ := hexLoop_numeral v 15
  rw [Nat.mod_eq_of_lt (Nat.lt_of_lt_of_eq hv (by decide))] at hnum
  refine ⟨ds.map hexChar, ?_, prints_of_isNumeral hnum digitOf_hexChar (by decide) (by decide)
    (Nat.lt_of_lt_of_eq hv (by decide))⟩
  rw [serialWriteHexU64, hloop, serialWrite_plain (by decide)]

end TunaOs
