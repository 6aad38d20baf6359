import TunaOs.Lib.Numeral
import TunaOs.Serial.Model

/-!
# What is sent to the serial port

`serial_write` sends a carriage return before every newline.
`serial_write_dec_u64` takes the digits from the back and `serial_write_hex_u64` takes
them from the front and leaves out the zeros it meets first.  Both write the numeral of
the number.  `readNumber` reads characters back as a number, and
`serial_numbers_read_back` states that this gives the number that was written.
-/

namespace TunaOs

open Mem (Holds HoldsStr holdsStr_nil holdsStr_cons)
open Numeral (IsNumeral isNumeral_singleton isNumeral_cons isNumeral_numeral numeral)

/-! ## Strings -/

theorem serialWrite_append (s t : List UInt8) :
    serialWrite (s ++ t) = serialWrite s ++ serialWrite t := List.flatMap_append

/-- Without newlines nothing is added. -/
theorem serialWrite_plain {s : List UInt8} (h : newline ∉ s) : serialWrite s = s := by
  induction s with
  | nil => rfl
  | cons c s ih =>
      obtain ⟨hc, hs⟩ := not_or.mp (List.mem_cons.not.mp h)
      rw [serialWrite] at ih ⊢
      rw [List.flatMap_cons, ih hs, serialWriteByte, if_neg (Ne.symm hc)]
      rfl

/-- A string in memory, as long as it is shorter than the fuel. -/
theorem serialWriteAt_eq {m : Mem} : ∀ {s : List UInt8} {a fuel : Nat},
    HoldsStr m a s → s.length < fuel → serialWriteAt m fuel a = some (serialWrite s)
  | [], a, fuel + 1, hs, _ => by
      rw [serialWriteAt, if_neg (not_not.mpr (holdsStr_nil.mp hs))]
      rfl
  | c :: s, a, fuel + 1, hs, hlen => by
      obtain ⟨hc, hne, hs'⟩ := holdsStr_cons.mp hs
      rw [serialWriteAt, hc, if_pos hne, serialWriteAt_eq hs' (Nat.lt_of_succ_lt_succ hlen)]
      rfl

/-! ## Reading numbers -/

/-- The digit that a character stands for. -/
def digitOf (c : UInt8) : Option Nat :=
  if 0x30 ≤ c ∧ c ≤ 0x39 then some (c.toNat - 0x30)
  else if 0x41 ≤ c ∧ c ≤ 0x46 then some (c.toNat - 0x41 + 10)
  else none

/-- The number to the base `b` that characters stand for. -/
def readNumber (b : Nat) (cs : List UInt8) : Option Nat :=
  match cs.mapM digitOf with
  | none => none
  | some ds => if ∀ d ∈ ds, d < b then some (Numeral.value b ds) else none

/-- The characters are one to `width` digits to the base `b`, they read back as the
number, and there is no zero in front unless the number is zero. -/
structure Prints (b width value : Nat) (cs : List UInt8) : Prop where
  /-- There is a digit. -/
  length_pos : 1 ≤ cs.length
  /-- There are not too many. -/
  length_le : cs.length ≤ width
  /-- They read back. -/
  reads : readNumber b cs = some value
  /-- A zero in front is the only digit, of the number zero. -/
  leading : cs.head? = some 0x30 → cs = [0x30] ∧ value = 0

/-- Digits as characters. -/
theorem mapM_digitOf {b : Nat} {char : Nat → UInt8} (hchar : ∀ d < b, digitOf (char d) = some d) :
    ∀ {ds : List Nat}, (∀ d ∈ ds, d < b) → (ds.map char).mapM digitOf = some ds
  | [], _ => rfl
  | d :: ds, hds => by
      have hd : digitOf (char d) = some d := hchar d (hds d List.mem_cons_self)
      have ih := mapM_digitOf hchar fun e he => hds e (List.mem_cons_of_mem _ he)
      rw [List.map_cons, List.mapM_cons, hd, ih]
      rfl

/-- A numeral, as characters. -/
theorem prints_of_isNumeral {b width v : Nat} {char : Nat → UInt8} {ds : List Nat}
    (h : IsNumeral b v ds) (hchar : ∀ d < b, digitOf (char d) = some d) (hb : 1 < b)
    (hwidth : 0 < width) (hv : v < b ^ width) : Prints b width v (ds.map char) where
  length_pos := by
    rw [List.length_map]
    exact List.length_pos_of_ne_nil h.nonempty
  length_le := by
    rw [List.length_map]
    exact h.length_le hb hwidth hv
  reads := by
    rw [readNumber, mapM_digitOf hchar h.digits]
    dsimp only
    rw [if_pos h.digits, h.denotes]
  leading := by
    intro hhead
    rw [List.head?_map, Option.map_eq_some_iff] at hhead
    obtain ⟨d, hd, hzero⟩ := hhead
    have hd0 : d = 0 := by
      have := hchar d (h.digits d (List.mem_of_mem_head? hd))
      rw [hzero] at this
      exact (Option.some.inj this).symm
    rw [hd0] at hd hzero
    have hds := h.leading hd
    have hdenotes := h.denotes
    rw [hds, Numeral.value_singleton] at hdenotes
    rw [hds, List.map_singleton, hzero]
    exact ⟨rfl, hdenotes.symm⟩

/-! ## Decimal numbers -/

theorem digitOf_decChar : ∀ d < 10, digitOf (decChar d) = some d := by decide

/-- The digits of a number, from the index `i` of the buffer on. -/
theorem fillDigits_eq : ∀ (fuel : Nat) {value : Nat} (i : Nat) (buf : Mem), value < 10 ^ fuel →
    i + (Nat.digits 10 value).length ≤ decBufSize →
    ∃ buf', fillDigits (fuel + 1) value i buf = some (buf', i + (Nat.digits 10 value).length) ∧
      Holds buf' i ((Nat.digits 10 value).map decChar) ∧ ∀ x < i, buf' x = buf x
  | 0, value, i, buf, hv, _ => by
      obtain rfl : value = 0 := Nat.lt_one_iff.mp hv
      exact ⟨buf, rfl, trivial, fun _ _ => rfl⟩
  | fuel + 1, value, i, buf, hv, hlen => by
      rw [fillDigits]
      by_cases hpos : value > 0
      · rw [Nat.digits_def' (by decide) hpos] at hlen ⊢
        rw [List.length_cons, Nat.add_left_comm, Nat.add_comm] at hlen
        have hnext : value / 10 < 10 ^ fuel := Nat.div_lt_of_lt_mul (by rwa [Nat.pow_succ'] at hv)
        obtain ⟨buf', hfill, hholds, hbelow⟩ :=
          fillDigits_eq fuel (i + 1) (buf.set i (decChar (value % 10))) hnext (by omega)
        rw [if_pos hpos, if_pos (by omega), hfill, List.length_cons]
        refine ⟨buf', by rw [Nat.add_right_comm, Nat.add_assoc], ⟨?_, hholds⟩, fun x hx => ?_⟩
        · rw [hbelow i (Nat.lt_succ_self i), Mem.set_self]
        · rw [hbelow x (Nat.lt_succ_of_lt hx), Mem.set_other (Nat.ne_of_lt hx)]
      · obtain rfl : value = 0 := Nat.eq_zero_of_not_pos hpos
        exact ⟨buf, rfl, trivial, fun _ _ => rfl⟩

/-- The bytes of the buffer, the last first. -/
theorem emitDigits_eq {buf : Mem} {cs : List UInt8} (h : Holds buf 0 cs)
    (hlen : cs.length ≤ decBufSize) : emitDigits buf cs.length = some cs.reverse := by
  induction cs using List.reverseRecOn with
  | nil => rfl
  | append_singleton cs c ih =>
      rw [List.length_append, List.length_singleton] at hlen ⊢
      obtain ⟨hcs, hc, -⟩ := Mem.holds_append.mp h
      rw [Nat.zero_add] at hc
      rw [emitDigits, if_pos (Nat.lt_of_succ_le hlen), ih hcs (Nat.le_of_succ_le hlen), hc,
        List.reverse_append]
      rfl

/-- A number of 64 bits has at most 20 digits. -/
theorem digits_length_le {value : Nat} (hv : value < 2 ^ 64) :
    (Nat.digits 10 value).length ≤ 20 :=
  (Nat.digits_length_le_iff (by decide) value).mpr (Nat.lt_trans hv (by decide))

/-- The text of a decimal number. -/
def decimal (value : Nat) : List UInt8 := (numeral 10 value).map decChar

/-- `serial_write_dec_u64` writes the numeral, whatever the buffer held. -/
theorem serialWriteDecU64_eq {value : Nat} (hv : value < 2 ^ 64) (buf : Mem) :
    serialWriteDecU64 buf value = some (decimal value) := by
  unfold serialWriteDecU64 decimal numeral
  split
  · rfl
  · have hlen : (Nat.digits 10 value).length ≤ decBufSize := Nat.le_succ_of_le (digits_length_le hv)
    obtain ⟨buf', hfill, hholds, -⟩ :=
      fillDigits_eq 63 0 buf (Nat.lt_trans hv (by decide)) (by omega)
    have hemit := emitDigits_eq hholds (by rwa [List.length_map])
    rw [List.length_map] at hemit
    rw [hfill, Nat.zero_add]
    dsimp only
    rw [hemit, List.map_reverse]

theorem newline_notMem_decimal (value : Nat) : newline ∉ decimal value := by
  intro hmem
  obtain ⟨d, hd, hchar⟩ := List.mem_map.mp hmem
  have hdigit := digitOf_decChar d ((isNumeral_numeral (by decide) value).digits d hd)
  rw [hchar] at hdigit
  cases hdigit

/-! ## Hexadecimal numbers -/

theorem digitOf_hexChar : ∀ d < 16, digitOf (hexChar d) = some d := by decide

/-- The nibble at a shift. -/
theorem nibble_eq (value n : Nat) : (value >>> (4 * n)) &&& 0xF = value / 16 ^ n % 16 := by
  rw [Nat.shiftRight_eq_div_pow, Nat.pow_mul]
  exact Nat.and_two_pow_sub_one_eq_mod _ 4

/-- The low `n + 1` digits are the digit in front and the low `n` digits. -/
theorem low_digits (value n : Nat) :
    value % 16 ^ n + 16 ^ n * (value / 16 ^ n % 16) = value % 16 ^ (n + 1) := by
  rw [Nat.pow_succ, Nat.mod_mul]

/-- Once a digit is written, all others are. -/
theorem hexLoop_started (value : Nat) : ∀ n, ∃ ds : List Nat,
    hexLoop value n true = ds.map hexChar ∧ ds.length = n ∧ (∀ d ∈ ds, d < 16) ∧
      Numeral.value 16 ds = value % 16 ^ n
  | 0 => ⟨[], rfl, rfl, by simp, by rw [Nat.pow_zero, Nat.mod_one, Numeral.value_nil]⟩
  | n + 1 => by
      obtain ⟨ds, hloop, hlen, hds, hval⟩ := hexLoop_started value n
      refine ⟨value / 16 ^ n % 16 :: ds, ?_, congrArg (· + 1) hlen,
        List.forall_mem_cons.mpr ⟨Nat.mod_lt _ (by decide), hds⟩, ?_⟩
      · rw [hexLoop, if_pos (Or.inr (Or.inl rfl)), hloop, nibble_eq]
        rfl
      · rw [Numeral.value_cons, hval, hlen, low_digits]

/-- Until then zeros are left out, except for the last digit. -/
theorem hexLoop_numeral (value : Nat) : ∀ n, ∃ ds : List Nat,
    hexLoop value (n + 1) false = ds.map hexChar ∧ IsNumeral 16 (value % 16 ^ (n + 1)) ds
  | 0 => by
      refine ⟨[value % 16], ?_, isNumeral_singleton (Nat.mod_lt _ (by decide))⟩
      rw [hexLoop, if_pos (Or.inr (Or.inr rfl)), nibble_eq, Nat.pow_zero, Nat.div_one]
      rfl
  | n + 1 => by
      rw [hexLoop, nibble_eq, ← low_digits value (n + 1)]
      by_cases hnib : value / 16 ^ (n + 1) % 16 = 0
      · obtain ⟨ds, hloop, hnum⟩ := hexLoop_numeral value n
        refine ⟨ds, ?_, ?_⟩
        · rw [if_neg (by simp [hnib]), hloop]
        · rwa [hnib, Nat.mul_zero, Nat.add_zero]
      · obtain ⟨ds, hloop, hlen, hds, hval⟩ := hexLoop_started value (n + 1)
        refine ⟨value / 16 ^ (n + 1) % 16 :: ds, ?_, ?_⟩
        · rw [if_pos (Or.inl hnib), hloop]
          rfl
        · rw [← hval, ← hlen]
          rw [← hlen] at hnib
          exact isNumeral_cons (Nat.mod_lt _ (by decide)) hnib hds

/-! ## What is written -/

/-- Every number of 64 bits is written in one to 20 decimal digits, without an access
outside the buffer, and as `0x` and one to 16 hexadecimal digits.  Both read back. -/
theorem serial_numbers_read_back (value : UInt64) (buf : Mem) :
    (∃ cs, serialWriteDecU64 buf value.toNat = some cs ∧ Prints 10 20 value.toNat cs) ∧
      ∃ cs, serialWriteHexU64 value.toNat = text "0x" ++ cs ∧ Prints 16 16 value.toNat cs := by
  have hv : value.toNat < 2 ^ 64 := value.toNat_lt
  constructor
  · refine ⟨_, serialWriteDecU64_eq hv buf, ?_⟩
    exact prints_of_isNumeral (isNumeral_numeral (by decide) _) digitOf_decChar (by decide)
      (by decide) (Nat.lt_trans hv (by decide))
  · obtain ⟨ds, hloop, hnum⟩ := hexLoop_numeral value.toNat 15
    have hfits : value.toNat < 16 ^ 16 := Nat.lt_of_lt_of_eq hv (by decide)
    rw [Nat.mod_eq_of_lt hfits] at hnum
    refine ⟨ds.map hexChar, ?_, ?_⟩
    · rw [serialWriteHexU64, hloop]
      rfl
    · exact prints_of_isNumeral hnum digitOf_hexChar (by decide) (by decide) hfits

example : serialWriteHexU64 0xBEE0 = text "0xBEE0" := by decide

example : serialWriteDecU64 (fun _ => 0) 4096 = some (text "4096") := by decide

end TunaOs
