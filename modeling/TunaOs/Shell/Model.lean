import TunaOs.Serial.Model

/-!
# The shell

The model of `user/shell.c`.  The shell reads bytes with `SYS_READ`, and its other system
calls are recorded in order.  The line that is edited is an array on its stack, of which
the first bytes are indexed here from 0.  An access outside of it stops the model, and so
does a read when there is no input left, since `SYS_READ` then waits.
-/

namespace TunaOs

/-- `LINE_MAX`. -/
def lineMax : Nat := 128

/-- A system call of the shell other than `SYS_READ`. -/
inductive ShellCall
  /-- `SYS_WRITE` with the bytes at its pointer. -/
  | write (bytes : List UInt8)
  /-- `SYS_LISTFILES`. -/
  | listfiles
  /-- `SYS_EXIT`. -/
  | exit
  /-- `SYS_EXEC` with the bytes at its pointer, and the length it is passed. -/
  | exec (name : List UInt8) (len : Nat)
  deriving DecidableEq, Repr

/-- Why the model stops. -/
inductive Stop
  /-- `SYS_READ` waits for a byte. -/
  | waits
  /-- An access outside `line`. -/
  | outside
  deriving DecidableEq, Repr

namespace Shell

/-! ## The line -/

/-- `line[i] = c`. -/
def storeLine (line : Mem) (i : Nat) (c : UInt8) : Except Stop Mem :=
  if i < lineMax then .ok (line.set i c) else .error .outside

/-- `line[i]`. -/
def loadLine (line : Mem) (i : Nat) : Except Stop UInt8 :=
  if i < lineMax then .ok (line i) else .error .outside

/-- The first `len` bytes of the line, as a system call reads them. -/
def lineBytes (line : Mem) (len : Nat) : List UInt8 := (List.range len).map line

/-- `str_eq (line + i, s)` for a string literal. -/
def strEq (line : Mem) : Nat → List UInt8 → Except Stop Bool
  | i, [] => do
      let c ← loadLine line i
      return c == 0
  | i, d :: s => do
      let c ← loadLine line i
      if c ≠ 0 ∧ d ≠ 0 then if c ≠ d then return false else strEq line (i + 1) s
      else return c == d

/-- The loop of `str_len (line)` from `n` on.  There are `left` bytes of the line left. -/
def strLenFrom (line : Mem) : Nat → Nat → Except Stop Nat
  | 0, _ => .error .outside
  | left + 1, n => if line n ≠ 0 then strLenFrom line left (n + 1) else .ok n

/-- `str_len (line)`. -/
def strLen (line : Mem) : Except Stop Nat := strLenFrom line lineMax 0

/-! ## Editing -/

/-- What the loop that reads a line changes. -/
structure Edit where
  /-- `line`. -/
  line : Mem
  /-- `pos`. -/
  pos : Nat
  /-- The system calls. -/
  calls : List ShellCall

/-- `write_str (s)` of a string literal, and `write_char (c)`. -/
def Edit.write (e : Edit) (bytes : List UInt8) : Edit :=
  { e with calls := e.calls ++ [.write bytes] }

/-- `c == '\r' || c == '\n'`. -/
def endsLine (c : UInt8) : Bool := c == carriageReturn || c == newline

/-- `c == 0x7f || c == '\b'`. -/
def erases (c : UInt8) : Bool := c == 0x7F || c == 0x08

/-- The body of the loop for a byte that does not end the line. -/
def Edit.key (e : Edit) (c : UInt8) : Except Stop Edit :=
  if erases c then
    if e.pos > 0 then .ok ({ e with pos := e.pos - 1 }.write (text "\x08 \x08")) else .ok e
  else if e.pos < lineMax - 1 then do
    let line ← storeLine e.line e.pos c
    return ({ e with line, pos := e.pos + 1 }.write [c])
  else .ok e

/-- The loop that reads a line, with the input it leaves. -/
def editLoop : List UInt8 → Edit → Except Stop (Edit × List UInt8)
  | [], _ => .error .waits
  | c :: input, e =>
      if endsLine c then .ok (e.write (text "\n"), input)
      else do
        let e ← e.key c
        editLoop input e

/-! ## The main loop -/

/-- The shell between two prompts. -/
structure State where
  /-- `line`. -/
  line : Mem
  /-- The bytes that `SYS_READ` is going to return. -/
  input : List UInt8
  /-- The system calls. -/
  calls : List ShellCall

/-- The prompt. -/
def prompt : List UInt8 := text "tuna> "

/-- The main loop up to `line[pos] = '\0'`: the state after it, and `pos`. -/
def readLine (s : State) : Except Stop (State × Nat) := do
  let (e, input) ← editLoop s.input (Edit.write ⟨s.line, 0, s.calls⟩ prompt)
  let line ← storeLine e.line e.pos 0
  return (⟨line, input, e.calls⟩, e.pos)

/-- The command on the line.  `reply` is what `SYS_EXEC` returns. -/
def runLine (line : Mem) (reply : Int) : Except Stop (List ShellCall) := do
  if ← strEq line 0 (text "ls") then return [.listfiles]
  else if ← strEq line 0 (text "exit") then return [.exit]
  else
    let len ← strLen line
    if reply < 0 then
      return [.exec (lineBytes line len) len, .write (text "unknown command: "),
        .write (lineBytes line len), .write (text "\n")]
    else return [.exec (lineBytes line len) len]

/-- One turn of the main loop. -/
def turn (s : State) (reply : Int) : Except Stop State := do
  let (s, pos) ← readLine s
  if pos = 0 then return s
  else
    let calls ← runLine s.line reply
    return { s with calls := s.calls ++ calls }

/-- The main loop, one turn for every reply. -/
def turns (s : State) (replies : List Int) : Except Stop State := replies.foldlM turn s

end Shell

end TunaOs
