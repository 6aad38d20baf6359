import Mathlib.Data.List.TakeWhile
import TunaOs.Kernel.Calls
import TunaOs.Lib.Terminal
import TunaOs.Shell.Model

/-!
# The line editor of the shell

The line that is typed is a stack of at most 127 bytes: an ordinary byte is pushed if
there is room, and a backspace pops.  `Edit.Rep` says that the array holds the stack and
that `pos` is its height, and every byte keeps it (`Edit.Rep.key`).  The echo of a byte
does to the row of a terminal what the byte does to the stack (`shows_keyEcho`).
`turns_eq` follows the shell over any number of lines, and `line_edited` states for one
line what is left in the array, what the terminal shows and what `SYS_EXEC` is passed.
-/

namespace TunaOs.Shell

open Mem (Holds HoldsStr holdsStr_nil holdsStr_cons holdsStr_takeWhile)
open Word (wrap64)

/-! ## The stack -/

/-- The height the stack may have. -/
def capacity : Nat := 127

/-- A byte that does not end the line. -/
def pushKey (stack : List UInt8) (c : UInt8) : List UInt8 :=
  if erases c then stack.dropLast
  else if stack.length < capacity then stack ++ [c]
  else stack

/-- The line after some bytes. -/
def edited (typed : List UInt8) : List UInt8 := typed.foldl pushKey []

theorem length_pushKey {stack : List UInt8} (h : stack.length ≤ capacity) (c : UInt8) :
    (pushKey stack c).length ≤ capacity := by
  unfold pushKey
  split
  · rw [List.length_dropLast]
    exact Nat.le_trans (Nat.sub_le _ _) h
  · split
    case isTrue hroom =>
      rw [List.length_append]
      exact hroom
    case isFalse => exact h

theorem length_edited (typed : List UInt8) : (edited typed).length ≤ capacity :=
  List.foldlRecOn typed pushKey (motive := fun stack => stack.length ≤ capacity) (Nat.zero_le _)
    fun _ h c _ => length_pushKey h c

theorem mem_pushKey {stack : List UInt8} {c d : UInt8} (h : d ∈ pushKey stack c) :
    d ∈ stack ∨ d = c ∧ ¬ erases c := by
  unfold pushKey at h
  split at h
  case isTrue => exact Or.inl (List.mem_of_mem_dropLast h)
  case isFalse herases =>
    split at h
    · rcases List.mem_append.mp h with h | h
      · exact Or.inl h
      · exact Or.inr ⟨List.mem_singleton.mp h, herases⟩
    · exact Or.inl h

/-- The bytes of the line are ordinary bytes that were typed. -/
theorem mem_edited {typed : List UInt8} : ∀ d ∈ edited typed, d ∈ typed ∧ ¬ erases d := by
  refine List.foldlRecOn typed pushKey
    (motive := fun stack => ∀ d ∈ stack, d ∈ typed ∧ ¬ erases d) (fun d hd => ?_)
    fun stack h c hc d hd => ?_
  · cases hd
  · rcases mem_pushKey hd with hd | ⟨rfl, herases⟩
    · exact h d hd
    · exact ⟨hc, herases⟩

/-! ## The loop -/

/-- The array holds the stack, and `pos` is its height. -/
structure Edit.Rep (e : Edit) (stack : List UInt8) : Prop where
  /-- `pos`. -/
  pos : e.pos = stack.length
  /-- The array. -/
  line : Holds e.line 0 stack
  /-- The stack is not too high. -/
  height : stack.length ≤ capacity

/-- The echo of a byte. -/
def keyEcho (stack : List UInt8) (c : UInt8) : List ShellCall :=
  if erases c then if stack = [] then [] else [.write (text "\x08 \x08")]
  else if stack.length < capacity then [.write [c]]
  else []

/-- The echo of some bytes. -/
def echo : List UInt8 → List UInt8 → List ShellCall
  | _, [] => []
  | stack, c :: typed => keyEcho stack c ++ echo (pushKey stack c) typed

theorem storeLine_ok {line : Mem} {i : Nat} (h : i < lineMax) (c : UInt8) :
    storeLine line i c = .ok (line.set i c) := if_pos h

/-- A byte behind a string. -/
theorem holds_set {line : Mem} {s : List UInt8} (h : Holds line 0 s) (c : UInt8) :
    Holds (line.set s.length c) 0 (s ++ [c]) := by
  refine Mem.holds_append.mpr ⟨h.congr fun x _ hx => Mem.set_other (by omega), ?_, trivial⟩
  rw [Nat.zero_add, Mem.set_self]

section

variable {e : Edit} {stack : List UInt8}

theorem Edit.Rep.write (h : e.Rep stack) (bytes : List UInt8) : (e.write bytes).Rep stack :=
  ⟨h.pos, h.line, h.height⟩

theorem Edit.Rep.pop {top : UInt8} (h : e.Rep (stack ++ [top])) :
    Edit.Rep { e with pos := e.pos - 1 } stack := by
  have hlen : (stack ++ [top]).length = stack.length + 1 := List.length_append
  exact ⟨Nat.sub_eq_of_eq_add (h.pos.trans hlen), (Mem.holds_append.mp h.line).1,
    Nat.le_of_succ_le (hlen.symm.trans_le h.height)⟩

theorem Edit.Rep.push (h : e.Rep stack) (hroom : stack.length < capacity) (c : UInt8) :
    Edit.Rep { e with line := e.line.set e.pos c, pos := e.pos + 1 } (stack ++ [c]) := by
  have hlen : (stack ++ [c]).length = stack.length + 1 := List.length_append
  refine ⟨(congrArg (· + 1) h.pos).trans hlen.symm, ?_, hlen.trans_le hroom⟩
  rw [h.pos]
  exact holds_set h.line c

/-- A byte does to the array what it does to the stack. -/
theorem Edit.Rep.key (h : e.Rep stack) (c : UInt8) :
    ∃ e', e.key c = .ok e' ∧ e'.Rep (pushKey stack c) ∧
      e'.calls = e.calls ++ keyEcho stack c := by
  unfold Edit.key pushKey keyEcho
  by_cases herases : erases c
  · rw [if_pos herases, if_pos herases, if_pos herases]
    rcases List.eq_nil_or_concat' stack with rfl | ⟨below, top, rfl⟩
    · have hpos : ¬ e.pos > 0 := Nat.not_lt.mpr (Nat.le_of_eq h.pos)
      rw [if_neg hpos, if_pos rfl]
      exact ⟨e, rfl, h, (List.append_nil _).symm⟩
    · have hne : below ++ [top] ≠ [] := List.append_ne_nil_of_right_ne_nil _ (List.cons_ne_nil _ _)
      have hpos : e.pos > 0 := by
        rw [h.pos]
        exact List.length_pos_of_ne_nil hne
      rw [if_pos hpos, if_neg hne, List.dropLast_concat]
      exact ⟨_, rfl, h.pop.write _, rfl⟩
  · rw [if_neg herases, if_neg herases, if_neg herases]
    by_cases hroom : stack.length < capacity
    · have hpos : e.pos < lineMax - 1 := h.pos.trans_lt hroom
      rw [if_pos hpos, if_pos hroom, if_pos hroom, storeLine_ok (by omega)]
      exact ⟨_, rfl, (h.push hroom c).write _, rfl⟩
    · have hpos : ¬ e.pos < lineMax - 1 := fun hlt => hroom (h.pos.symm.trans_lt hlt)
      rw [if_neg hpos, if_neg hroom, if_neg hroom]
      exact ⟨e, rfl, h, (List.append_nil _).symm⟩

/-- The loop folds the bytes over the stack, up to the end of the line. -/
theorem editLoop_eq {typed rest : List UInt8} {last : UInt8} (hlast : endsLine last)
    (htyped : ∀ c ∈ typed, ¬ endsLine c) (h : e.Rep stack) :
    ∃ e' : Edit, editLoop (typed ++ last :: rest) e = .ok (e'.write (text "\n"), rest) ∧
      e'.Rep (typed.foldl pushKey stack) ∧ e'.calls = e.calls ++ echo stack typed := by
  induction typed generalizing e stack with
  | nil => exact ⟨e, if_pos hlast, h, (List.append_nil _).symm⟩
  | cons c typed ih =>
      obtain ⟨hc, htyped⟩ := List.forall_mem_cons.mp htyped
      obtain ⟨e₁, hkey, hrep, hcalls⟩ := h.key c
      obtain ⟨e', hloop, hrep', hcalls'⟩ := ih htyped hrep
      refine ⟨e', ?_, hrep', ?_⟩
      · rw [List.cons_append, editLoop, if_neg hc, hkey]
        exact hloop
      · rw [hcalls', hcalls, echo, List.append_assoc]

end

/-! ## The command -/

section

variable {line : Mem}

theorem loadLine_ok {i : Nat} (h : i < lineMax) : loadLine line i = .ok (line i) := if_pos h

@[simp] theorem ok_bind {α β : Type} (a : α) (f : α → Except Stop β) :
    ((.ok a : Except Stop α) >>= f) = f a := rfl

@[simp] theorem pure_eq_ok {α : Type} (a : α) : (pure a : Except Stop α) = .ok a := rfl

/-- `str_eq` compares the string on the line with a literal. -/
theorem strEq_ok : ∀ {s t : List UInt8} {i : Nat}, HoldsStr line i s → 0 ∉ t →
    i + s.length < lineMax → strEq line i t = .ok (decide (s = t))
  | [], [], i, hs, _, hi => by
      rw [strEq, loadLine_ok (by simpa using hi), ok_bind, holdsStr_nil.mp hs]
      rfl
  | [], d :: t, i, hs, ht, hi => by
      have hd : (0 : UInt8) ≠ d := fun h => ht (h ▸ List.mem_cons_self)
      rw [strEq, loadLine_ok (by simpa using hi), ok_bind, holdsStr_nil.mp hs]
      simpa using hd
  | c :: s, [], i, hs, _, hi => by
      obtain ⟨hc, hne, -⟩ := holdsStr_cons.mp hs
      rw [strEq, loadLine_ok (Nat.lt_of_le_of_lt (Nat.le_add_right _ _) hi), ok_bind, hc]
      simpa using hne
  | c :: s, d :: t, i, hs, ht, hi => by
      obtain ⟨hc, hne, hs'⟩ := holdsStr_cons.mp hs
      obtain ⟨hd, ht'⟩ := not_or.mp (List.mem_cons.not.mp ht)
      rw [strEq, loadLine_ok (Nat.lt_of_le_of_lt (Nat.le_add_right _ _) hi), ok_bind, hc,
        if_pos ⟨hne, Ne.symm hd⟩]
      by_cases heq : c = d
      · rw [if_neg (not_not.mpr heq), strEq_ok hs' ht' (by rw [List.length_cons] at hi; omega)]
        simp [heq]
      · rw [if_pos heq]
        simp [heq]

theorem strLenFrom_ok : ∀ {s : List UInt8} {left n : Nat}, HoldsStr line n s → s.length < left →
    strLenFrom line left n = .ok (n + s.length)
  | [], left + 1, n, hs, _ => by
      rw [strLenFrom, if_neg (not_not.mpr (holdsStr_nil.mp hs))]
      rfl
  | c :: s, left + 1, n, hs, hlen => by
      obtain ⟨hc, hne, hs'⟩ := holdsStr_cons.mp hs
      rw [strLenFrom, hc, if_pos hne, strLenFrom_ok hs' (Nat.lt_of_succ_lt_succ hlen),
        List.length_cons, Nat.add_right_comm, Nat.add_assoc]

theorem lineBytes_eq {s : List UInt8} (hs : HoldsStr line 0 s) : lineBytes line s.length = s := by
  have hbytes := (Mem.holds_append.mp hs.bytes).1.map_range
  simp only [Nat.zero_add] at hbytes
  exact hbytes

/-- The calls for the command that the line holds as a string. -/
def command (name : List UInt8) (reply : Int) : List ShellCall :=
  if name = text "ls" then [.listfiles]
  else if name = text "exit" then [.exit]
  else if reply < 0 then
    [.exec name name.length, .write (text "unknown command: "), .write name, .write (text "\n")]
  else [.exec name name.length]

theorem runLine_ok {name : List UInt8} (hname : HoldsStr line 0 name)
    (hlen : name.length < lineMax) (reply : Int) :
    runLine line reply = .ok (command name reply) := by
  have hls := strEq_ok hname (show 0 ∉ text "ls" by decide) (by rwa [Nat.zero_add])
  have hexit := strEq_ok hname (show 0 ∉ text "exit" by decide) (by rwa [Nat.zero_add])
  have hstrLen : strLen line = .ok name.length := by
    rw [strLen, strLenFrom_ok hname hlen, Nat.zero_add]
  unfold runLine command
  rw [hls, hexit, hstrLen]
  by_cases h1 : name = text "ls"
  · rw [if_pos h1, decide_eq_true h1]
    rfl
  by_cases h2 : name = text "exit"
  · rw [if_neg h1, if_pos h2, decide_eq_false h1, decide_eq_true h2]
    rfl
  rw [if_neg h1, if_neg h2, decide_eq_false h1, decide_eq_false h2]
  simp only [ok_bind, Bool.false_eq_true, if_false, lineBytes_eq hname]
  split
  · rfl
  · rfl

end

/-! ## Turns -/

/-- The calls while a line is read. -/
def readCalls (typed : List UInt8) : List ShellCall :=
  .write prompt :: (echo [] typed ++ [.write (text "\n")])

/-- The calls of a turn.  A zero byte on the line ends the name of the command. -/
def turnCalls (typed : List UInt8) (reply : Int) : List ShellCall :=
  readCalls typed ++
    if edited typed = [] then [] else command ((edited typed).takeWhile (· ≠ 0)) reply

section

variable {s : State} {typed rest : List UInt8} {last : UInt8}

/-- Reading a line. -/
theorem readLine_eq (hinput : s.input = typed ++ last :: rest) (hlast : endsLine last)
    (htyped : ∀ c ∈ typed, ¬ endsLine c) :
    ∃ line, readLine s
        = .ok (⟨line, rest, s.calls ++ readCalls typed⟩, (edited typed).length) ∧
      Holds line 0 (edited typed ++ [0]) := by
  have hstart : Edit.Rep ⟨s.line, 0, s.calls⟩ [] := ⟨rfl, Mem.holds_nil 0, Nat.zero_le _⟩
  obtain ⟨e, hloop, hrep, hcalls⟩ := editLoop_eq hlast htyped (hstart.write prompt)
  have hpos : e.pos = (edited typed).length := hrep.pos
  have hstore : storeLine e.line e.pos 0 = .ok (e.line.set e.pos 0) :=
    storeLine_ok (Nat.lt_succ_of_le (hrep.pos.trans_le hrep.height)) 0
  refine ⟨e.line.set e.pos 0, ?_, ?_⟩
  · rw [readLine, hinput, hloop]
    simp only [ok_bind]
    rw [show storeLine (e.write (text "\n")).line (e.write (text "\n")).pos 0 = _ from hstore]
    simp only [ok_bind, pure_eq_ok, Edit.write, hcalls, hpos, readCalls, List.append_assoc,
      List.cons_append, List.nil_append]
  · rw [hpos]
    exact holds_set hrep.line 0

/-- One turn of the main loop. -/
theorem turn_eq (hinput : s.input = typed ++ last :: rest) (hlast : endsLine last)
    (htyped : ∀ c ∈ typed, ¬ endsLine c) (reply : Int) :
    ∃ line, turn s reply = .ok ⟨line, rest, s.calls ++ turnCalls typed reply⟩ := by
  obtain ⟨line, hread, hline⟩ := readLine_eq hinput hlast htyped
  refine ⟨line, ?_⟩
  rw [turn, hread, ok_bind, turnCalls]
  dsimp only
  by_cases hempty : edited typed = []
  · rw [if_pos (by rw [hempty]; rfl), if_pos hempty, List.append_nil, pure_eq_ok]
  · have hname := holdsStr_takeWhile hline
    have hlen : ((edited typed).takeWhile (· ≠ 0)).length < lineMax :=
      Nat.lt_succ_of_le (Nat.le_trans (List.takeWhile_prefix _).length_le (length_edited typed))
    rw [if_neg (List.length_eq_zero_iff.not.mpr hempty), if_neg hempty,
      runLine_ok hname hlen reply, ok_bind, pure_eq_ok, List.append_assoc]

end

/-- A line with the byte that ends it, and what `SYS_EXEC` returns if the line runs a
program. -/
structure Entry where
  /-- The bytes before the end. -/
  typed : List UInt8
  /-- The byte that ends the line. -/
  last : UInt8
  /-- What `SYS_EXEC` returns. -/
  reply : Int
  /-- The line does not end earlier. -/
  typed_open : ∀ c ∈ typed, ¬ endsLine c
  /-- It ends. -/
  last_ends : endsLine last

/-- The bytes of the line. -/
def Entry.bytes (l : Entry) : List UInt8 := l.typed ++ [l.last]

/-- The calls for the line. -/
def Entry.calls (l : Entry) : List ShellCall := turnCalls l.typed l.reply

/-- The main loop over any number of lines. -/
theorem turns_eq {entries : List Entry} {rest : List UInt8} {s : State}
    (hinput : s.input = entries.flatMap Entry.bytes ++ rest) :
    ∃ line, turns s (entries.map Entry.reply)
      = .ok ⟨line, rest, s.calls ++ entries.flatMap Entry.calls⟩ := by
  induction entries generalizing s with
  | nil =>
      obtain ⟨line, input, calls⟩ := s
      obtain rfl : input = rest := hinput
      exact ⟨line, by rw [List.flatMap_nil, List.append_nil]; rfl⟩
  | cons l entries ih =>
      have hfirst : s.input = l.typed ++ l.last :: (entries.flatMap Entry.bytes ++ rest) := by
        rw [hinput, List.flatMap_cons, Entry.bytes, List.append_assoc, List.append_assoc]
        rfl
      obtain ⟨line₁, hturn⟩ := turn_eq hfirst l.last_ends l.typed_open l.reply
      obtain ⟨line, hturns⟩ := ih (s := ⟨line₁, _, s.calls ++ turnCalls l.typed l.reply⟩) rfl
      refine ⟨line, ?_⟩
      rw [turns, List.map_cons, List.foldlM_cons, hturn, ok_bind, List.flatMap_cons,
        ← List.append_assoc]
      exact hturns

/-! ## The terminal -/

/-- The bytes that calls write. -/
def written (calls : List ShellCall) : List UInt8 :=
  calls.flatMap fun
    | .write bytes => bytes
    | _ => []

theorem written_append (a b : List ShellCall) : written (a ++ b) = written a ++ written b :=
  List.flatMap_append

section

variable {printable : UInt8 → Bool} {t : Terminal} {row stack : List UInt8}

/-- The echo of a byte does to the row what the byte does to the stack. -/
theorem shows_keyEcho (h : t.Shows (row ++ stack)) (hblank : printable Terminal.blank) {c : UInt8}
    (hc : ¬ erases c → printable c) :
    (t.puts printable (written (keyEcho stack c))).Shows (row ++ pushKey stack c) := by
  unfold keyEcho pushKey
  by_cases herases : erases c
  · rw [if_pos herases, if_pos herases]
    rcases List.eq_nil_or_concat' stack with rfl | ⟨below, top, rfl⟩
    · exact h
    · rw [if_neg (List.append_ne_nil_of_right_ne_nil _ (List.cons_ne_nil _ _)),
        List.dropLast_concat]
      rw [← List.append_assoc] at h
      exact h.erase hblank
  · rw [if_neg herases, if_neg herases]
    by_cases hroom : stack.length < capacity
    · have hback : c ≠ Terminal.backspace := by
        rintro rfl
        exact herases rfl
      rw [if_pos hroom, if_pos hroom, ← List.append_assoc]
      exact h.put (hc herases) hback
    · rw [if_neg hroom, if_neg hroom]
      exact h

theorem shows_echo (hblank : printable Terminal.blank) {typed : List UInt8}
    (htyped : ∀ c ∈ typed, ¬ erases c → printable c) (h : t.Shows (row ++ stack)) :
    (t.puts printable (written (echo stack typed))).Shows
      (row ++ typed.foldl pushKey stack) := by
  induction typed generalizing t stack with
  | nil => exact h
  | cons c typed ih =>
      obtain ⟨hc, htyped⟩ := List.forall_mem_cons.mp htyped
      rw [echo, written_append, Terminal.puts_append]
      exact ih htyped (shows_keyEcho h hblank hc)

end

/-! ## What is typed, shown and run -/

/-- The bytes before the end of the first line. -/
def typedOf (input : List UInt8) : List UInt8 := input.takeWhile fun c => !endsLine c

theorem typedOf_open {input : List UInt8} : ∀ c ∈ typedOf input, ¬ endsLine c := by
  intro c hc
  simpa using List.mem_takeWhile_imp hc

theorem input_split {input : List UInt8} {c : UInt8} (hc : c ∈ input) (hends : endsLine c) :
    ∃ last rest, input = typedOf input ++ last :: rest ∧ endsLine last := by
  induction input with
  | nil => cases hc
  | cons d input ih =>
      by_cases hd : endsLine d
      · exact ⟨d, input, by rw [typedOf, List.takeWhile_cons_of_neg (by simp [hd])]; rfl, hd⟩
      · rcases List.mem_cons.mp hc with rfl | hc
        · exact absurd hends hd
        · obtain ⟨last, rest, hsplit, hlast⟩ := ih hc
          refine ⟨last, rest, ?_, hlast⟩
          rw [typedOf, List.takeWhile_cons_of_pos (by simp [hd]), List.cons_append]
          exact congrArg (d :: ·) hsplit

/-- `handle_exec` accepts a name of one to 127 bytes and reads it. -/
theorem handleExec_reads {σ : Type} {M : Mach σ} {frame : InterruptFrame} {name : List UInt8}
    (hne : name ≠ []) (hlen : name.length ≤ capacity) (hrdi : frame.rdi ≠ 0)
    (hrsi : frame.rsi = name.length)
    (hmem : ∀ i (hi : i < name.length), M.userByte (wrap64 (frame.rdi + i)) = some name[i]) :
    ¬ frame.RejectsName ∧ (loadUserBytes frame.rdi frame.rsi M).1 = name := by
  have hpos : 0 < name.length := List.length_pos_of_ne_nil hne
  constructor
  · rintro (h | h | h)
    · exact hrdi h
    · omega
    · rw [hrsi] at h
      exact absurd hlen (Nat.not_le.mpr h)
  · rw [loadUserBytes_fst, hrsi]
    refine List.ext_getElem (by simp) fun i _ hi => ?_
    rw [List.getElem_map, List.getElem_range, hmem i hi]
    rfl

/-- The line that is typed first. -/
def lineOf (input : List UInt8) : List UInt8 := edited (typedOf input)

/-- The shell reads the line `l`, without an access outside the array. -/
structure Reads (s s' : State) (l : List UInt8) : Prop where
  /-- It returns, and `pos` is the length of the line. -/
  returns : readLine s = .ok (s', l.length)
  /-- The array holds the line and a zero byte. -/
  holds : Holds s'.line 0 (l ++ [0])
  /-- The line is not too long. -/
  length_le : l.length ≤ 127

/-- What is written until the line ends shows the prompt and the line on a terminal. -/
def Echoes (printable : UInt8 → Bool) (s s' : State) (l : List UInt8) : Prop :=
  ∃ out, written s'.calls = written s.calls ++ (prompt ++ out ++ [newline]) ∧
    ∀ t row, Terminal.Shows t row →
      (t.puts printable (prompt ++ out)).Shows (row ++ prompt ++ l)

/-- After the line is read, `SYS_EXEC` is passed its bytes and its length, and
`handle_exec` accepts and reads them. -/
structure Execs (s s' : State) (reply : Int) (l : List UInt8) : Prop where
  /-- The call is the next one, and only messages are written after it. -/
  call : ∃ s'' messages, turn s reply = .ok s'' ∧
    s''.calls = s'.calls ++ .exec l l.length :: List.map ShellCall.write messages
  /-- The bound that `handle_exec` checks. -/
  bound : 1 ≤ l.length ∧ l.length ≤ 127
  /-- `handle_exec` with the line at its pointer. -/
  accepted : ∀ (σ : Type) (M : Mach σ) (frame : InterruptFrame), frame.rdi ≠ 0 →
    frame.rsi = l.length →
    (∀ i (hi : i < l.length), M.userByte (wrap64 (frame.rdi + i)) = some l[i]) →
    ¬ frame.RejectsName ∧ (loadUserBytes frame.rdi frame.rsi M).1 = l

section

variable {typed : List UInt8}

theorem written_readCalls (calls : List ShellCall) (typed : List UInt8) :
    written (calls ++ readCalls typed)
      = written calls ++ (prompt ++ written (echo [] typed) ++ [newline]) := by
  rw [written_append, List.append_cancel_left_eq, readCalls, List.append_assoc]
  exact congrArg (prompt ++ ·) (written_append _ _)

/-- The prompt and the echo on a terminal. -/
theorem shows_line {printable : UInt8 → Bool} (hprompt : ∀ c ∈ prompt, printable c)
    (htyped : ∀ c ∈ typed, ¬ erases c → printable c) {t : Terminal} {row : List UInt8}
    (h : t.Shows row) :
    (t.puts printable (prompt ++ written (echo [] typed))).Shows
      (row ++ prompt ++ edited typed) := by
  have hshown : (t.puts printable prompt).Shows (row ++ prompt ++ []) := by
    rw [List.append_nil]
    exact h.puts hprompt (by decide)
  rw [Terminal.puts_append]
  exact shows_echo (hprompt _ (by decide)) htyped hshown

/-- The calls for a line without zero bytes that runs a program. -/
theorem turnCalls_exec (hzero : ∀ c ∈ typed, ¬ erases c → c ≠ 0) (hne : edited typed ≠ [])
    (hls : edited typed ≠ text "ls") (hexit : edited typed ≠ text "exit") (reply : Int) :
    ∃ messages, turnCalls typed reply = readCalls typed ++
      .exec (edited typed) (edited typed).length :: List.map ShellCall.write messages := by
  have hname : (edited typed).takeWhile (· ≠ 0) = edited typed :=
    List.takeWhile_eq_self_iff.mpr fun c hc => by
      obtain ⟨hc, herases⟩ := mem_edited c hc
      exact decide_eq_true (hzero c hc herases)
  rw [turnCalls, if_neg hne, hname, command, if_neg hls, if_neg hexit]
  split
  · exact ⟨[text "unknown command: ", edited typed, text "\n"], rfl⟩
  · exact ⟨[], rfl⟩

end

/-- For every input that ends in a carriage return or a newline, and whatever the array
held before, the shell reads the line that the bytes leave on the stack.  If the ordinary
bytes are printable and not zero, a terminal shows that line behind the prompt, and a line
other than `ls` and `exit` is passed to `SYS_EXEC`. -/
theorem line_edited (printable : UInt8 → Bool) (hprompt : ∀ c ∈ prompt, printable c) (s : State)
    (reply : Int) {c : UInt8} (hinput : s.input.getLast? = some c) (hends : endsLine c) :
    ∃ s', Reads s s' (lineOf s.input) ∧
      ((∀ d ∈ typedOf s.input, ¬ erases d → printable d ∧ d ≠ 0) →
        Echoes printable s s' (lineOf s.input) ∧
        (lineOf s.input ≠ [] → lineOf s.input ≠ text "ls" → lineOf s.input ≠ text "exit" →
          Execs s s' reply (lineOf s.input))) := by
  obtain ⟨last, rest, hsplit, hlast⟩ := input_split (List.mem_of_getLast? hinput) hends
  obtain ⟨line, hread, hline⟩ := readLine_eq hsplit hlast typedOf_open
  have hlen := length_edited (typedOf s.input)
  refine ⟨_, ⟨hread, hline, hlen⟩, fun htyped => ⟨?_, fun hne hls hexit => ⟨?_, ?_, ?_⟩⟩⟩
  · exact ⟨_, written_readCalls _ _, fun t row hrow =>
      shows_line hprompt (fun d hd herases => (htyped d hd herases).1) hrow⟩
  · obtain ⟨line', hturn⟩ := turn_eq hsplit hlast typedOf_open reply
    obtain ⟨messages, hcalls⟩ := turnCalls_exec (fun d hd herases => (htyped d hd herases).2)
      hne hls hexit reply
    refine ⟨_, messages, hturn, ?_⟩
    rw [hcalls, List.append_assoc]
    rfl
  · exact ⟨List.length_pos_of_ne_nil hne, hlen⟩
  · intro σ M frame hrdi hrsi hmem
    exact handleExec_reads hne hlen hrdi hrsi hmem

/-- The printable characters of ASCII. -/
def asciiPrintable (c : UInt8) : Bool := 0x20 ≤ c && c ≤ 0x7E

/-- A shell that is going to read `hx`, a backspace, `i` and the end of the line. -/
def sampleState : State := ⟨fun _ => 0xCC, text "hx\x08i\r", []⟩

theorem line_edited_sample :
    ∃ s', Reads sampleState s' (text "hi") ∧
      Echoes asciiPrintable sampleState s' (text "hi") ∧
      Execs sampleState s' (-1) (text "hi") := by
  have hline : lineOf sampleState.input = text "hi" := by decide
  obtain ⟨s', hreads, hrest⟩ := line_edited asciiPrintable (by decide +kernel) sampleState (-1)
    (c := carriageReturn) (by decide) (by decide)
  rw [hline] at hreads hrest
  obtain ⟨hechoes, hexecs⟩ := hrest (by decide +kernel)
  exact ⟨s', hreads, hechoes, hexecs (by decide) (by decide) (by decide)⟩

end TunaOs.Shell
