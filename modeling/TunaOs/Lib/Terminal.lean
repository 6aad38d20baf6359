import Mathlib.Data.List.Basic
import Mathlib.Tactic.Common

/-!
# A terminal

The row of a terminal that the cursor is on, as the cells left of the cursor and those
from the cursor on.  A printable byte is written at the cursor, over what is there, and
the cursor moves right.  A backspace moves the cursor left and changes no cell.  Which
bytes are printable is a parameter, and all others do nothing.
-/

/-- The row of the cursor. -/
structure Terminal where
  /-- The cells left of the cursor. -/
  left : List UInt8
  /-- The cells from the cursor on that were written before. -/
  right : List UInt8

namespace Terminal

/-- The byte that moves the cursor left. -/
def backspace : UInt8 := 0x08

/-- The byte of an empty cell. -/
def blank : UInt8 := 0x20

/-- The cursor moves left, unless it is in the first column. -/
def back (t : Terminal) : Terminal :=
  match t.left.getLast? with
  | none => t
  | some c => ⟨t.left.dropLast, c :: t.right⟩

/-- One byte. -/
def put (printable : UInt8 → Bool) (t : Terminal) (c : UInt8) : Terminal :=
  if c = backspace then t.back
  else if printable c then ⟨t.left ++ [c], t.right.tail⟩
  else t

/-- Bytes one after the other. -/
def puts (printable : UInt8 → Bool) (t : Terminal) (cs : List UInt8) : Terminal :=
  cs.foldl (put printable) t

/-- The row shows `s`, with the cursor behind it. -/
structure Shows (t : Terminal) (s : List UInt8) : Prop where
  /-- The cells left of the cursor. -/
  left : t.left = s
  /-- The other cells are empty. -/
  right : ∀ c ∈ t.right, c = blank

section

variable {printable : UInt8 → Bool} {t : Terminal} {s : List UInt8}

theorem puts_append (cs ds : List UInt8) :
    t.puts printable (cs ++ ds) = (t.puts printable cs).puts printable ds := List.foldl_append

theorem Shows.put {c : UInt8} (h : t.Shows s) (hc : printable c) (hback : c ≠ backspace) :
    (t.put printable c).Shows (s ++ [c]) := by
  rw [Terminal.put, if_neg hback, if_pos hc]
  exact ⟨congrArg (· ++ [c]) h.left, fun d hd => h.right d (List.mem_of_mem_tail hd)⟩

theorem Shows.puts {cs : List UInt8} (h : t.Shows s) (hcs : ∀ c ∈ cs, printable c)
    (hback : backspace ∉ cs) : (t.puts printable cs).Shows (s ++ cs) := by
  induction cs generalizing t s with
  | nil => rwa [List.append_nil]
  | cons c cs ih =>
      obtain ⟨hc, hcs⟩ := List.forall_mem_cons.mp hcs
      obtain ⟨hne, hback⟩ := not_or.mp (List.mem_cons.not.mp hback)
      have hnext := ih (h.put hc (Ne.symm hne)) hcs hback
      rwa [List.append_assoc] at hnext

/-- A backspace, a blank and a backspace remove the last character. -/
theorem Shows.erase {c : UInt8} (h : t.Shows (s ++ [c])) (hblank : printable blank) :
    (t.puts printable [backspace, blank, backspace]).Shows s := by
  have hback : t.put printable backspace = ⟨s, c :: t.right⟩ := by
    rw [Terminal.put, if_pos rfl, back, h.left, List.getLast?_concat, List.dropLast_concat]
  have hput : Terminal.put printable ⟨s, c :: t.right⟩ blank = ⟨s ++ [blank], t.right⟩ := by
    rw [Terminal.put, if_neg (by decide), if_pos hblank]
    rfl
  have hback' : Terminal.put printable ⟨s ++ [blank], t.right⟩ backspace
      = ⟨s, blank :: t.right⟩ := by
    rw [Terminal.put, if_pos rfl, back]
    dsimp only
    rw [List.getLast?_concat, List.dropLast_concat]
  have hputs : t.puts printable [backspace, blank, backspace] = ⟨s, blank :: t.right⟩ := by
    rw [Terminal.puts, List.foldl_cons, hback, List.foldl_cons, hput, List.foldl_cons, hback',
      List.foldl_nil]
  rw [hputs]
  exact ⟨rfl, List.forall_mem_cons.mpr ⟨rfl, h.right⟩⟩

end

end Terminal
