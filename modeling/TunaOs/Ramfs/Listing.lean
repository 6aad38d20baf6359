import TunaOs.Kernel.Calls
import TunaOs.Ramfs.Names
import TunaOs.Serial.Output

/-!
# Listing files

`ramfs_list` writes a line for every file of the list and the total.  `sys_listfiles`
calls it and returns 0, while its comment says that it returns the number of files.
`listfiles_right_iff` states that in every history of `ramfs_create` the listing is the
one of the files that were created, the newest first, and that what is returned is their
number only if there are none.
-/

namespace TunaOs

open Run (Reachable)
open Word (wrap32)

/-! ## The listing -/

/-- A file as it is listed: its name and its size. -/
abbrev Listed : Type := List UInt8 × Nat

/-- The line of a file. -/
def listingLine (f : Listed) : List UInt8 :=
  text "  " ++ f.1 ++ text "  " ++ decimal f.2 ++ text " bytes\n"

/-- The lines of the files between the heading and the total. -/
def listing (files : List Listed) : List UInt8 :=
  text "[ramfs] listing files:\n" ++ files.flatMap listingLine ++
    (text "[ramfs] total: " ++ decimal files.length ++ text " files\n")

/-- The file as it is listed. -/
def StoredFile.listed (f : StoredFile) : Listed := (f.name, f.bytes.length)

/-- The loop of `ramfs_list` over a linked list. -/
theorem Ramfs.listFrom_eq {m : Mem} (stack : Mem) {files : List StoredFile} {fuel p : Nat}
    (count : Nat) (hlinked : Linked m files p) (hne : ∀ f ∈ files, f.node ≠ 0)
    (hlen : files.length < fuel) (hcount : count + files.length < 2 ^ 32) :
    Ramfs.listFrom m stack fuel p count = some
      (serialWrite ((files.map StoredFile.listed).flatMap listingLine), count + files.length) := by
  induction files generalizing p fuel count with
  | nil =>
      obtain ⟨fuel, rfl⟩ := Nat.exists_eq_succ_of_ne_zero (Nat.ne_of_gt hlen)
      have hp : p = 0 := hlinked
      rw [Ramfs.listFrom, if_pos hp]
      rfl
  | cons f files ih =>
      obtain ⟨fuel, rfl⟩ := Nat.exists_eq_succ_of_ne_zero (Nat.ne_of_gt (Nat.zero_lt_of_lt hlen))
      obtain ⟨rfl, next, hf, hrest⟩ := hlinked
      rw [List.length_cons] at hlen hcount
      have hsize : f.bytes.length < 2 ^ 64 := by
        rw [← hf.size]
        exact Nat.lt_of_lt_of_eq (Mem.load_lt _ _ _) (by decide)
      have hnext : wrap32 (count + 1) = count + 1 := Nat.mod_eq_of_lt (by omega)
      have hloop := ih (count + 1) hrest (fun g hg => hne g (List.mem_cons_of_mem _ hg))
        (Nat.lt_of_succ_lt_succ hlen) (by omega)
      rw [Ramfs.listFrom, if_neg (hne f List.mem_cons_self), serialWriteAt_eq hf.name hf.short,
        hf.size, serialWriteDecU64_eq hsize, hf.next, hnext, hloop, List.map_cons,
        List.flatMap_cons, serialWrite_append, listingLine, StoredFile.listed]
      simp only [serialWrite_append, serialWrite_plain (newline_notMem_decimal _), List.length_cons]
      rw [Nat.add_right_comm, Nat.add_assoc]
      rfl

section

variable {σ : Type} {h : RamfsHistory σ}

/-- `sys_listfiles` lists the files of the store and returns 0. -/
theorem RamfsHistory.Inv.sysListfiles (hinv : h.Inv) (stack : Mem) :
    h.ramfs.sysListfiles stack
      = some (serialWrite (listing (h.files.map StoredFile.listed)), 0) := by
  have hlen := hinv.length_lt
  have hcount : h.files.length < 2 ^ 32 := by
    obtain ⟨bs, hr, -⟩ := hinv.heap
    have hend := hr.end_lt
    rw [Heap.walkFuel] at hlen
    omega
  have hloop := Ramfs.listFrom_eq stack 0 hinv.linked (fun f hf => (hinv.node_bounds hf).1) hlen
    (by omega)
  have htotal := serialWriteDecU64_eq (Nat.lt_trans hcount (by decide)) stack
  rw [Nat.zero_add] at hloop
  rw [Ramfs.sysListfiles, Ramfs.list, hloop]
  dsimp only [Option.bind_eq_bind, Option.bind_some]
  rw [htotal]
  simp only [listing, serialWrite_append, serialWrite_plain (newline_notMem_decimal _),
    List.length_map, Option.bind_some, List.append_assoc]

end

/-! ## What holds in every history -/

section

variable {σ : Type} [HeapBacking σ] {h : NamedHistory σ}

/-- A created file as it is listed: what its node keeps of the name, and the size. -/
def NamedFile.listed (f : NamedFile) : Listed := (keptName f.created, f.file.bytes.length)

/-- `sys_listfiles` lists every file that was created, the newest first, and returns
their number. -/
def NamedHistory.ListsRight (h : NamedHistory σ) (stack : Mem) : Prop :=
  h.ramfs.sysListfiles stack
    = some (serialWrite (listing (h.files.map NamedFile.listed)), h.files.length)

omit [HeapBacking σ] in
theorem NamedHistory.Inv.sysListfiles (hinv : h.Inv) (stack : Mem) :
    h.ramfs.sysListfiles stack
      = some (serialWrite (listing (h.files.map NamedFile.listed)), 0) := by
  have hlisted : h.stored.files.map StoredFile.listed = h.files.map NamedFile.listed := by
    rw [NamedHistory.stored, List.map_map]
    refine List.map_congr_left fun f hf => ?_
    rw [Function.comp_apply, StoredFile.listed, NamedFile.listed, hinv.kept f hf]
  rw [← hlisted]
  exact hinv.stored.sysListfiles stack

omit [HeapBacking σ] in
/-- The number is right if there is no file. -/
theorem NamedHistory.Inv.listsRight_iff (hinv : h.Inv) (stack : Mem) :
    h.ListsRight stack ↔ h.files = [] := by
  rw [NamedHistory.ListsRight, hinv.sysListfiles, Option.some_inj, Prod.mk.injEq,
    ← List.length_eq_zero_iff]
  exact ⟨fun heq => heq.2.symm, fun hzero => ⟨rfl, hzero.symm⟩⟩

/-- The dispatcher returns what `sys_listfiles` returns. -/
theorem dispatchCall_listfiles {τ : Type} [FrameSource τ] (S : Services) {frame : InterruptFrame}
    (input : UInt8) (M : Mach τ) (hrax : frame.rax = sysListfiles) :
    (dispatchCall S frame input M).1 = (S, .ret (frame.withRax 0)) := by
  have hresult : syscallResult frame input M = 0 := by
    rw [syscallResult, hrax]
    rfl
  rw [dispatchCall_result S frame input M (by rw [hrax]; decide) (by rw [hrax]; decide), hresult]

/-- In every history `SYS_LISTFILES` lists the files that were created, each once and the
newest first, and what it returns in `rax` is their number only if there are none. -/
theorem listfiles_right_iff (hr : Reachable NamedHistory.Start NamedStep h) (stack : Mem) :
    (∃ n, h.ramfs.sysListfiles stack
        = some (serialWrite (listing (h.files.map NamedFile.listed)), n) ∧
      ∀ (τ : Type) [FrameSource τ] (S : Services) (frame : InterruptFrame) (input : UInt8)
        (M : Mach τ), frame.rax = sysListfiles →
        (dispatchCall S frame input M).1 = (S, .ret (frame.withRax n))) ∧
    (h.ListsRight stack ↔ h.files = []) := by
  have hinv := NamedHistory.inv_of_reachable hr
  refine ⟨⟨0, hinv.sysListfiles stack, ?_⟩, hinv.listsRight_iff stack⟩
  intro τ _ S frame input M hrax
  exact dispatchCall_listfiles S input M hrax

end

/-- Without files the listing and the number are right. -/
theorem listfiles_right_fresh : freshNames.ListsRight fun _ => 0 :=
  (listfiles_right_iff freshNames_reachable fun _ => 0).2.mpr rfl

/-- With one file, called `a` and of three bytes, it is listed and 0 is returned. -/
theorem listfiles_one_file :
    ∃ h : NamedHistory Unit, Reachable NamedHistory.Start NamedStep h ∧ h.files.length = 1 ∧
      h.ramfs.sysListfiles (fun _ => 0) = some (serialWrite (text
        "[ramfs] listing files:\n  a  3 bytes\n[ramfs] total: 1 files\n"), 0) ∧
      ¬ h.ListsRight fun _ => 0 := by
  have hinv := NamedHistory.inv_of_reachable freshNames_reachable
  have hargs := longRamfs_args (k := 1) (n := 3) (by decide) (by decide)
  rcases Ramfs.create_spec hinv.stored.heap hinv.stored.fileList_lt hargs with
    ⟨h', hc, -⟩ | ⟨h', f, d, hc, hne, -, -, -⟩
  · exact absurd rfl (Ramfs.create_ne_zero hinv.stored.heap (longRamfs_room (by decide))
      (by decide) (by decide) hc)
  · have hstep := NamedStep.create (h := freshNames) hargs hc hne
    have hinv' := hstep.inv hinv
    refine ⟨_, .step freshNames_reachable hstep, rfl, ?_, fun hright => ?_⟩
    · have htext : listing [([0x61], 3)] = text
          "[ramfs] listing files:\n  a  3 bytes\n[ramfs] total: 1 files\n" := by decide
      rw [← htext]
      exact hinv'.sysListfiles _
    · exact absurd ((hinv'.listsRight_iff _).mp hright) (List.cons_ne_nil _ _)

end TunaOs
