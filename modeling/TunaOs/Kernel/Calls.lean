import TunaOs.Kernel.Spec

/-!
# What a system call does

`syscall_dispatch` calls `handle_exec`, `handle_exit` or a handler of the table.
`ExecRun` lists the ways through `handle_exec`, with the machine that each leaves, and
`CallRun` those through the dispatcher.  The name of a file is read from the memory of
the caller, so which file a call finds is a matter of the state before it
(`Services.target`).
-/

namespace TunaOs

open Word

/-! ## Arguments -/

/-- `sys_write` returns -1 before it reads. -/
def InterruptFrame.RejectsWrite (frame : InterruptFrame) : Prop :=
  frame.rdi = 0 ∨ wrap64 (frame.rdi + frame.rsi) < frame.rdi

/-- `handle_exec` returns -1 before it reads. -/
def InterruptFrame.RejectsName (frame : InterruptFrame) : Prop :=
  frame.rdi = 0 ∨ frame.rsi = 0 ∨ frame.rsi > 127

instance (frame : InterruptFrame) : Decidable frame.RejectsWrite :=
  inferInstanceAs (Decidable (_ ∨ _))

instance (frame : InterruptFrame) : Decidable frame.RejectsName :=
  inferInstanceAs (Decidable (_ ∨ _))

section

variable {σ : Type} {M M' : Mach σ}

/-- The bytes that are read. -/
theorem loadUserBytes_fst (a n : Nat) (M : Mach σ) :
    (loadUserBytes a n M).1 = (List.range n).map fun i => (M.userByte (wrap64 (a + i))).getD 0 := by
  induction n with
  | zero => rfl
  | succ n ih =>
      have hbyte : ∀ m b, (loadUserBytes a m M).2.userByte b = M.userByte b := by
        intro m b
        induction m with
        | zero => rfl
        | succ m ihm => exact ihm
      simp only [loadUserBytes, Act.bind_apply, Act.pure_apply, loadUser, hbyte, ih,
        List.range_succ, List.map_append, List.map_cons, List.map_nil]

/-- Reading changes nothing, except that an address that is not mapped raises an
exception. -/
theorem loadUserBytes_snd (a n : Nat) (M : Mach σ) :
    (loadUserBytes a n M).2 = { M with
      fault := M.fault || (List.range n).any fun i => (M.userByte (wrap64 (a + i))).isNone } := by
  induction n with
  | zero => simp [loadUserBytes, Act.pure_apply]
  | succ n ih =>
      simp only [loadUserBytes, Act.bind_apply, Act.pure_apply, loadUser, ih, List.range_succ,
        List.any_append, List.any_cons, List.any_nil, Bool.or_false, Bool.or_assoc]
      rfl

/-- The file that `handle_exec` finds. -/
def Services.target (S : Services) (frame : InterruptFrame) (M : Mach σ) : Option RamfsFile :=
  if frame.RejectsName then none
  else ramfsFind S.files (loadUserBytes frame.rdi frame.rsi M).1

theorem target_withBus (S : Services) (frame : InterruptFrame) (M : Mach σ) (b : Bus) :
    S.target frame (M.withBus b) = S.target frame M := by
  simp only [Services.target, loadUserBytes_fst]
  rfl

/-- The machine with another exception flag. -/
def Mach.withFault (M : Mach σ) (b : Bool) : Mach σ := { M with fault := b }

/-- The machine after `handle_exec` has read the name. -/
def Mach.readName (M : Mach σ) (frame : InterruptFrame) : Mach σ :=
  if frame.RejectsName then M else (loadUserBytes frame.rdi frame.rsi M).2

/-- At most an exception is raised. -/
theorem Mach.readName_eq (M : Mach σ) (frame : InterruptFrame) :
    ∃ b, M.readName frame = M.withFault b := by
  unfold Mach.readName
  split
  · exact ⟨M.fault, rfl⟩
  · exact ⟨_, loadUserBytes_snd ..⟩

/-- A name that is mapped raises none. -/
theorem Mach.readName_mapped {frame : InterruptFrame}
    (h : ∀ i, i < frame.rsi → (M.userByte (wrap64 (frame.rdi + i))).isNone = false) :
    M.readName frame = M := by
  unfold Mach.readName
  split
  · rfl
  · have hany : ((List.range frame.rsi).any fun i => (M.userByte (wrap64 (frame.rdi + i))).isNone)
        = false := List.any_eq_false.mpr fun i hi => by simp [h i (List.mem_range.mp hi)]
    rw [loadUserBytes_snd, hany, Bool.or_false]

/-! ## The ways through a call -/

variable [FrameSource σ]

/-- Exceptions have nothing to do with the tables. -/
theorem VmInv.withFault (h : VmInv M) (b : Bool) : VmInv (M.withFault b) :=
  ⟨h.bus, h.tables, h.fresh⟩

theorem Grows.withFault {P : Nat → Prop} (h : Grows P M M') (b c : Bool) :
    Grows P (M.withFault b) (M'.withFault c) :=
  ⟨h.pml4, h.cr3, h.avail, h.path, h.userPath, h.new, h.mem, h.leaf, h.oom, h.calm⟩

/-- The ways through `handle_exec`. -/
inductive ExecRun (S : Services) (frame : InterruptFrame) (M : Mach σ) :
    Services × Outcome → Mach σ → Prop
  /-- The arguments are rejected, or there is no file of that name. -/
  | notFound (h : S.target frame M = none) :
      ExecRun S frame M (S, .ret (frame.withRax minusOne)) (M.readName frame)
  /-- `elf_load` returns 0. -/
  | rejected {f : RamfsFile} (h : S.target frame M = some f) (hstarts : ¬ f.image.Starts) :
      ExecRun S frame M (S, .ret (frame.withRax minusOne)) (elfLoad f.image (M.readName frame)).2
  /-- There is no frame for the stack. -/
  | noStack {f : RamfsFile} (h : S.target frame M = some f) (hstarts : f.image.Starts)
      (hstack : (mapStack stackPages childStackVaddr
        (elfLoad f.image (M.readName frame)).2).1 = false) :
      ExecRun S frame M (S, .ret (frame.withRax minusOne))
        (mapStack stackPages childStackVaddr (elfLoad f.image (M.readName frame)).2).2
  /-- The child is started. -/
  | started {f : RamfsFile} (h : S.target frame M = some f) (hstarts : f.image.Starts)
      (hstack : (mapStack stackPages childStackVaddr
        (elfLoad f.image (M.readName frame)).2).1 = true) :
      ExecRun S frame M ({ S with savedFrame := frame, childRunning := true },
          .start (frame.enterChild f.image.entry) f.image)
        (mapStack stackPages childStackVaddr (elfLoad f.image (M.readName frame)).2).2

theorem handleExec_run (S : Services) (frame : InterruptFrame) (M : Mach σ) :
    ExecRun S frame M (handleExec S frame M).1 (handleExec S frame M).2 := by
  have hname : frame.rdi = 0 ∨ frame.rsi = 0 ∨ frame.rsi > 127 ↔ frame.RejectsName := Iff.rfl
  unfold handleExec
  by_cases hargs : frame.RejectsName
  · have hread : M.readName frame = M := if_pos hargs
    have hrun : ExecRun S frame M (S, .ret (frame.withRax minusOne)) (M.readName frame) :=
      .notFound (if_pos hargs)
    rw [if_pos (hname.mpr hargs)]
    rwa [hread] at hrun
  · have htarget : S.target frame M = ramfsFind S.files (loadUserBytes frame.rdi frame.rsi M).1 :=
      if_neg hargs
    have hread : (loadUserBytes frame.rdi frame.rsi M).2 = M.readName frame := (if_neg hargs).symm
    rw [if_neg fun h => hargs (hname.mp h), Act.bind_apply, hread]
    cases hfile : ramfsFind S.files (loadUserBytes frame.rdi frame.rsi M).1 with
    | none => exact .notFound (htarget.trans hfile)
    | some f =>
        have hf : S.target frame M = some f := htarget.trans hfile
        simp only [Act.bind_apply]
        by_cases hstarts : f.image.Starts
        · rw [if_neg ((elfLoad_fst_ne_zero _).mpr hstarts), Act.bind_apply, elfLoad_fst,
            if_pos hstarts.1]
          cases hstack : (mapStack stackPages childStackVaddr
              (elfLoad f.image (M.readName frame)).2).1 with
          | false => exact .noStack hf hstarts hstack
          | true => exact .started hf hstarts hstack
        · rw [if_pos (Classical.not_not.mp fun h => hstarts ((elfLoad_fst_ne_zero _).mp h))]
          exact .rejected hf hstarts

theorem reloadShell_none {S : Services} (h : S.shellElf = none) (M : Mach σ) :
    (reloadShell S M).2 = M := by
  rw [reloadShell, h]
  rfl

theorem reloadShell_some {S : Services} {img : Image} (h : S.shellElf = some img) (M : Mach σ) :
    (reloadShell S M).2 = (elfLoad img M).2 := by
  rw [reloadShell, h]
  rfl

/-- The ways through `syscall_dispatch`, up to exceptions. -/
inductive CallRun (S : Services) (frame : InterruptFrame) (M : Mach σ) :
    Services × Outcome → Mach σ → Prop
  | exec {r : Services × Outcome} {M' : Mach σ} (hrax : frame.rax = sysExec)
      (hrun : ExecRun S frame M r M') : CallRun S frame M r M'
  /-- `handle_exit` of a program that no call has started. -/
  | halt (hrax : frame.rax = sysExit) (hchild : S.childRunning = false) :
      CallRun S frame M (S, .halt) M
  /-- `handle_exit` of a child. -/
  | exit (hrax : frame.rax = sysExit) (hchild : S.childRunning = true) :
      CallRun S frame M ({ S with childRunning := false }, .ret (S.savedFrame.withRax 0))
        (reloadShell S M).2
  /-- A handler of the table, or none. -/
  | handler (b : Bool) (result : Nat) (hexec : frame.rax ≠ sysExec) (hexit : frame.rax ≠ sysExit) :
      CallRun S frame M (S, .ret (frame.withRax result)) (M.withFault b)

/-- The result of the handler, or -1 for a number without one. -/
def syscallResult (frame : InterruptFrame) (input : UInt8) (M : Mach σ) : Nat :=
  if frame.rax ≥ maxSyscalls then minusOne
  else
    match (syscallTable frame.rax frame input : Option (Act σ Nat)) with
    | none => minusOne
    | some handler => (handler M).1

/-- Handlers of the table return their result. -/
theorem dispatchCall_result (S : Services) (frame : InterruptFrame) (input : UInt8) (M : Mach σ)
    (hexec : frame.rax ≠ sysExec) (hexit : frame.rax ≠ sysExit) :
    (dispatchCall S frame input M).1 = (S, .ret (frame.withRax (syscallResult frame input M))) := by
  rw [dispatchCall, if_neg hexec, if_neg hexit, syscallResult]
  by_cases hmax : frame.rax ≥ maxSyscalls
  · rw [if_pos hmax, if_pos hmax]
    rfl
  · rw [if_neg hmax, if_neg hmax]
    cases syscallTable frame.rax frame input with
    | none => rfl
    | some handler => rfl

/-- Of them only `sys_write` reads memory. -/
theorem dispatchCall_machine (S : Services) (frame : InterruptFrame) (input : UInt8) (M : Mach σ)
    (hexec : frame.rax ≠ sysExec) (hexit : frame.rax ≠ sysExit) :
    (dispatchCall S frame input M).2 =
      if frame.rax = sysWrite ∧ ¬ frame.RejectsWrite then (loadUserBytes frame.rdi frame.rsi M).2
      else M := by
  rw [dispatchCall, if_neg hexec, if_neg hexit]
  by_cases hwrite : frame.rax = sysWrite
  · rw [if_neg (by rw [hwrite]; decide), syscallTable, if_neg (by rw [hwrite]; decide),
      if_pos hwrite]
    simp only [hwrite, true_and]
    by_cases hargs : frame.RejectsWrite
    · rw [if_neg (not_not_intro hargs)]
      simp only [Act.bind_apply, if_pos (show frame.rdi = 0 ∨ _ from hargs)]
      rfl
    · rw [if_pos hargs]
      simp only [Act.bind_apply, if_neg (show ¬ (frame.rdi = 0 ∨ _) from hargs)]
      rfl
  · have hnot : ¬ (frame.rax = sysWrite ∧ ¬ frame.RejectsWrite) := fun h => hwrite h.1
    rw [if_neg hnot]
    by_cases hmax : frame.rax ≥ maxSyscalls
    · rw [if_pos hmax]
      rfl
    rw [if_neg hmax, syscallTable]
    by_cases hread : frame.rax = sysRead
    · rw [if_pos hread]
      rfl
    rw [if_neg hread, if_neg hwrite]
    by_cases hlist : frame.rax = sysListfiles
    · rw [if_pos hlist]
      rfl
    · rw [if_neg hlist]
      rfl

theorem dispatchCall_run (S : Services) (frame : InterruptFrame) (input : UInt8) (M : Mach σ) :
    CallRun S frame M (dispatchCall S frame input M).1 (dispatchCall S frame input M).2 := by
  by_cases hexec : frame.rax = sysExec
  · rw [dispatchCall, if_pos hexec]
    exact .exec hexec (handleExec_run S frame M)
  by_cases hexit : frame.rax = sysExit
  · rw [dispatchCall, if_neg hexec, if_pos hexit, handleExit]
    by_cases hchild : S.childRunning = false
    · rw [if_pos hchild]
      exact .halt hexit hchild
    · rw [if_neg hchild]
      exact .exit hexit (Bool.eq_true_of_not_eq_false hchild)
  rw [dispatchCall_result S frame input M hexec hexit,
    dispatchCall_machine S frame input M hexec hexit]
  split
  · rw [loadUserBytes_snd]
    exact .handler _ _ hexec hexit
  · exact .handler M.fault _ hexec hexit

/-- An exception ends the call, and otherwise it ends as its handler says. -/
theorem syscallDispatch_eq (S : Services) (frame : InterruptFrame) (input : UInt8) (M : Mach σ) :
    syscallDispatch S frame input M =
      (if (dispatchCall S frame input M).2.fault
        then ((dispatchCall S frame input M).1.1, .fault) else (dispatchCall S frame input M).1,
        (dispatchCall S frame input M).2) := rfl

/-- A call that ends without an exception. -/
theorem syscallDispatch_run {S S' : Services} {frame : InterruptFrame} {input : UInt8} {o : Outcome}
    {M' : Mach σ} (h : syscallDispatch S frame input M = ((S', o), M')) (ho : o ≠ .fault) :
    CallRun S frame M (S', o) M' := by
  rw [syscallDispatch_eq] at h
  obtain ⟨hr, rfl⟩ := Prod.mk.inj h
  split at hr
  · exact absurd (congrArg Prod.snd hr).symm ho
  · rw [← hr]
    exact dispatchCall_run S frame input M

/-! ## The pages a call maps -/

/-- The image that a system call loads. -/
def Services.Loads (S : Services) (frame : InterruptFrame) (M : Mach σ) (img : Image) : Prop :=
  (frame.rax = sysExec ∧ ∃ f, S.target frame M = some f ∧ f.image = img) ∨
    (frame.rax = sysExit ∧ S.childRunning = true ∧ S.shellElf = some img)

/-- The pages that it maps. -/
def Services.CallPage (S : Services) (frame : InterruptFrame) (M : Mach σ) (n : Nat) : Prop :=
  (∃ img, S.Loads frame M img ∧ img.Covers n) ∨ (frame.rax = sysExec ∧ StackPage childStackVaddr n)

omit [FrameSource σ] in
theorem loads_withBus (S : Services) (frame : InterruptFrame) (M : Mach σ) (b : Bus) (img : Image) :
    S.Loads frame (M.withBus b) img ↔ S.Loads frame M img := by
  rw [Services.Loads, target_withBus, Services.Loads]

omit [FrameSource σ] in
theorem callPage_withBus (S : Services) (frame : InterruptFrame) (M : Mach σ) (b : Bus) (n : Nat) :
    S.CallPage frame (M.withBus b) n ↔ S.CallPage frame M n := by
  simp only [Services.CallPage, loads_withBus]

/-- Reading the name maps nothing. -/
theorem readName_maps {P : Nat → Prop} (hinv : VmInv M) (frame : InterruptFrame) :
    MapsTo P M (M.readName frame) := by
  unfold Mach.readName
  split
  · exact .refl hinv
  · exact (closed_maps P).loadUserBytes Maps.loadUser _ _ M hinv

/-- `handle_exec` maps the pages of the file and of its stack. -/
theorem ExecRun.maps {S : Services} {frame : InterruptFrame} {r : Services × Outcome}
    (hrun : ExecRun S frame M r M') (hinv : VmInv M) (hrax : frame.rax = sysExec) :
    MapsTo (S.CallPage frame M) M M' := by
  have hread : MapsTo (S.CallPage frame M) M (M.readName frame) := readName_maps hinv frame
  have hload : ∀ {f : RamfsFile}, S.target frame M = some f →
      Maps (S.CallPage frame M) (elfLoad f.image : Act σ Nat) := fun hf =>
    (Maps.elfLoad _).mono fun _ h => Or.inl ⟨_, Or.inl ⟨hrax, _, hf, rfl⟩, h⟩
  have hstack : Maps (S.CallPage frame M) (mapStack stackPages childStackVaddr : Act σ Bool) :=
    (Maps.mapStack _).mono fun _ h => Or.inr ⟨hrax, h⟩
  cases hrun with
  | notFound => exact hread
  | rejected hf => exact hread.next (hload hf)
  | noStack hf => exact (hread.next (hload hf)).next hstack
  | started hf => exact (hread.next (hload hf)).next hstack

/-- A system call maps the pages of the image that it loads, and the stack of a child. -/
theorem syscallDispatch_maps (S : Services) (frame : InterruptFrame) (input : UInt8)
    (hinv : VmInv M) : MapsTo (S.CallPage frame M) M (syscallDispatch S frame input M).2 := by
  rw [syscallDispatch_eq]
  generalize hr : dispatchCall S frame input M = r
  have hrun := dispatchCall_run S frame input M
  rw [hr] at hrun
  obtain ⟨r, M'⟩ := r
  have hsame : MapsTo (S.CallPage frame M) M M := .refl hinv
  cases hrun with
  | exec hrax hrun => exact hrun.maps hinv hrax
  | halt => exact hsame
  | exit hrax hchild =>
      cases himg : S.shellElf with
      | none => exact (reloadShell_none himg M).symm ▸ hsame
      | some img =>
          rw [reloadShell_some himg]
          exact hsame.next ((Maps.elfLoad img).mono fun _ h =>
            Or.inl ⟨img, Or.inr ⟨hrax, hchild, himg⟩, h⟩)
  | handler b => exact ⟨hinv.withFault b, (Grows.refl M).withFault M.fault b, rfl⟩

/-- The pages a step may map. -/
def KernelOp.Pages (op : KernelOp) (k k' : Kernel σ) (n : Nat) : Prop :=
  match op with
  | .kmalloc _ => ∃ a, k.heap.heapEnd ≤ a ∧ a < k'.heap.heapEnd ∧ n = pageOf a
  | .usermode img => ProgramPage img n
  | .syscall frame _ => k.services.CallPage frame k.mach n
  | _ => False

/-! ## Single calls -/

theorem handleExec_started {S : Services} {frame : InterruptFrame} {f : RamfsFile}
    (hf : S.target frame M = some f) (hstarts : f.image.Starts)
    (hstack : (mapStack stackPages childStackVaddr
      (elfLoad f.image (M.readName frame)).2).1 = true) :
    handleExec S frame M = (({ S with savedFrame := frame, childRunning := true },
      .start (frame.enterChild f.image.entry) f.image),
      (mapStack stackPages childStackVaddr (elfLoad f.image (M.readName frame)).2).2) := by
  have hrun := handleExec_run S frame M
  generalize handleExec S frame M = r at hrun ⊢
  obtain ⟨r, M'⟩ := r
  cases hrun with
  | notFound h => exact absurd (hf.symm.trans h) (Option.some_ne_none f)
  | rejected h hno =>
      obtain rfl := Option.some.inj (hf.symm.trans h)
      exact absurd hstarts hno
  | noStack h _ hno =>
      obtain rfl := Option.some.inj (hf.symm.trans h)
      exact absurd (hno.symm.trans hstack) Bool.false_ne_true
  | started h =>
      obtain rfl := Option.some.inj (hf.symm.trans h)
      rfl

theorem handleExec_notFound {S : Services} {frame : InterruptFrame} (hf : S.target frame M = none) :
    handleExec S frame M = ((S, .ret (frame.withRax minusOne)), M.readName frame) := by
  have hrun := handleExec_run S frame M
  generalize handleExec S frame M = r at hrun ⊢
  obtain ⟨r, M'⟩ := r
  cases hrun with
  | notFound => rfl
  | rejected h => exact absurd (hf.symm.trans h) (Option.some_ne_none _).symm
  | noStack h => exact absurd (hf.symm.trans h) (Option.some_ne_none _).symm
  | started h => exact absurd (hf.symm.trans h) (Option.some_ne_none _).symm

theorem handleExec_rejected {S : Services} {frame : InterruptFrame} {f : RamfsFile}
    (hf : S.target frame M = some f) (hno : ¬ f.image.Starts) :
    handleExec S frame M
      = ((S, .ret (frame.withRax minusOne)), (elfLoad f.image (M.readName frame)).2) := by
  have hrun := handleExec_run S frame M
  generalize handleExec S frame M = r at hrun ⊢
  obtain ⟨r, M'⟩ := r
  cases hrun with
  | notFound h => exact absurd (hf.symm.trans h) (Option.some_ne_none f)
  | rejected h =>
      obtain rfl := Option.some.inj (hf.symm.trans h)
      rfl
  | noStack h hstarts =>
      obtain rfl := Option.some.inj (hf.symm.trans h)
      exact absurd hstarts hno
  | started h hstarts =>
      obtain rfl := Option.some.inj (hf.symm.trans h)
      exact absurd hstarts hno

theorem syscallDispatch_exec {S : Services} {frame : InterruptFrame} {r : Services × Outcome}
    (hrax : frame.rax = sysExec) (h : handleExec S frame M = (r, M')) (hfault : M'.fault = false)
    (input : UInt8) : syscallDispatch S frame input M = (r, M') := by
  have hcall : dispatchCall S frame input M = (r, M') := by
    rw [dispatchCall, if_pos hrax, h]
  rw [syscallDispatch_eq, hcall]
  simp only [hfault, Bool.false_eq_true, if_false]

theorem sysExit_ne_sysExec {frame : InterruptFrame} (hrax : frame.rax = sysExit) :
    frame.rax ≠ sysExec := by
  rw [hrax]
  decide

theorem syscallDispatch_exit {S : Services} {frame : InterruptFrame} (hrax : frame.rax = sysExit)
    (hchild : S.childRunning = true) (input : UInt8) (M : Mach σ) :
    syscallDispatch S frame input M = (({ S with childRunning := false },
      if (reloadShell S M).2.fault then .fault else .ret (S.savedFrame.withRax 0)),
      (reloadShell S M).2) := by
  have hcall : dispatchCall S frame input M
      = (({ S with childRunning := false }, .ret (S.savedFrame.withRax 0)),
        (reloadShell S M).2) := by
    have hnot : ¬ S.childRunning = false := by simp [hchild]
    rw [dispatchCall, if_neg (sysExit_ne_sysExec hrax), if_pos hrax, handleExit, if_neg hnot,
      Act.bind_apply]
    rfl
  rw [syscallDispatch_eq, hcall]
  simp only
  split <;> rfl

theorem syscallDispatch_halt {S : Services} {frame : InterruptFrame} (hrax : frame.rax = sysExit)
    (hchild : S.childRunning = false) (hfault : M.fault = false) (input : UInt8) :
    syscallDispatch S frame input M = ((S, .halt), M) := by
  have hcall : dispatchCall S frame input M = ((S, .halt), M) := by
    rw [dispatchCall, if_neg (sysExit_ne_sysExec hrax), if_pos hrax, handleExit, if_pos hchild]
    rfl
  rw [syscallDispatch_eq, hcall]
  simp only [hfault, Bool.false_eq_true, if_false]

/-- `SYS_EXEC` without an exception. -/
theorem Kernel.syscall_exec {k : Kernel σ} {frame : InterruptFrame} {r : Services × Outcome}
    (hrax : frame.rax = sysExec) (h : handleExec k.services frame k.mach = (r, M'))
    (hfault : M'.fault = false) (input : UInt8) :
    k.syscall frame input = ((k.withMach M').withServices r.1, r.2) := by
  rw [Kernel.syscall, syscallDispatch_exec hrax h hfault]

/-- `SYS_EXIT` of a child. -/
theorem Kernel.syscall_exit {k : Kernel σ} {frame : InterruptFrame} (hrax : frame.rax = sysExit)
    (hchild : k.services.childRunning = true) (input : UInt8) :
    k.syscall frame input = ((k.withMach (reloadShell k.services k.mach).2).withServices
        { k.services with childRunning := false },
      if (reloadShell k.services k.mach).2.fault then .fault
        else .ret (k.services.savedFrame.withRax 0)) := by
  rw [Kernel.syscall, syscallDispatch_exit hrax hchild]

/-- `SYS_EXIT` when no child runs. -/
theorem Kernel.syscall_halt {k : Kernel σ} {frame : InterruptFrame} (hrax : frame.rax = sysExit)
    (hchild : k.services.childRunning = false) (hfault : k.mach.fault = false) (input : UInt8) :
    k.syscall frame input = (k, .halt) := by
  rw [Kernel.syscall, syscallDispatch_halt hrax hchild hfault]
  rfl

end

end TunaOs
