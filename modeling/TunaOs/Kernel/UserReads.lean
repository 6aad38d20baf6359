import TunaOs.Kernel.Programs

/-!
# What system calls read for the user

Two calls read memory through a pointer from user mode: `sys_write` reads the
buffer that it sends to the serial line, and `handle_exec` reads the name of the
file.  `sys_write` checks for null and for a sum that wraps, `handle_exec` for null
and for the length.  Neither looks at the tables, and the kernel reads with its own
rights.

`syscallDispatchLogged` is `syscall_dispatch` with a record of each address that it
dereferences for the user and of the byte that it sends for it.  Without the record it is
`syscall_dispatch` (`syscallDispatchLogged_erases`).

So a call reads user memory only if the pages of its buffer are pages of user mode,
and it is the caller who decides that.  Then the bytes sent to the serial line
depend on user memory only.  Otherwise user mode can have the kernel print any byte
that is mapped, and halt it with one that is not (`syscallDispatch_fault`).
-/

namespace TunaOs

open Word

open FrameSource (avail)

/-! ## The calls with their accesses -/

/-- An access through a pointer from user mode. -/
structure UserAccess where
  /-- The address that is dereferenced. -/
  addr : Nat
  /-- The byte that goes to the serial line for it. -/
  sent : Option UInt8
deriving DecidableEq, Repr

section

variable {σ : Type}

/-- A byte read through a user pointer, with the access.  After an exception there is none. -/
def loadUserLogged (send : Bool) (a : Nat) : Act σ (UInt8 × List UserAccess) := fun M =>
  (((loadUser a M).1, if M.fault then [] else [⟨a, if send then M.userByte a else none⟩]),
    (loadUser a M).2)

/-- `len` bytes read through a user pointer, with the accesses. -/
def loadUserBytesLogged (send : Bool) (a : Nat) : Nat → Act σ (List UInt8 × List UserAccess)
  | 0 => return ([], [])
  | n + 1 => do
    let bytes ← loadUserBytesLogged send a n
    let b ← loadUserLogged send (wrap64 (a + n))
    return (bytes.1 ++ [b.1], bytes.2 ++ b.2)

variable [FrameSource σ]

/-- `handle_exec` with its accesses. -/
def handleExecLogged (S : Services) (frame : InterruptFrame) :
    Act σ ((Services × Outcome) × List UserAccess) := do
  if frame.rdi = 0 ∨ frame.rsi = 0 ∨ frame.rsi > 127 then
    return ((S, .ret (frame.withRax minusOne)), [])
  else
    let name ← loadUserBytesLogged false frame.rdi frame.rsi
    match ramfsFind S.files name.1 with
    | none => return ((S, .ret (frame.withRax minusOne)), name.2)
    | some f =>
      let entry ← elfLoad f.image
      if entry = 0 then return ((S, .ret (frame.withRax minusOne)), name.2)
      else
        let ok ← mapStack stackPages childStackVaddr
        if ok then
          return (({ S with savedFrame := frame, childRunning := true },
            .start (frame.enterChild entry) f.image), name.2)
        else return ((S, .ret (frame.withRax minusOne)), name.2)

/-- `handle_exit` makes no access. -/
def handleExitLogged (S : Services) : Act σ ((Services × Outcome) × List UserAccess) := do
  let r ← handleExit S
  return (r, [])

/-- The handlers in `syscall_table` with their accesses. -/
def syscallTableLogged (number : Nat) (frame : InterruptFrame) (input : UInt8) :
    Option (Act σ (Nat × List UserAccess)) :=
  if number = sysRead then some (return (input.toNat, []))
  else if number = sysWrite then
    some do
      if frame.rdi = 0 ∨ wrap64 (frame.rdi + frame.rsi) < frame.rdi then return (minusOne, [])
      else
        let bytes ← loadUserBytesLogged true frame.rdi frame.rsi
        return (frame.rsi, bytes.2)
  else if number = sysListfiles then some (return (0, []))
  else none

/-- `syscall_dispatch` up to exceptions, with its accesses. -/
def dispatchCallLogged (S : Services) (frame : InterruptFrame) (input : UInt8) :
    Act σ ((Services × Outcome) × List UserAccess) :=
  if frame.rax = sysExec then handleExecLogged S frame
  else if frame.rax = sysExit then handleExitLogged S
  else if frame.rax ≥ maxSyscalls then return ((S, .ret (frame.withRax minusOne)), [])
  else
    match syscallTableLogged frame.rax frame input with
    | none => return ((S, .ret (frame.withRax minusOne)), [])
    | some handler => do
      let result ← handler
      return ((S, .ret (frame.withRax result.1)), result.2)

/-- `syscall_dispatch` with its accesses. -/
def syscallDispatchLogged (S : Services) (frame : InterruptFrame) (input : UInt8) :
    Act σ ((Services × Outcome) × List UserAccess) := do
  let r ← dispatchCallLogged S frame input
  let out ← orFault r.1
  return (out, r.2)

/-! ## They are the calls -/

/-- Without its accesses `x` is `y`. -/
def Erases {β : Type} (x : Act σ (β × List UserAccess)) (y : Act σ β) : Prop :=
  ∀ M, y M = ((x M).1.1, (x M).2)

section

variable {β γ : Type}

omit [FrameSource σ] in
theorem Erases.pure (b : β) (log : List UserAccess) :
    Erases (σ := σ) (pure (b, log)) (pure b) := fun _ => rfl

omit [FrameSource σ] in
theorem Erases.bind {x : Act σ (β × List UserAccess)} {y : Act σ β}
    {f : β × List UserAccess → Act σ (γ × List UserAccess)} {g : β → Act σ γ} (hx : Erases x y)
    (hf : ∀ r, Erases (f r) (g r.1)) : Erases (x >>= f) (y >>= g) := by
  intro M
  rw [Act.bind_apply, Act.bind_apply, hx M]
  exact hf _ _

omit [FrameSource σ] in
/-- A step without accesses. -/
theorem Erases.step {x : Act σ β} {f : β → Act σ (γ × List UserAccess)} {g : β → Act σ γ}
    (hf : ∀ b, Erases (f b) (g b)) : Erases (x >>= f) (x >>= g) :=
  fun M => hf (x M).1 (x M).2

omit [FrameSource σ] in
theorem Erases.ite {c : Prop} [Decidable c] {x x' : Act σ (β × List UserAccess)} {y y' : Act σ β}
    (h : Erases x y) (h' : Erases x' y') : Erases (if c then x else x') (if c then y else y') := by
  split
  · exact h
  · exact h'

end

omit [FrameSource σ] in
theorem loadUserBytesLogged_erases (send : Bool) (a : Nat) : ∀ n,
    Erases (σ := σ) (loadUserBytesLogged send a n) (loadUserBytes a n)
  | 0 => .pure _ _
  | n + 1 => .bind (loadUserBytesLogged_erases send a n) fun _ =>
      .bind (fun _ => rfl) fun _ => .pure _ _

theorem handleExecLogged_erases (S : Services) (frame : InterruptFrame) :
    Erases (σ := σ) (handleExecLogged S frame) (handleExec S frame) := by
  refine .ite (.pure _ _) (.bind (loadUserBytesLogged_erases _ _ _) fun name => ?_)
  cases ramfsFind S.files name.1 with
  | none => exact .pure _ _
  | some f =>
      refine .step fun entry => .ite (.pure _ _) (.step fun ok => ?_)
      cases ok <;> exact .pure _ _

theorem dispatchCallLogged_erases (S : Services) (frame : InterruptFrame) (input : UInt8) :
    Erases (σ := σ) (dispatchCallLogged S frame input) (dispatchCall S frame input) := by
  refine .ite (handleExecLogged_erases S frame) (.ite (fun _ => rfl) (.ite (.pure _ _) ?_))
  unfold syscallTableLogged syscallTable
  by_cases hread : frame.rax = sysRead
  · simp only [if_pos hread]
    exact .bind (.pure _ _) fun _ => .pure _ _
  by_cases hwrite : frame.rax = sysWrite
  · simp only [if_neg hread, if_pos hwrite]
    refine .bind (.ite (.pure _ _) ?_) fun _ => .pure _ _
    exact .bind (loadUserBytesLogged_erases _ _ _) fun _ => .pure _ _
  by_cases hlist : frame.rax = sysListfiles
  · simp only [if_neg hread, if_neg hwrite, if_pos hlist]
    exact .bind (.pure _ _) fun _ => .pure _ _
  · simp only [if_neg hread, if_neg hwrite, if_neg hlist]
    exact .pure _ _

theorem syscallDispatchLogged_erases (S : Services) (frame : InterruptFrame) (input : UInt8) :
    Erases (σ := σ) (syscallDispatchLogged S frame input) (syscallDispatch S frame input) :=
  .bind (dispatchCallLogged_erases S frame input) fun _ => .step fun _ => .pure _ _

end

/-! ## Addresses read for the user -/

/-- The call reads the `rsi` bytes at `rdi`. -/
def InterruptFrame.ReadsBuffer (frame : InterruptFrame) : Prop :=
  (frame.rax = sysWrite ∧ ¬ frame.RejectsWrite) ∨ (frame.rax = sysExec ∧ ¬ frame.RejectsName)

instance (frame : InterruptFrame) : Decidable frame.ReadsBuffer :=
  inferInstanceAs (Decidable (_ ∨ _))

/-- The addresses that a call dereferences for the user. -/
def InterruptFrame.Dereferences (frame : InterruptFrame) (a : Nat) : Prop :=
  frame.ReadsBuffer ∧ ∃ i, i < frame.rsi ∧ a = wrap64 (frame.rdi + i)

instance (frame : InterruptFrame) (a : Nat) : Decidable (frame.Dereferences a) :=
  inferInstanceAs (Decidable (_ ∧ ∃ i, i < frame.rsi ∧ a = wrap64 (frame.rdi + i)))

section

variable {σ : Type} {M M' : Mach σ}

/-! ## The calls -/

section

variable [FrameSource σ]

/-- `syscall_dispatch` for `sys_write`. -/
theorem syscallDispatch_write (S : Services) {frame : InterruptFrame} (h : frame.rax = sysWrite)
    (input : UInt8) (M : Mach σ) :
    syscallDispatch S frame input M =
      if frame.RejectsWrite then orFault (S, .ret (frame.withRax minusOne)) M
      else orFault (S, .ret (frame.withRax frame.rsi)) (loadUserBytes frame.rdi frame.rsi M).2 := by
  have hexec : sysWrite ≠ sysExec := by decide
  have hexit : sysWrite ≠ sysExit := by decide
  have hmax : ¬ sysWrite ≥ maxSyscalls := by decide
  have hread : sysWrite ≠ sysRead := by decide
  simp only [syscallDispatch, Act.bind_apply, dispatchCall, h, if_neg hexec, if_neg hexit,
    if_neg hmax, syscallTable, if_neg hread, if_true]
  by_cases hr : frame.RejectsWrite
  · rw [if_pos hr]
    unfold InterruptFrame.RejectsWrite at hr
    simp only [if_pos hr]
    rfl
  · rw [if_neg hr]
    unfold InterruptFrame.RejectsWrite at hr
    simp only [if_neg hr]
    rfl

/-- The addresses are read indeed: one that is not mapped halts the kernel. -/
theorem syscallDispatch_fault (S : Services) {frame : InterruptFrame} (input : UInt8) {a : Nat}
    (ha : frame.Dereferences a) (hM : M.userByte a = none) :
    (syscallDispatch S frame input M).1.2 = .fault := by
  obtain ⟨hreads, i, hi, rfl⟩ := ha
  have hfault : (loadUserBytes frame.rdi frame.rsi M).2.fault = true := by
    rw [loadUserBytes_snd]
    simp only [Bool.or_eq_true, List.any_eq_true, List.mem_range]
    exact Or.inr ⟨i, hi, by rw [hM]; rfl⟩
  rcases hreads with ⟨hwrite, hok⟩ | ⟨hexec, hok⟩
  · rw [syscallDispatch_write S hwrite, if_neg hok]
    simp only [orFault, hfault, if_true]
  · have hkeep : (dispatchCall S frame input M).2.fault = true := by
      unfold InterruptFrame.RejectsName at hok
      simp only [dispatchCall, hexec, if_true]
      rw [handleExec, if_neg hok, Act.bind_apply]
      generalize (loadUserBytes frame.rdi frame.rsi M).2 = N at hfault ⊢
      generalize (loadUserBytes frame.rdi frame.rsi M).1 = name
      have hC : Closed (σ := σ) (Keeps fun M => M.fault = true) := access_fault.toClosed
      cases ramfsFind S.files name with
      | none => exact hfault
      | some f =>
          refine hC.bind (access_fault.elfLoad f.image) (fun entry => ?_) N hfault
          by_cases h0 : entry = 0
          · rw [if_pos h0]
            exact hC.pure _
          · rw [if_neg h0]
            refine hC.bind (access_fault.mapStack _ _) fun ok => ?_
            cases ok <;> exact hC.pure _
    simp only [syscallDispatch, Act.bind_apply, orFault, hkeep, if_true]

end

/-! ## Pages of user mode -/

/-- The address is on a page of user mode. -/
def Mach.OnUserPage (M : Mach σ) (a : Nat) : Prop := canonical a ∧ M.UserPage a

/-- The pages of the buffer are pages of user mode. -/
def UserBuffer (M : Mach σ) (frame : InterruptFrame) : Prop :=
  0 < frame.rsi → ∀ n, frame.rdi / 4096 ≤ n → n ≤ (frame.rdi + frame.rsi - 1) / 4096 →
    M.OnUserPage (wrap64 (n * 4096))

/-- The tables are the same. -/
def SameTables (M M' : Mach σ) : Prop := ∀ a, M'.translate a = M.translate a

/-- The memory of user mode is the same. -/
def AgreeOnUser (M M' : Mach σ) : Prop :=
  ∀ a t, M.translate a = some t → t.user = true →
    M'.mem (t.frame + a % 4096) = M.mem (t.frame + a % 4096)

/-- A translation is that of the page. -/
theorem Mach.translate_frameOf (M : Mach σ) (a : Nat) :
    M.translate (frameOf a) = M.translate a := by
  obtain ⟨hpath, hidx⟩ := pageOf_eq_iff.mp (pageOf_frameOf a)
  simp only [pathOf, List.cons.injEq, and_true] at hpath
  obtain ⟨h39, h30, h21⟩ := hpath
  unfold Mach.translate
  cases M.cr3 with
  | some root => simp only [walk, walkFrom, h39, h30, h21, hidx]
  | none =>
      have hlt : frameOf a < 2 ^ 30 ↔ a < 2 ^ 30 := by
        simp only [frameOf]
        omega
      by_cases ha : a < 2 ^ 30
      · have hmask : frameOf a &&& pageMask = a &&& pageMask := by
          rw [pageMask_eq (by omega), pageMask_eq (by omega)]
          simp only [frameOf]
          omega
        simp only [if_pos ha, if_pos (hlt.mpr ha), hmask]
      · simp only [if_neg ha, if_neg (fun h => ha (hlt.mp h))]

theorem onUserPage_frameOf (M : Mach σ) (a : Nat) : M.OnUserPage (frameOf a) ↔ M.OnUserPage a := by
  have hcanon : canonical (frameOf a) ↔ canonical a := by
    simp only [canonical, frameOf]
    omega
  rw [Mach.OnUserPage, Mach.OnUserPage, Mach.UserPage, Mach.UserPage, hcanon, M.translate_frameOf]

/-- All addresses of a buffer are on pages of user mode if all its pages are. -/
theorem userBuffer_iff (M : Mach σ) (frame : InterruptFrame) :
    UserBuffer M frame ↔ ∀ i, i < frame.rsi → M.OnUserPage (wrap64 (frame.rdi + i)) := by
  have hframe : ∀ x, frameOf (wrap64 x) = wrap64 (x / 4096 * 4096) := by
    intro x
    simp only [frameOf, wrap64]
    omega
  constructor
  · intro h i hi
    rw [← onUserPage_frameOf, hframe]
    exact h (by omega) _ (by omega) (by omega)
  · intro h hpos n h1 h2
    -- the first address of the buffer that is on the page
    obtain ⟨i, hi, hn⟩ : ∃ i, i < frame.rsi ∧ (frame.rdi + i) / 4096 = n :=
      ⟨n * 4096 - frame.rdi, by omega, by omega⟩
    have hon := (onUserPage_frameOf M _).mpr (h i hi)
    rwa [hframe, hn] at hon

/-- Bytes of user memory are the same in states that agree on it. -/
theorem userByte_eq (htab : SameTables M M') (hagree : AgreeOnUser M M') {a : Nat}
    (ha : M.OnUserPage a) : M'.userByte a = M.userByte a := by
  obtain ⟨hcanon, t, ht, hu⟩ := ha
  simp only [Mach.userByte, if_pos hcanon, htab a, ht, Option.map_some, hagree a t ht hu]

/-- They can be read. -/
theorem Mach.OnUserPage.isSome {a : Nat} (ha : M.OnUserPage a) : (M.userByte a).isSome = true := by
  obtain ⟨hcanon, t, ht, -⟩ := ha
  simp only [Mach.userByte, if_pos hcanon, ht, Option.map_some, Option.isSome_some]

/-! ## The accesses -/

/-- The accesses of a loop over a buffer.  It comes to a byte if those before could be read. -/
def Mach.accesses (M : Mach σ) (send : Bool) (a n : Nat) : List UserAccess :=
  ((List.range n).filter fun i =>
      (List.range i).all fun j => (M.userByte (wrap64 (a + j))).isSome).map fun i =>
    ⟨wrap64 (a + i), if send then M.userByte (wrap64 (a + i)) else none⟩

theorem Mach.mem_accesses {send : Bool} {a n : Nat} {x : UserAccess} :
    x ∈ M.accesses send a n ↔ ∃ i, i < n
      ∧ (∀ j, j < i → (M.userByte (wrap64 (a + j))).isSome = true)
      ∧ x = ⟨wrap64 (a + i), if send then M.userByte (wrap64 (a + i)) else none⟩ := by
  simp only [Mach.accesses, List.mem_map, List.mem_filter, List.mem_range, List.all_eq_true]
  constructor
  · rintro ⟨i, ⟨hi, hall⟩, rfl⟩
    exact ⟨i, hi, hall, rfl⟩
  · rintro ⟨i, hi, hall, rfl⟩
    exact ⟨i, ⟨hi, hall⟩, rfl⟩

theorem loadUserBytesLogged_log (send : Bool) (a n : Nat) (hfault : M.fault = false) :
    (loadUserBytesLogged send a n M).1.2 = M.accesses send a n := by
  induction n with
  | zero => rfl
  | succ n ih =>
      -- the machine that the loop has come to
      have hstate : (loadUserBytesLogged send a n M).2 = (loadUserBytes a n M).2 :=
        (congrArg Prod.snd (loadUserBytesLogged_erases send a n M)).symm
      rw [loadUserBytes_snd, hfault, Bool.false_or] at hstate
      have hbyte : (loadUserBytesLogged send a n M).2.userByte = M.userByte := by
        rw [hstate]
        rfl
      have hany : (loadUserBytesLogged send a n M).2.fault
          = !(List.range n).all fun j => (M.userByte (wrap64 (a + j))).isSome := by
        rw [hstate]
        simp only [List.all_eq_not_any_not, Bool.not_not, Option.not_isSome]
      simp only [loadUserBytesLogged, Act.bind_apply, Act.pure_apply, loadUserLogged, ih, hbyte,
        hany, Mach.accesses, List.range_succ, List.filter_append, List.map_append, List.filter_cons,
        List.filter_nil]
      cases (List.range n).all fun j => (M.userByte (wrap64 (a + j))).isSome <;> rfl

/-- If all accesses are to pages of user mode, so are all bytes of the buffer. -/
theorem Mach.accesses_user {send : Bool} {a n : Nat}
    (h : ∀ x ∈ M.accesses send a n, M.OnUserPage x.addr) {i : Nat} (hi : i < n) :
    M.OnUserPage (wrap64 (a + i)) := by
  induction i using Nat.strongRecOn with
  | ind i ih =>
      exact h _ (Mach.mem_accesses.mpr ⟨i, hi, fun j hj => (ih j hj (by omega)).isSome, rfl⟩)

/-- In states that agree on the bytes the accesses are the same. -/
theorem Mach.accesses_congr {send : Bool} {a n : Nat}
    (h : ∀ i, i < n → M'.userByte (wrap64 (a + i)) = M.userByte (wrap64 (a + i))) :
    M'.accesses send a n = M.accesses send a n := by
  have hall : ∀ i, i < n → ((List.range i).all fun j => (M'.userByte (wrap64 (a + j))).isSome)
      = (List.range i).all fun j => (M.userByte (wrap64 (a + j))).isSome := by
    intro i hi
    rw [Bool.eq_iff_iff, List.all_eq_true, List.all_eq_true]
    refine forall₂_congr fun j hj => ?_
    rw [h j (by have := List.mem_range.mp hj; omega)]
  unfold Mach.accesses
  rw [List.filter_congr fun i hi => hall i (List.mem_range.mp hi)]
  refine List.map_congr_left fun i hi => ?_
  rw [h i (List.mem_range.mp (List.mem_filter.mp hi).1)]

section

variable [FrameSource σ]

/-- The accesses of a call. -/
def Services.accesses (S : Services) (frame : InterruptFrame) (input : UInt8) (M : Mach σ) :
    List UserAccess := (syscallDispatchLogged S frame input M).1.2

/-- The bytes that it sends to the serial line for them. -/
def Services.sent (S : Services) (frame : InterruptFrame) (input : UInt8) (M : Mach σ) :
    List UInt8 := (S.accesses frame input M).filterMap UserAccess.sent

theorem handleExecLogged_log (S : Services) {frame : InterruptFrame} (hok : ¬ frame.RejectsName)
    (M : Mach σ) : (handleExecLogged S frame M).1.2
      = (loadUserBytesLogged false frame.rdi frame.rsi M).1.2 := by
  unfold InterruptFrame.RejectsName at hok
  rw [handleExecLogged, if_neg hok, Act.bind_apply]
  generalize loadUserBytesLogged false frame.rdi frame.rsi M = r
  cases ramfsFind S.files r.1.1 with
  | none => rfl
  | some f =>
      simp only [Act.bind_apply]
      split
      · rfl
      · rw [Act.bind_apply]
        split <;> rfl

theorem dispatchCallLogged_write (S : Services) {frame : InterruptFrame}
    (hwrite : frame.rax = sysWrite) (input : UInt8) (M : Mach σ) :
    (dispatchCallLogged S frame input M).1.2 = if frame.RejectsWrite then []
      else (loadUserBytesLogged true frame.rdi frame.rsi M).1.2 := by
  have hexec : sysWrite ≠ sysExec := by decide
  have hexit : sysWrite ≠ sysExit := by decide
  have hmax : ¬ sysWrite ≥ maxSyscalls := by decide
  have hread : sysWrite ≠ sysRead := by decide
  simp only [dispatchCallLogged, hwrite, if_neg hexec, if_neg hexit, if_neg hmax,
    syscallTableLogged, if_neg hread, if_true]
  by_cases hr : frame.RejectsWrite
  · rw [if_pos hr]
    unfold InterruptFrame.RejectsWrite at hr
    simp only [if_pos hr]
    rfl
  · rw [if_neg hr]
    unfold InterruptFrame.RejectsWrite at hr
    simp only [if_neg hr]
    rfl

/-- The other calls make no access. -/
theorem dispatchCallLogged_other (S : Services) {frame : InterruptFrame}
    (hexec : frame.rax ≠ sysExec) (hwrite : frame.rax ≠ sysWrite) (input : UInt8) (M : Mach σ) :
    (dispatchCallLogged S frame input M).1.2 = [] := by
  rw [dispatchCallLogged, if_neg hexec]
  split
  · rfl
  · split
    · rfl
    · unfold syscallTableLogged
      by_cases hread : frame.rax = sysRead
      · simp only [if_pos hread]
        rfl
      by_cases hlist : frame.rax = sysListfiles
      · simp only [if_neg hread, if_neg hwrite, if_pos hlist]
        rfl
      · simp only [if_neg hread, if_neg hwrite, if_neg hlist]
        rfl

/-- A call reads its buffer. -/
theorem InterruptFrame.ReadsBuffer.accesses {frame : InterruptFrame} (h : frame.ReadsBuffer) :
    ∃ send, ∀ (S : Services) (input : UInt8) (M : Mach σ), M.fault = false →
      S.accesses frame input M = M.accesses send frame.rdi frame.rsi := by
  rcases h with ⟨hwrite, hok⟩ | ⟨hexec, hok⟩
  · refine ⟨true, fun S input M hfault => ?_⟩
    refine (dispatchCallLogged_write S hwrite input M).trans ?_
    rw [if_neg hok, loadUserBytesLogged_log _ _ _ hfault]
  · refine ⟨false, fun S input M hfault => ?_⟩
    have hcall : S.accesses frame input M = (handleExecLogged S frame M).1.2 := by
      change (dispatchCallLogged S frame input M).1.2 = _
      rw [dispatchCallLogged, if_pos hexec]
    rw [hcall, handleExecLogged_log S hok, loadUserBytesLogged_log _ _ _ hfault]

/-- Or it makes no access. -/
theorem Services.accesses_none (S : Services) {frame : InterruptFrame} (input : UInt8)
    (M : Mach σ) (hreads : ¬ frame.ReadsBuffer) : S.accesses frame input M = [] := by
  change (dispatchCallLogged S frame input M).1.2 = []
  by_cases hexec : frame.rax = sysExec
  · have hok : frame.RejectsName := by
      by_contra hok
      exact hreads (.inr ⟨hexec, hok⟩)
    unfold InterruptFrame.RejectsName at hok
    rw [dispatchCallLogged, if_pos hexec, handleExecLogged, if_pos hok]
    rfl
  by_cases hwrite : frame.rax = sysWrite
  · have hok : frame.RejectsWrite := by
      by_contra hok
      exact hreads (.inl ⟨hwrite, hok⟩)
    rw [dispatchCallLogged_write S hwrite, if_pos hok]
  · exact dispatchCallLogged_other S hexec hwrite input M

/-- The addresses of the accesses are those that the call dereferences, up to the first one that
raises an exception. -/
theorem Services.accesses_dereferences (S : Services) {frame : InterruptFrame} {input : UInt8}
    (hfault : M.fault = false) {x : UserAccess} (hx : x ∈ S.accesses frame input M) :
    frame.Dereferences x.addr := by
  by_cases hreads : frame.ReadsBuffer
  · obtain ⟨send, hlog⟩ := hreads.accesses (σ := σ)
    rw [hlog S input M hfault] at hx
    obtain ⟨i, hi, -, rfl⟩ := Mach.mem_accesses.mp hx
    exact ⟨hreads, i, hi, rfl⟩
  · rw [S.accesses_none input M hreads] at hx
    cases hx

/-! ## Reading user memory only -/

/-- The call is one with a buffer. -/
def InterruptFrame.HasBuffer (frame : InterruptFrame) : Prop :=
  frame.rax = sysWrite ∨ frame.rax = sysExec

/-- The call reads user memory only. -/
structure ReadsUserOnly (S : Services) (frame : InterruptFrame) (input : UInt8) (M : Mach σ) :
    Prop where
  /-- Every address that it dereferences is on a page of user mode. -/
  reads : ∀ x ∈ S.accesses frame input M, M.OnUserPage x.addr
  /-- With another buffer it returns -1. -/
  refuses : frame.HasBuffer → ¬ UserBuffer M frame →
    (syscallDispatch S frame input M).1.2 = .ret (frame.withRax minusOne)

/-- A call that rejects its arguments returns -1. -/
theorem syscallDispatch_refuses (S : Services) {frame : InterruptFrame} (input : UInt8)
    (hfault : M.fault = false) (hbuffer : frame.HasBuffer) (hreads : ¬ frame.ReadsBuffer) :
    (syscallDispatch S frame input M).1.2 = .ret (frame.withRax minusOne) := by
  rcases hbuffer with hwrite | hexec
  · have hok : frame.RejectsWrite := by
      by_contra hok
      exact hreads (.inl ⟨hwrite, hok⟩)
    rw [syscallDispatch_write S hwrite, if_pos hok]
    simp [orFault, hfault]
  · have hok : frame.RejectsName := by
      by_contra hok
      exact hreads (.inr ⟨hexec, hok⟩)
    unfold InterruptFrame.RejectsName at hok
    simp only [syscallDispatch, dispatchCall, hexec, if_true, handleExec, if_pos hok,
      Act.bind_apply, Act.pure_apply, orFault, hfault, Bool.false_eq_true, if_false]

theorem readsUserOnly_iff (S : Services) {frame : InterruptFrame} (input : UInt8)
    (hfault : M.fault = false) :
    ReadsUserOnly S frame input M ↔ (frame.ReadsBuffer → UserBuffer M frame) := by
  constructor
  · intro h hreads
    obtain ⟨send, hlog⟩ := hreads.accesses (σ := σ)
    have huser := h.reads
    rw [hlog S input M hfault] at huser
    exact (userBuffer_iff M frame).mpr fun i hi => Mach.accesses_user huser hi
  · intro h
    refine ⟨fun x hx => ?_, fun hbuffer hno => ?_⟩
    · obtain ⟨hreads, i, hi, haddr⟩ := S.accesses_dereferences hfault hx
      rw [haddr]
      exact (userBuffer_iff M frame).mp (h hreads) i hi
    · exact syscallDispatch_refuses S input hfault hbuffer fun hreads => hno (h hreads)

/-- A call reads user memory only, and refuses any other, if its buffer is in pages of user mode
or the call makes no access, and only then.  In that case what it prints depends on user memory
only. -/
theorem syscall_reads_iff (S : Services) (frame : InterruptFrame) (input : UInt8)
    (hfault : M.fault = false) :
    (ReadsUserOnly S frame input M ↔ (frame.ReadsBuffer → UserBuffer M frame)) ∧
      (ReadsUserOnly S frame input M → ∀ (S' : Services) (input' : UInt8) (M' : Mach σ),
        M'.fault = false → SameTables M M' → AgreeOnUser M M' →
        S'.sent frame input' M' = S.sent frame input M) := by
  refine ⟨readsUserOnly_iff S input hfault, fun h S' input' M' hfault' htab hagree => ?_⟩
  by_cases hreads : frame.ReadsBuffer
  · have hbuffer := (userBuffer_iff M frame).mp ((readsUserOnly_iff S input hfault).mp h hreads)
    obtain ⟨send, hlog⟩ := hreads.accesses (σ := σ)
    rw [Services.sent, Services.sent, hlog S input M hfault, hlog S' input' M' hfault',
      Mach.accesses_congr fun i hi => userByte_eq htab hagree (hbuffer i hi)]
  · rw [Services.sent, Services.sent, S.accesses_none input M hreads,
      S'.accesses_none input' M' hreads]

end

end

/-- A byte in no table and in no frame of a user page can be any other without a change
to the tables or to the memory of user mode. -/
theorem Rooted.set_byte {σ : Type} [FrameSource σ] {M : Mach σ} {A : Nat → Prop}
    (hM : Rooted A M) {x : Nat} (v : UInt8) (htab : ¬ M.IsTable (frameOf x))
    (huser : ∀ a, M.UserLeaf a → M.leafFrame a ≠ frameOf x) :
    SameTables M (M.withMem (M.mem.set x v)) ∧ AgreeOnUser M (M.withMem (M.mem.set x v)) := by
  obtain ⟨hinv, hleaf, -⟩ := hM.isolated.inv.withMem (m := M.mem.set x v) fun y hy => by
    rwa [show y = x from Classical.byContradiction fun hne => hy (Mem.set_other hne)]
  constructor
  · intro a
    have hcr3 : (M.withMem (M.mem.set x v)).cr3 = some (M.withMem (M.mem.set x v)).pml4 := hM.cr3
    rw [hM.translate, ← hleaf a, Mach.translate, hcr3]
    exact hinv.walk_eq a
  · intro a t ht hu
    obtain rfl := eq_of_decode ((hM.translate a).symm.trans ht)
    refine Mem.set_other fun hx => huser a hu ?_
    rw [← M.frameOf_leafFrame a, ← hx]
    rfl

/-! ## A program that reads kernel memory -/

/-- A call of `sys_write`. -/
def writeFrame (buf len : Nat) : InterruptFrame :=
  { initialServices.savedFrame with rax := sysWrite, rdi := buf, rsi := len }

/-- A call for one byte sends that byte. -/
theorem sent_byte {σ : Type} [FrameSource σ] (S : Services) (input : UInt8) {M : Mach σ} {a : Nat}
    {b : UInt8} (hfault : M.fault = false) (h0 : a ≠ 0) (h1 : a + 1 < 2 ^ 64)
    (hb : M.userByte a = some b) :
    S.accesses (writeFrame a 1) input M = [⟨a, some b⟩]
      ∧ S.sent (writeFrame a 1) input M = [b] := by
  have hwrap : wrap64 (a + 0) = a := wrap64_of_lt (by omega)
  have hok : ¬ (writeFrame a 1).RejectsWrite := by
    rintro (hz | hlt)
    · exact h0 hz
    · have hlt' : wrap64 (a + 1) < a := hlt
      rw [wrap64_of_lt h1] at hlt'
      omega
  have hlog : S.accesses (writeFrame a 1) input M = [⟨a, some b⟩] := by
    have hwrite : (writeFrame a 1).rax = sysWrite := rfl
    refine (dispatchCallLogged_write S hwrite input M).trans ?_
    rw [if_neg hok, loadUserBytesLogged_log _ _ _ hfault]
    have hone : M.accesses true a 1 = [⟨wrap64 (a + 0), M.userByte (wrap64 (a + 0))⟩] := rfl
    rw [hwrap, hb] at hone
    exact hone
  rw [Services.sent, hlog]
  exact ⟨rfl, rfl⟩

/-- The kernel's code is mapped where it was. -/
theorem tables_runningBoot :
    (∀ t, runningBoot.mach.IsTable t → avail roomyBoot.start.frames t) ∧
      runningBoot.mach.leaf 0x100000 = 0x100000 ||| kernelFlags := by
  have hready := ready_roomyBoot (n := 0) (Nat.zero_le _)
  have hoom := hready.oom
  obtain ⟨htab, -, hident⟩ := BootEnv.boot_tables (show roomyBoot.bus = .phys from rfl)
    (roomyBoot.root_ne_zero hoom)
  have hleaf : roomyBoot.boot.mach.leaf 0x100000 = 0x100000 ||| kernelFlags :=
    hident hoom 0x100 (by decide) (by decide)
  have hM := hready.rooted
  rw [runningBoot, Kernel.mach_withMach]
  generalize roomyBoot.boot.mach = M at hM htab hleaf
  obtain ⟨-, hg, -⟩ := Maps.usermodeExecElf onePageImage M hM.isolated.inv
  refine ⟨fun t ht => ?_, ?_⟩
  · rcases hg.new t ht with hold | hfree
    · exact htab t hold
    · exact hM.isolated.origin t hfree
  · rw [hg.leaf 0x100000, hleaf]
    rintro (hcov | ⟨j, hj, hp⟩)
    · exact absurd (covers_onePageImage hcov) (by decide)
    · simp only [stackPages, userStackVaddr, pageOf] at hj hp
      omega

/-- A program runs, and the kernel's code is mapped where it was. -/
theorem exists_running :
    ∃ k, roomyBoot.Reaches anyStep k ∧ Rooted (avail roomyBoot.start.frames) k.mach ∧
      (∀ t, k.mach.IsTable t → avail roomyBoot.start.frames t) ∧ k.mach.UserPage 0x400000 ∧
      k.mach.fault = false ∧ k.mach.leaf 0x100000 = 0x100000 ||| kernelFlags :=
  ⟨runningBoot, reaches_runningBoot, ready_runningBoot.1.rooted, tables_runningBoot.1,
    ready_runningBoot.2.1, ready_runningBoot.1.fault, tables_runningBoot.2⟩

/-- A program prints its own code. -/
theorem syscall_reads_running :
    ∃ k, roomyBoot.Reaches anyStep k ∧ k.mach.UserPage 0x400000 ∧
      ReadsUserOnly k.services (writeFrame 0x400000 16) 0 k.mach := by
  obtain ⟨k, hk, -, -, huser, hfault, -⟩ := exists_running
  refine ⟨k, hk, huser, (syscall_reads_iff k.services _ 0 hfault).1.mpr fun _ _ n h1 h2 => ?_⟩
  obtain rfl : n = 0x400 := by
    simp only [writeFrame] at h1 h2
    omega
  exact ⟨by decide, huser⟩

/-- A program can print a byte of the kernel: `sys_write` of one byte at `0x100000` reads it and
returns 1, and with the same tables and the same user memory it sends different bytes. -/
theorem kernelByte_written :
    ∃ k M', roomyBoot.Reaches anyStep k ∧ k.mach.UserPage 0x400000 ∧
      (∃ x ∈ k.services.accesses (writeFrame 0x100000 1) 0 k.mach, x.addr = 0x100000) ∧
      ¬ k.mach.OnUserPage 0x100000 ∧
      (k.syscall (writeFrame 0x100000 1) 0).2 = .ret ((writeFrame 0x100000 1).withRax 1) ∧
      M'.fault = false ∧ SameTables k.mach M' ∧ AgreeOnUser k.mach M' ∧
      k.services.sent (writeFrame 0x100000 1) 0 M'
        ≠ k.services.sent (writeFrame 0x100000 1) 0 k.mach := by
  obtain ⟨k, hk, hM, htab, huser, hfault, hleaf⟩ := exists_running
  have hlow : ∀ f, avail roomyBoot.start.frames f → 0x110000 ≤ f := fun f hf =>
    (BootEnv.avail_start (by decide) hf).2.resolve_left fun h => by
      have hstart : f + 4096 ≤ 0x100000 := h
      have := (BootEnv.avail_start (by decide) hf).1
      omega
  have htrans : k.mach.translate 0x100000 = some ⟨0x100000, true, false⟩ := by
    rw [hM.translate, hleaf]
    decide
  -- the byte at `0x100000` is in no table and in no frame of a user page
  obtain ⟨htables, hagree⟩ := hM.set_byte (x := 0x100000) (k.mach.mem 0x100000 + 1)
    (fun ht => absurd (hlow _ (htab _ ht)) (by decide))
    (fun a ha heq => absurd (hlow _ (heq ▸ (hM.isolated.user a ha).1)) (by decide))
  have hbyte := userByte_canonical (by decide) htrans
  have hbyte' := userByte_canonical (by decide) ((htables 0x100000).trans htrans)
  obtain ⟨hlog, hsent⟩ := sent_byte k.services 0 hfault (by decide) (by decide) hbyte
  have hfaultM :
      (k.mach.withMem (k.mach.mem.set 0x100000 (k.mach.mem 0x100000 + 1))).fault = false := hfault
  obtain ⟨-, hsent'⟩ := sent_byte k.services 0 hfaultM (by decide) (by decide) hbyte'
  refine ⟨k, _, hk, huser, ?_, ?_, ?_, hfaultM, htables, hagree, ?_⟩
  · rw [hlog]
    exact ⟨_, List.mem_singleton_self _, rfl⟩
  · rintro ⟨-, t, ht, hu⟩
    rw [htrans] at ht
    obtain rfl := Option.some.inj ht
    cases hu
  · have hfault' : (loadUserBytes 0x100000 1 k.mach).2.fault = false := by
      rw [loadUserBytes_snd]
      simp only [hfault, List.range_one, List.any_cons, List.any_nil, Bool.false_or, Bool.or_false]
      rw [show wrap64 (0x100000 + 0) = 0x100000 from rfl, hbyte]
      rfl
    rw [Kernel.syscall, syscallDispatch_write _ rfl, if_neg (by decide)]
    simp only [writeFrame, orFault, hfault']
    rfl
  · rw [hsent, hsent', Mach.withMem_mem, Mem.set_self]
    have hne : k.mach.mem 0x100000 + 1 ≠ k.mach.mem 0x100000 := by grind
    intro heq
    simp only [List.cons.injEq, and_true] at heq
    exact hne heq

end TunaOs
