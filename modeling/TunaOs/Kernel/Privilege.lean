import TunaOs.Kernel.Programs

/-!
# The frames that system calls hand back

A system call is made from user mode, and `iretq` goes back with the frame that
`syscall_dispatch` leaves.  Most calls leave all of it but RAX alone; `SYS_EXEC` replaces it
by the first frame of a program, and `SYS_EXIT` by `saved_frame`, which an earlier call has
written.

A history is a run of calls on arbitrary frames of user mode.  The machine is any at each of
them, and the files may change in between, so `elf_load` and the allocator may do what they
like.  What carries the run is that `child_running` is set exactly if a call has started a
program whose frame has not been restored since (`Unspent`), and that `saved_frame` is then
the frame of that call.
-/

namespace TunaOs

open Run (Reachable)

/-! ## Histories -/

/-- The selectors are those of user mode. -/
def InterruptFrame.Ring3 (frame : InterruptFrame) : Prop :=
  frame.cs = gdtUserCodeRpl3 ∧ frame.ss = gdtUserDataRpl3

/-- The frame that is handed back. -/
def Outcome.resumed : Outcome → Option InterruptFrame
  | .ret frame => some frame
  | .start frame _ => some frame
  | .halt => none
  | .fault => none

/-- A call: the state before it, its frame, and how it ended. -/
structure Call (σ : Type) where
  services : Services
  mach : Mach σ
  frame : InterruptFrame
  outcome : Outcome

/-- A run of calls, the latest first, and the state after it. -/
structure CallHistory (σ : Type) where
  services : Services
  calls : List (Call σ)

section

variable {σ : Type}

/-- `SYS_EXEC` has started a program. -/
def Call.Starts (c : Call σ) : Prop := ∃ g img, c.outcome = .start g img

/-- `SYS_EXIT` has restored a frame. -/
def Call.Restores (c : Call σ) : Prop := c.frame.rax = sysExit ∧ ∃ g, c.outcome = .ret g

/-- The call `e` is the latest one that has started a program, and no frame has been restored
since. -/
def Unspent : List (Call σ) → Call σ → Prop
  | [], _ => False
  | c :: calls, e => (c.Starts ∧ e = c) ∨ (¬ c.Starts ∧ ¬ c.Restores ∧ Unspent calls e)

/-- After `syscall_init`. -/
def CallHistory.Start (h : CallHistory σ) : Prop :=
  h.services.childRunning = false ∧ h.calls = []

/-- The kernel has not halted. -/
def CallHistory.Running (h : CallHistory σ) : Prop :=
  ∀ c ∈ h.calls.head?, c.outcome.resumed.isSome = true

variable [FrameSource σ]

inductive CallStep : CallHistory σ → CallHistory σ → Prop
  | call {h : CallHistory σ} {frame : InterruptFrame} {input : UInt8} {M M' : Mach σ}
      {S' : Services} {o : Outcome} : h.Running → frame.Ring3 → M.fault = false →
      syscallDispatch h.services frame input M = ((S', o), M') →
      CallStep h ⟨S', ⟨h.services, M, frame, o⟩ :: h.calls⟩
  /-- The kernel changes its files or its shell. -/
  | files {h : CallHistory σ} (files : List RamfsFile) (shellElf : Option Image) :
      CallStep h ⟨{ h.services with files, shellElf }, h.calls⟩

/-- A call, made after `older`, that neither raises the privilege nor resumes a stale
frame. -/
structure Call.Safe (older : List (Call σ)) (c : Call σ) : Prop where
  /-- The frame handed back belongs to user mode. -/
  ring3 : ∀ g, c.outcome.resumed = some g → g.Ring3
  /-- A program is started by `SYS_EXEC`, at the entry that `elf_load` has returned. -/
  starts : ∀ g img, c.outcome = .start g img → c.frame.rax = sysExec ∧
    ∃ f, c.services.target c.frame c.mach = some f ∧
      g.rip = (elfLoad f.image (c.mach.readName c.frame)).1 ∧ g.rip ≠ 0
  /-- `SYS_EXIT` goes back to the latest call that has started a program, if that has not
  been gone back to. -/
  restores : c.Restores → ∃ e, Unspent older e ∧ c.outcome = .ret (e.frame.withRax 0)
  /-- It halts exactly if there is none. -/
  halts : c.frame.rax = sysExit → (c.outcome = .halt ↔ ¬ ∃ e, Unspent older e)
  /-- Any other call goes back to where it was made. -/
  returns : ∀ g, c.outcome = .ret g → c.frame.rax ≠ sysExit → g.rip = c.frame.rip

/-- All calls of a history are safe, and between two that restore a frame there is one that
starts a program. -/
structure CallHistory.Safe (h : CallHistory σ) : Prop where
  calls : ∀ newer c older, h.calls = newer ++ c :: older → c.Safe older
  once : ∀ newer c mid d older, h.calls = newer ++ c :: (mid ++ d :: older) →
    c.Restores → d.Restores → ∃ e ∈ mid, e.Starts

/-! ## Frames that wait -/

section

omit [FrameSource σ]

theorem Call.Starts.not_restores {c : Call σ} (h : c.Starts) : ¬ c.Restores := by
  obtain ⟨g, img, hs⟩ := h
  rintro ⟨-, g', hr⟩
  rw [hs] at hr
  cases hr

theorem unspent_start {c e : Call σ} {calls : List (Call σ)} (h : c.Starts) :
    Unspent (c :: calls) e ↔ e = c := by simp [Unspent, h]

theorem unspent_restore {c e : Call σ} {calls : List (Call σ)} (h : c.Restores) :
    ¬ Unspent (c :: calls) e := by
  rintro (⟨hs, -⟩ | ⟨-, hno, -⟩)
  · exact hs.not_restores h
  · exact hno h

theorem unspent_other {c e : Call σ} {calls : List (Call σ)} (hs : ¬ c.Starts)
    (hr : ¬ c.Restores) : Unspent (c :: calls) e ↔ Unspent calls e := by simp [Unspent, hs, hr]

/-- A waiting frame is newer than every call that restores one. -/
theorem Unspent.after {d e : Call σ} {older : List (Call σ)} (hd : d.Restores) :
    ∀ {mid : List (Call σ)}, Unspent (mid ++ d :: older) e → e ∈ mid ∧ e.Starts
  | [], h => absurd h (unspent_restore hd)
  | c :: mid, h => by
      rcases h with ⟨hs, rfl⟩ | ⟨-, -, h⟩
      · exact ⟨List.mem_cons_self, hs⟩
      · exact ⟨List.mem_cons_of_mem _ (Unspent.after hd h).1, (Unspent.after hd h).2⟩

theorem Unspent.mem {e : Call σ} : ∀ {calls : List (Call σ)}, Unspent calls e → e ∈ calls
  | c :: calls, h => by
      rcases h with ⟨-, rfl⟩ | ⟨-, -, h⟩
      · exact List.mem_cons_self
      · exact List.mem_cons_of_mem _ h.mem

end

/-! ## The invariant -/

structure CallHistory.Inv (h : CallHistory σ) : Prop where
  /-- `child_running` is set exactly if a frame waits. -/
  child : h.Running → (h.services.childRunning = true ↔ ∃ e, Unspent h.calls e)
  /-- That frame is `saved_frame`. -/
  saved : h.Running → ∀ e, Unspent h.calls e → h.services.savedFrame = e.frame
  ring3 : ∀ c ∈ h.calls, c.frame.Ring3
  safe : ∀ newer c older, h.calls = newer ++ c :: older → c.Safe older

/-- A history with one more call that is safe. -/
theorem CallHistory.Inv.push {h : CallHistory σ} {c : Call σ} {S' : Services} (hinv : h.Inv)
    (hframe : c.frame.Ring3) (hsafe : c.Safe h.calls)
    (hchild : c.outcome.resumed.isSome = true →
      (S'.childRunning = true ↔ ∃ e, Unspent (c :: h.calls) e))
    (hsaved : c.outcome.resumed.isSome = true →
      ∀ e, Unspent (c :: h.calls) e → S'.savedFrame = e.frame) :
    CallHistory.Inv ⟨S', c :: h.calls⟩ := by
  have hrunning : CallHistory.Running ⟨S', c :: h.calls⟩ → c.outcome.resumed.isSome = true :=
    fun hr => hr c rfl
  refine ⟨fun hr => hchild (hrunning hr), fun hr => hsaved (hrunning hr), ?_, ?_⟩
  · intro d hd
    rcases List.mem_cons.mp hd with rfl | hd
    · exact hframe
    · exact hinv.ring3 d hd
  · intro newer d older heq
    cases newer with
    | nil =>
        obtain ⟨rfl, rfl⟩ := List.cons.inj heq
        exact hsafe
    | cons x newer => exact hinv.safe newer d older (List.cons.inj heq).2

/-- A call that hands its own frame back, except for RAX, is safe. -/
theorem CallHistory.Inv.returned {h : CallHistory σ} {M : Mach σ} {frame : InterruptFrame}
    {result : Nat} (hinv : h.Inv) (hrun : h.Running) (hframe : frame.Ring3)
    (hrax : frame.rax ≠ sysExit) :
    CallHistory.Inv
      ⟨h.services, ⟨h.services, M, frame, .ret (frame.withRax result)⟩ :: h.calls⟩ := by
  have hstarts : ¬ (⟨h.services, M, frame, .ret (frame.withRax result)⟩ : Call σ).Starts := by
    rintro ⟨_, _, heq⟩
    cases heq
  have hrestores : ¬ (⟨h.services, M, frame, .ret (frame.withRax result)⟩ : Call σ).Restores :=
    fun hr => hrax hr.1
  refine hinv.push hframe ⟨?_, ?_, ?_, ?_, ?_⟩ (fun _ => ?_) (fun _ e => ?_)
  · intro g hg
    obtain rfl := Option.some.inj hg
    exact hframe
  · intro g img heq
    cases heq
  · exact fun hr => absurd hr hrestores
  · exact fun hexit => absurd hexit hrax
  · intro g heq _
    obtain rfl := Outcome.ret.inj heq
    rfl
  · simp only [unspent_other hstarts hrestores]
    exact hinv.child hrun
  · rw [unspent_other hstarts hrestores]
    exact hinv.saved hrun e

/-- `SYS_EXIT` without a frame that waits. -/
theorem CallHistory.Inv.halted {h : CallHistory σ} {M : Mach σ} {frame : InterruptFrame}
    (hinv : h.Inv) (hrun : h.Running) (hframe : frame.Ring3)
    (hchild : h.services.childRunning = false) :
    CallHistory.Inv ⟨h.services, ⟨h.services, M, frame, .halt⟩ :: h.calls⟩ := by
  have hnone : ¬ ∃ e, Unspent h.calls e := fun he => by
    have := (hinv.child hrun).mpr he
    rw [hchild] at this
    cases this
  refine hinv.push hframe ⟨?_, ?_, ?_, ?_, ?_⟩ nofun nofun
  · intro g hg
    cases hg
  · intro g img heq
    cases heq
  · rintro ⟨-, g, heq⟩
    cases heq
  · exact fun _ => ⟨fun _ => hnone, fun _ => rfl⟩
  · intro g heq
    cases heq

/-- `SYS_EXIT` with a frame that waits. -/
theorem CallHistory.Inv.restored {h : CallHistory σ} {M : Mach σ} {frame : InterruptFrame}
    (hinv : h.Inv) (hrun : h.Running) (hframe : frame.Ring3) (hrax : frame.rax = sysExit)
    (hchild : h.services.childRunning = true) :
    CallHistory.Inv ⟨{ h.services with childRunning := false },
      ⟨h.services, M, frame, .ret (h.services.savedFrame.withRax 0)⟩ :: h.calls⟩ := by
  obtain ⟨e, he⟩ := (hinv.child hrun).mp hchild
  have hsaved := hinv.saved hrun e he
  have hrestores : (⟨h.services, M, frame, .ret (h.services.savedFrame.withRax 0)⟩
      : Call σ).Restores := ⟨hrax, _, rfl⟩
  refine hinv.push hframe ⟨?_, ?_, ?_, ?_, ?_⟩ (fun _ => ?_) (fun _ e' he' => ?_)
  · intro g hg
    obtain rfl := Option.some.inj hg
    rw [hsaved]
    exact hinv.ring3 e he.mem
  · intro g img heq
    cases heq
  · exact fun _ => ⟨e, he, by rw [hsaved]⟩
  · exact fun _ => ⟨nofun, fun hno => absurd ⟨e, he⟩ hno⟩
  · exact fun _ _ hne => absurd hrax hne
  · refine ⟨nofun, ?_⟩
    rintro ⟨e', he'⟩
    exact absurd he' (unspent_restore hrestores)
  · exact absurd he' (unspent_restore hrestores)

/-- `SYS_EXEC` that starts a program. -/
theorem CallHistory.Inv.started {h : CallHistory σ} {M : Mach σ} {frame : InterruptFrame}
    {f : RamfsFile} (hinv : h.Inv) (hframe : frame.Ring3) (hrax : frame.rax = sysExec)
    (htarget : h.services.target frame M = some f) (hstarts : f.image.Starts) :
    CallHistory.Inv ⟨{ h.services with savedFrame := frame, childRunning := true },
      ⟨h.services, M, frame, .start (frame.enterChild f.image.entry) f.image⟩ :: h.calls⟩ := by
  have hstart : (⟨h.services, M, frame, .start (frame.enterChild f.image.entry) f.image⟩
      : Call σ).Starts := ⟨_, _, rfl⟩
  refine hinv.push hframe ⟨?_, ?_, ?_, ?_, ?_⟩ (fun _ => ?_) (fun _ e he => ?_)
  · intro g hg
    obtain rfl := Option.some.inj hg
    exact ⟨rfl, rfl⟩
  · intro g img heq
    obtain ⟨rfl, rfl⟩ := Outcome.start.inj heq
    have hentry : f.image.entry = (elfLoad f.image (M.readName frame)).1 := by
      rw [elfLoad_fst, if_pos hstarts.1]
    have hne : f.image.entry ≠ 0 := by
      rw [hentry]
      exact (elfLoad_fst_ne_zero (M.readName frame)).mpr hstarts
    exact ⟨hrax, f, htarget, hentry, hne⟩
  · exact fun hr => absurd hr hstart.not_restores
  · intro hexit
    rw [hrax] at hexit
    cases hexit
  · intro g heq
    cases heq
  · simp [unspent_start hstart]
  · rw [(unspent_start hstart).mp he]

/-- A call that ends in an exception. -/
theorem CallHistory.Inv.faulted {h : CallHistory σ} {M : Mach σ} {frame : InterruptFrame}
    {S' : Services} (hinv : h.Inv) (hrun : h.Running) (hframe : frame.Ring3)
    (hchild : frame.rax = sysExit → h.services.childRunning = true) :
    CallHistory.Inv ⟨S', ⟨h.services, M, frame, .fault⟩ :: h.calls⟩ := by
  refine hinv.push hframe ⟨?_, ?_, ?_, ?_, ?_⟩ nofun nofun
  · intro g hg
    cases hg
  · intro g img heq
    cases heq
  · rintro ⟨-, g, heq⟩
    cases heq
  · exact fun hexit => ⟨nofun, fun hno =>
      absurd ((hinv.child hrun).mp (hchild hexit)) hno⟩
  · intro g heq
    cases heq

theorem CallStep.inv {h h' : CallHistory σ} (hinv : h.Inv) (hst : CallStep h h') : h'.Inv := by
  cases hst with
  | @call frame input M M' S' o hrun hframe hfault hcall =>
      by_cases ho : o = .fault
      · subst ho
        refine hinv.faulted hrun hframe fun hexit => ?_
        by_contra hchild
        rw [syscallDispatch_halt hexit (Bool.eq_false_of_not_eq_true hchild) hfault] at hcall
        cases hcall
      · cases syscallDispatch_run hcall ho with
        | exec hrax hexec =>
            have hne : frame.rax ≠ sysExit := by
              rw [hrax]
              decide
            cases hexec with
            | notFound => exact hinv.returned hrun hframe hne
            | rejected => exact hinv.returned hrun hframe hne
            | noStack => exact hinv.returned hrun hframe hne
            | started htarget hstarts => exact hinv.started hframe hrax htarget hstarts
        | halt _ hchild => exact hinv.halted hrun hframe hchild
        | exit hrax hchild => exact hinv.restored hrun hframe hrax hchild
        | handler _ _ _ hexit => exact hinv.returned hrun hframe hexit
  | files => exact ⟨hinv.child, hinv.saved, hinv.ring3, hinv.safe⟩

theorem CallHistory.inv_of_reachable {h : CallHistory σ}
    (hr : Reachable CallHistory.Start CallStep h) : h.Inv := by
  refine hr.invariant ?_ fun _ _ hinv hst => hst.inv hinv
  rintro ⟨S, calls⟩ ⟨hchild, hcalls⟩
  obtain rfl : calls = [] := hcalls
  refine ⟨fun _ => ?_, fun _ e he => absurd he id, fun c hc => absurd hc List.not_mem_nil, ?_⟩
  · simp only [show S.childRunning = false from hchild]
    exact ⟨nofun, fun ⟨e, he⟩ => absurd he id⟩
  · intro newer c older heq
    cases newer <;> cases heq

/-- In every run of system calls from user mode, no frame that is handed back has other
selectors than those of user mode, and no frame is resumed twice. -/
theorem syscalls_safe {h : CallHistory σ} (hr : Reachable CallHistory.Start CallStep h) :
    h.Safe := by
  have hinv := CallHistory.inv_of_reachable hr
  refine ⟨hinv.safe, fun newer c mid d older heq hc hd => ?_⟩
  obtain ⟨e, he, -⟩ := (hinv.safe newer c _ heq).restores hc
  obtain ⟨hmem, hstarts⟩ := he.after hd
  exact ⟨e, hmem, hstarts⟩

end

/-- A frame of user mode with a call of `SYS_EXEC`, whose name is the byte at `0x400000`. -/
def ring3Exec : InterruptFrame :=
  { initialServices.savedFrame with
    rax := sysExec, rdi := 0x400000, rsi := 1, cs := gdtUserCodeRpl3, ss := gdtUserDataRpl3 }

def ring3Exit : InterruptFrame := { ring3Exec with rax := sysExit }

/-- The sample program is started under the name it finds in memory, and it exits. -/
theorem syscalls_safe_sample :
    ∃ (M N : Mach Pmm) (S : Services), CallHistory.Safe (σ := Pmm)
      ⟨{ S with savedFrame := ring3Exec, childRunning := false }, [
        ⟨{ S with savedFrame := ring3Exec, childRunning := true }, N, ring3Exit,
          .ret (ring3Exec.withRax 0)⟩,
        ⟨S, M, ring3Exec, .start (ring3Exec.enterChild onePageImage.entry) onePageImage⟩]⟩ := by
  obtain ⟨A, M, hready, -, hbyte⟩ : ∃ A, ∃ M : Mach Pmm, Ready A 0x1000 M ∧ M.UserPage 0x400000 ∧
      M.userByte 0x400000 = some 0x7f := ⟨_, runningBoot.mach, ready_runningBoot⟩
  let S : Services := { initialServices with files := [⟨[0x7f], onePageImage⟩], shellElf := none }
  obtain ⟨hname, hread⟩ := readName_byte (show ring3Exec.rsi = 1 from rfl) hbyte
  have htarget : S.target ring3Exec M = some ⟨[0x7f], onePageImage⟩ := by
    rw [Services.target, if_neg (by decide), hname]
    rfl
  obtain ⟨hexec, hrun⟩ := Ready.exec (n := 0xff4) hready htarget hread starts_onePageImage
    phnum_onePageImage pages_onePageImage
  have hexit := syscallDispatch_exit (show ring3Exit.rax = sysExit from rfl)
    (show ({ S with savedFrame := ring3Exec, childRunning := true } : Services).childRunning = true
      from rfl) 0 (startProgram onePageImage childStackVaddr M)
  generalize startProgram onePageImage childStackVaddr M = N at hexec hrun hexit
  rw [reloadShell_none rfl, hrun.fault] at hexit
  have hstart : Reachable CallHistory.Start CallStep (⟨S, []⟩ : CallHistory Pmm) := .init ⟨rfl, rfl⟩
  have hone := hstart.step (.call (fun c hc => by cases hc) ⟨rfl, rfl⟩ hready.fault
    (syscallDispatch_exec rfl hexec hrun.fault 0))
  have htwo := hone.step (.call (fun c hc => by cases hc; rfl) ⟨rfl, rfl⟩ hrun.fault hexit)
  exact ⟨M, N, S, syscalls_safe htwo⟩

end TunaOs
