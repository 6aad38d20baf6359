import TunaOs.Lib.WordStack
import TunaOs.Task.Spec

/-!
# The context switch

The model of `switch.S`: the instructions of `switch_to` over a register file
and memory.  `Context` is what a task finds in its registers when it goes on, and
`SavedAt` says that the seven words at a saved stack pointer describe a context.
Pushing the words and popping them back is one argument for both kinds of saved
stack: the one `switch_to` leaves behind and the one `task_create` builds.
-/

namespace TunaOs

open Word

/-! ## Registers and instructions -/

/-- The general registers. -/
inductive Reg
  | rax | rbx | rcx | rdx | rsi | rdi | rbp | rsp | r8 | r9 | r10 | r11 | r12 | r13 | r14 | r15
deriving DecidableEq, Repr

/-- The register file, the instruction pointer and memory.  `rip` is the address
of the next instruction of the task. -/
structure Cpu where
  /-- The general registers. -/
  regs : Reg → UInt64
  /-- The instruction pointer. -/
  rip : UInt64
  /-- Memory. -/
  mem : Mem

/-- The instructions `switch.S` uses. -/
inductive Instr
  /-- `pushq %r`. -/
  | pushq (r : Reg)
  /-- `popq %r`. -/
  | popq (r : Reg)
  /-- `movq %src, (%dst)`. -/
  | movqStore (src dst : Reg)
  /-- `movq %src, %dst`. -/
  | movq (src dst : Reg)
  /-- `ret`. -/
  | ret
deriving DecidableEq, Repr

/-- A register set to a value. -/
def Cpu.set (c : Cpu) (r : Reg) (v : UInt64) : Cpu := { c with regs := Function.update c.regs r v }

/-- Memory replaced. -/
def Cpu.withMem (c : Cpu) (m : Mem) : Cpu := { c with mem := m }

/-- The word at an address. -/
def Cpu.word (c : Cpu) (a : UInt64) : UInt64 := WordStack.word c.mem a

/-- One instruction. -/
def Instr.exec : Instr → Cpu → Cpu
  | pushq r, c =>
      let sp := c.regs .rsp - 8
      (c.set .rsp sp).withMem (c.mem.store sp.toNat 8 (c.regs r).toNat)
  | popq r, c => (c.set .rsp (c.regs .rsp + 8)).set r (c.word (c.regs .rsp))
  | movqStore src dst, c =>
      c.withMem (c.mem.store (c.regs dst).toNat 8 (c.regs src).toNat)
  | movq src dst, c => c.set dst (c.regs src)
  | ret, c => { c.set .rsp (c.regs .rsp + 8) with rip := c.word (c.regs .rsp) }

/-- A sequence of instructions. -/
def exec (code : List Instr) (c : Cpu) : Cpu := code.foldl (fun c i => i.exec c) c

/-- The first half of `switch_to`: save the registers and the stack pointer. -/
def saveContext : List Instr :=
  [.pushq .rbx, .pushq .rbp, .pushq .r12, .pushq .r13, .pushq .r14, .pushq .r15,
    .movqStore .rsp .rdi]

/-- The second half of `switch_to`: load the stack pointer and the registers. -/
def loadContext : List Instr :=
  [.movq .rsi .rsp, .popq .r15, .popq .r14, .popq .r13, .popq .r12, .popq .rbp, .popq .rbx, .ret]

/-- `switch_to`, from its first instruction to the one after its `ret`. -/
def switchTo : List Instr := saveContext ++ loadContext

/-! ## Contexts -/

/-- What a task finds in its registers when it goes on. -/
structure Context where
  /-- Where it goes on. -/
  rip : UInt64
  /-- RBX. -/
  rbx : UInt64
  /-- RBP. -/
  rbp : UInt64
  /-- R12. -/
  r12 : UInt64
  /-- R13. -/
  r13 : UInt64
  /-- R14. -/
  r14 : UInt64
  /-- R15. -/
  r15 : UInt64
  /-- RSP. -/
  rsp : UInt64
deriving DecidableEq

/-- The context a processor is in. -/
def Cpu.context (c : Cpu) : Context where
  rip := c.rip
  rbx := c.regs .rbx
  rbp := c.regs .rbp
  r12 := c.regs .r12
  r13 := c.regs .r13
  r14 := c.regs .r14
  r15 := c.regs .r15
  rsp := c.regs .rsp

/-- The context in which a caller of `switch_to` expects to go on.  The return
address is on top of its stack. -/
def Cpu.callContext (c : Cpu) : Context :=
  { c.context with rip := c.word (c.regs .rsp), rsp := c.regs .rsp + 8 }

/-- The words of a context on its stack, in the order they are pushed. -/
def Context.words (x : Context) : List Nat :=
  [x.rip.toNat, x.rbx.toNat, x.rbp.toNat, x.r12.toNat, x.r13.toNat, x.r14.toNat, x.r15.toNat]

/-- The words at the stack pointer `sp` describe the context. -/
structure SavedAt (m : Mem) (sp : Nat) (x : Context) : Prop where
  /-- The words, the last one pushed first. -/
  words : ∀ i (hi : i < 7), m.load (sp + 8 * i) 8 = x.words.reverse.get ⟨i, hi⟩
  /-- The stack pointer behind them. -/
  rsp : x.rsp = UInt64.ofNat (sp + 56)

/-- A saved context lies in its seven words. -/
theorem SavedAt.congr {m m' : Mem} {sp : Nat} {x : Context} (h : SavedAt m sp x)
    (hm : ∀ y, sp ≤ y → y < sp + 56 → m' y = m y) : SavedAt m' sp x := by
  refine ⟨fun i hi => ?_, h.rsp⟩
  rw [← h.words i hi]
  exact Mem.load_congr fun y h1 h2 => hm y (by omega) (by omega)

/-! ## Pushing words -/

/-- The words pushed are read back in the opposite order. -/
theorem load_pushWords : ∀ (vs : List Nat) (m : Mem) {sp : Nat}, 8 * vs.length ≤ sp →
    ∀ i (hi : i < vs.length), (pushWords vs m sp).1.load (sp - 8 * (i + 1)) 8
      = vs.get ⟨i, hi⟩ % 2 ^ 64
  | v :: vs, m, sp, h, i, hi => by
      rw [List.length_cons] at h hi
      have hroom : 8 * vs.length ≤ sp - 8 := by omega
      rw [pushWords]
      cases i with
      | zero =>
          -- the words pushed later are below the first one
          have hkept := (pushWords_spec vs (m.store (sp - 8) 8 v) hroom).2
          rw [Mem.load_congr fun x h1 _ => hkept x (Or.inr (by simpa using h1))]
          exact Mem.load_store_self 8 m _ v
      | succ i =>
          have ih := load_pushWords vs (m.store (sp - 8) 8 v) hroom i (by omega)
          rw [show sp - 8 * (i + 1 + 1) = sp - 8 - 8 * (i + 1) by omega]
          exact ih

/-- A context whose words have been pushed is saved at the stack pointer. -/
theorem savedAt_pushWords (m : Mem) {sp : Nat} {x : Context} (hsp : 56 ≤ sp)
    (hrsp : x.rsp = UInt64.ofNat sp) : SavedAt (pushWords x.words m sp).1 (sp - 56) x := by
  refine ⟨fun i hi => ?_, by rw [hrsp, Nat.sub_add_cancel hsp]⟩
  have hload := load_pushWords x.words m (show 8 * x.words.length ≤ sp from hsp) (6 - i)
    (show 6 - i < 7 by omega)
  rw [show sp - 56 + 8 * i = sp - 8 * (6 - i + 1) by omega, hload]
  have hword : ∀ j (hj : j < 7), x.words.get ⟨j, hj⟩ < 2 ^ 64 := by
    intro j hj
    match j, hj with
    | 0, _ | 1, _ | 2, _ | 3, _ | 4, _ | 5, _ | 6, _ => exact UInt64.toNat_lt _
  rw [Nat.mod_eq_of_lt (hword _ _)]
  match i, hi with
  | 0, _ | 1, _ | 2, _ | 3, _ | 4, _ | 5, _ | 6, _ => rfl

/-! ## What `switch_to` does -/

section

variable (c : Cpu) (r r' : Reg) (v : UInt64) (m : Mem)

@[simp] theorem Cpu.withMem_mem : (c.withMem m).mem = m := rfl

@[simp] theorem Cpu.withMem_regs : (c.withMem m).regs = c.regs := rfl

@[simp] theorem Cpu.set_mem : (c.set r v).mem = c.mem := rfl

@[simp] theorem Cpu.set_rip : (c.set r v).rip = c.rip := rfl

@[simp] theorem Cpu.set_self : (c.set r v).regs r = v := Function.update_self ..

variable {r r'}

theorem Cpu.set_other (h : r' ≠ r) : (c.set r v).regs r' = c.regs r' := Function.update_of_ne h ..

theorem exec_cons (i : Instr) (code : List Instr) : exec (i :: code) c = exec code (i.exec c) := rfl

theorem exec_append (code code' : List Instr) :
    exec (code ++ code') c = exec code' (exec code c) := List.foldl_append

end

/-- Pushing registers one after the other. -/
theorem exec_pushes : ∀ (rs : List Reg) (c : Cpu), Reg.rsp ∉ rs →
    8 * rs.length ≤ (c.regs .rsp).toNat →
    (exec (rs.map .pushq) c).mem
        = (pushWords (rs.map fun r => (c.regs r).toNat) c.mem (c.regs .rsp).toNat).1 ∧
      ((exec (rs.map .pushq) c).regs .rsp).toNat = (c.regs .rsp).toNat - 8 * rs.length ∧
      ∀ r, r ≠ .rsp → (exec (rs.map .pushq) c).regs r = c.regs r
  | [], c, _, _ => ⟨rfl, rfl, fun _ _ => rfl⟩
  | r :: rs, c, hmem, hroom => by
      rw [List.length_cons] at hroom
      obtain ⟨hr, hrs⟩ := not_or.mp fun h => hmem (List.mem_cons.mpr h)
      have hsp : (((Instr.pushq r).exec c).regs .rsp).toNat = (c.regs .rsp).toNat - 8 := by
        rw [Instr.exec, Cpu.withMem_regs, Cpu.set_self, UInt64.toNat_sub_of_le]
        · rfl
        · exact UInt64.le_iff_toNat_le.mpr (show 8 ≤ _ by omega)
      have hregs : ∀ q, q ≠ .rsp → ((Instr.pushq r).exec c).regs q = c.regs q := fun q hq =>
        Cpu.set_other _ _ hq
      obtain ⟨hm, hrsp, hother⟩ := exec_pushes rs ((Instr.pushq r).exec c) hrs (by omega)
      rw [List.map_cons, exec_cons]
      refine ⟨?_, by rw [hrsp, hsp, List.length_cons]; omega, fun q hq => ?_⟩
      · rw [hm, hsp, List.map_congr_left fun q hq =>
          congrArg UInt64.toNat (hregs q fun heq => hrs (heq ▸ hq)), List.map_cons, pushWords,
          ← hsp]
        rfl
      · rw [hother q hq, hregs q hq]

/-- Popping registers one after the other.  The stack pointer may wrap around. -/
theorem exec_pops_word : ∀ (rs : List Reg) (c : Cpu), Reg.rsp ∉ rs → rs.Nodup →
    (exec (rs.map .popq) c).mem = c.mem ∧
      (exec (rs.map .popq) c).regs .rsp = c.regs .rsp + UInt64.ofNat (8 * rs.length) ∧
      (∀ r, r ≠ .rsp → r ∉ rs → (exec (rs.map .popq) c).regs r = c.regs r) ∧
      ∀ i (hi : i < rs.length), (exec (rs.map .popq) c).regs (rs.get ⟨i, hi⟩)
        = c.word (c.regs .rsp + UInt64.ofNat (8 * i))
  | [], c, _, _ =>
      ⟨rfl, (UInt64.add_zero _).symm, fun _ _ _ => rfl, fun i hi => absurd hi (Nat.not_lt_zero i)⟩
  | r :: rs, c, hmem, hnd => by
      obtain ⟨hr, hrs⟩ := not_or.mp fun h => hmem (List.mem_cons.mpr h)
      obtain ⟨hfresh, hnd⟩ := List.nodup_cons.mp hnd
      have hsp : ((Instr.popq r).exec c).regs .rsp = c.regs .rsp + 8 := by
        rw [Instr.exec, Cpu.set_other _ _ hr, Cpu.set_self]
      have hstep : ∀ n, c.regs .rsp + 8 + UInt64.ofNat (8 * n)
          = c.regs .rsp + UInt64.ofNat (8 * (n + 1)) := fun n => by
        rw [Nat.mul_add, Nat.add_comm, UInt64.ofNat_add, ← UInt64.add_assoc]
        rfl
      obtain ⟨hm, hrsp, hother, hpop⟩ := exec_pops_word rs ((Instr.popq r).exec c) hrs hnd
      rw [hsp, hstep] at hrsp
      rw [List.map_cons, exec_cons]
      refine ⟨hm, hrsp, fun q hq hqrs => ?_, fun i hi => ?_⟩
      · obtain ⟨hqr, hqrs⟩ := not_or.mp fun h => hqrs (List.mem_cons.mpr h)
        rw [hother q hq hqrs, Instr.exec, Cpu.set_other _ _ hqr, Cpu.set_other _ _ hq]
      · cases i with
        | zero =>
            change Cpu.regs _ r = _
            rw [hother r (Ne.symm hr) hfresh, Instr.exec, Cpu.set_self]
            exact congrArg c.word (UInt64.add_zero _).symm
        | succ i =>
            have := hpop i (Nat.lt_of_succ_lt_succ hi)
            rw [hsp, hstep] at this
            exact this

/-- Popping registers from a stack that ends below `2 ^ 64`. -/
theorem exec_pops (rs : List Reg) (c : Cpu) (hmem : Reg.rsp ∉ rs) (hnd : rs.Nodup)
    (hroom : (c.regs .rsp).toNat + 8 * rs.length < 2 ^ 64) :
    (exec (rs.map .popq) c).mem = c.mem ∧
      (exec (rs.map .popq) c).regs .rsp
        = UInt64.ofNat ((c.regs .rsp).toNat + 8 * rs.length) ∧
      ∀ i (hi : i < rs.length), (exec (rs.map .popq) c).regs (rs.get ⟨i, hi⟩)
        = UInt64.ofNat (c.mem.load ((c.regs .rsp).toNat + 8 * i) 8) := by
  obtain ⟨hm, hrsp, -, hpop⟩ := exec_pops_word rs c hmem hnd
  refine ⟨hm, by rw [hrsp, UInt64.ofNat_add, UInt64.ofNat_toNat], fun i hi => ?_⟩
  rw [hpop i hi, Cpu.word, WordStack.word, UInt64.toNat_add, UInt64.toNat_ofNat',
    Nat.mod_eq_of_lt (show 8 * i < 2 ^ 64 by omega), Nat.mod_eq_of_lt (by omega)]

/-- The registers `switch_to` saves, in the order it pushes them. -/
def calleeSaved : List Reg := [.rbx, .rbp, .r12, .r13, .r14, .r15]

/-- The memory `switch_to` leaves behind: the registers of the task that is left
on its stack, and its stack pointer in the word RDI points to. -/
theorem saveContext_spec {c : Cpu} (hsp : 48 ≤ (c.regs .rsp).toNat) :
    (exec saveContext c).mem =
        (pushWords c.context.words.tail c.mem (c.regs .rsp).toNat).1.store (c.regs .rdi).toNat 8
          ((c.regs .rsp).toNat - 48) ∧
      (exec saveContext c).regs .rsi = c.regs .rsi := by
  have hcode : saveContext = calleeSaved.map .pushq ++ [.movqStore .rsp .rdi] := rfl
  obtain ⟨hm, hrsp, hother⟩ := exec_pushes calleeSaved c (by decide) hsp
  rw [hcode, exec_append]
  refine ⟨?_, hother .rsi (by decide)⟩
  change Mem.store _ (Cpu.regs _ .rdi).toNat 8 (Cpu.regs _ .rsp).toNat = _
  rw [hm, hrsp, hother .rdi (by decide)]
  rfl

/-- A caller's context is saved on its stack, if the word RDI points to is
elsewhere. -/
theorem savedAt_saveContext {c : Cpu} (hsp : 48 ≤ (c.regs .rsp).toNat)
    (hrdi : (c.regs .rdi).toNat + 8 ≤ (c.regs .rsp).toNat - 48 ∨
      (c.regs .rsp).toNat + 8 ≤ (c.regs .rdi).toNat) :
    SavedAt (exec saveContext c).mem ((c.regs .rsp).toNat - 48) c.callContext := by
  rw [(saveContext_spec hsp).1]
  suffices SavedAt (pushWords c.context.words.tail c.mem (c.regs .rsp).toNat).1
      ((c.regs .rsp).toNat - 48) c.callContext from
    this.congr fun y h1 h2 => Mem.store_other (by omega)
  refine ⟨fun i hi => ?_, ?_⟩
  · by_cases hlast : i = 6
    · -- the return address was there before the call
      subst hlast
      have hkept := (pushWords_spec c.context.words.tail c.mem
        (show 8 * c.context.words.tail.length ≤ (c.regs .rsp).toNat from hsp)).2
      rw [show (c.regs .rsp).toNat - 48 + 8 * 6 = (c.regs .rsp).toNat by omega,
        Mem.load_congr fun x h1 _ => hkept x (Or.inr h1)]
      change _ = (UInt64.ofNat (c.mem.load (c.regs .rsp).toNat 8)).toNat
      rw [UInt64.toNat_ofNat', Nat.mod_eq_of_lt (show _ < 2 ^ 64 from Mem.load_lt c.mem 8 _)]
    · have hload := load_pushWords c.context.words.tail c.mem
        (show 8 * c.context.words.tail.length ≤ (c.regs .rsp).toNat from hsp) (5 - i)
        (show 5 - i < 6 by omega)
      rw [show (c.regs .rsp).toNat - 48 + 8 * i = (c.regs .rsp).toNat - 8 * (5 - i + 1) by omega,
        hload]
      match i, hi, (show i < 6 by omega) with
      | 0, _, _ | 1, _, _ | 2, _, _ | 3, _, _ | 4, _, _ | 5, _, _ =>
          exact Nat.mod_eq_of_lt (UInt64.toNat_lt _)
  · change c.regs .rsp + 8 = _
    rw [show (c.regs .rsp).toNat - 48 + 56 = (c.regs .rsp).toNat + 8 by omega, UInt64.ofNat_add,
      UInt64.ofNat_toNat]
    rfl

/-- The bytes `switch_to` may write: the six words below the stack pointer and
the word RDI points to. -/
theorem saveContext_kept {c : Cpu} (hsp : 48 ≤ (c.regs .rsp).toNat) {x : Nat}
    (hstack : x < (c.regs .rsp).toNat - 48 ∨ (c.regs .rsp).toNat ≤ x)
    (hrdi : x < (c.regs .rdi).toNat ∨ (c.regs .rdi).toNat + 8 ≤ x) :
    (exec saveContext c).mem x = c.mem x := by
  rw [(saveContext_spec hsp).1, Mem.store_other hrdi]
  exact (pushWords_spec c.context.words.tail c.mem
    (show 8 * c.context.words.tail.length ≤ (c.regs .rsp).toNat from hsp)).2 x hstack

/-- Loading a saved context puts it into the registers. -/
theorem loadContext_spec {c : Cpu} {x : Context}
    (hsaved : SavedAt c.mem (c.regs .rsi).toNat x) (hroom : (c.regs .rsi).toNat + 56 ≤ 2 ^ 64) :
    (exec loadContext c).context = x ∧ (exec loadContext c).mem = c.mem := by
  have hcode : loadContext
      = .movq .rsi .rsp :: (calleeSaved.reverse.map .popq ++ [.ret]) := rfl
  have hsp : ((Instr.movq .rsi .rsp).exec c).regs .rsp = c.regs .rsi := Cpu.set_self ..
  obtain ⟨hm, hrsp, hpop⟩ := exec_pops calleeSaved.reverse ((Instr.movq .rsi .rsp).exec c)
    (by decide) (by decide) (by
      rw [hsp]
      change _ + 48 < _
      omega)
  rw [hsp] at hrsp hpop
  rw [hcode, exec_cons, exec_append]
  generalize exec (calleeSaved.reverse.map .popq) ((Instr.movq .rsi .rsp).exec c) = d
    at hm hrsp hpop ⊢
  have hword : ∀ i (hi : i < 7), UInt64.ofNat (c.mem.load ((c.regs .rsi).toNat + 8 * i) 8)
      = UInt64.ofNat (x.words.reverse.get ⟨i, hi⟩) := fun i hi => by rw [hsaved.words i hi]
  have hreg : ∀ i (hi : i < 6), d.regs (calleeSaved.reverse.get ⟨i, hi⟩)
      = UInt64.ofNat (x.words.reverse.get ⟨i, Nat.lt_succ_of_lt hi⟩) := fun i hi =>
    (hpop i hi).trans (hword i (Nat.lt_succ_of_lt hi))
  have hrip : d.word (d.regs .rsp) = UInt64.ofNat x.rip.toNat := by
    rw [Cpu.word, WordStack.word, hm, hrsp, UInt64.toNat_ofNat']
    change UInt64.ofNat (c.mem.load (((c.regs .rsi).toNat + 48) % 2 ^ 64) 8) = _
    rw [Nat.mod_eq_of_lt (by omega)]
    exact hword 6 (by decide)
  have hend : d.regs .rsp + 8 = x.rsp := by
    rw [hrsp, hsaved.rsp]
    change UInt64.ofNat ((c.regs .rsi).toNat + 48) + UInt64.ofNat 8 = _
    rw [← UInt64.ofNat_add]
  refine ⟨?_, hm⟩
  have hregs : (exec [Instr.ret] d).context =
      ⟨d.word (d.regs .rsp), d.regs .rbx, d.regs .rbp, d.regs .r12, d.regs .r13, d.regs .r14,
        d.regs .r15, d.regs .rsp + 8⟩ := rfl
  rw [hregs, hrip, hend, show d.regs .r15 = _ from hreg 0 (by decide),
    show d.regs .r14 = _ from hreg 1 (by decide), show d.regs .r13 = _ from hreg 2 (by decide),
    show d.regs .r12 = _ from hreg 3 (by decide), show d.regs .rbp = _ from hreg 4 (by decide),
    show d.regs .rbx = _ from hreg 5 (by decide)]
  simp [Context.words, UInt64.ofNat_toNat]

end TunaOs
