import TunaOs.Lib.Fair

/-!
# Programs that use ports

A program is a tree of port accesses.  `poll` is the loop that reads a port until one of some
bits is set.  A device answers reads and writes, and has events of its own, which come between
any two accesses: a run is a schedule of turns of the processor and events of the device.

`run_outs` and `eventually_outs` are the rules for a sequence of writes that sets a device up:
what events leave alone is at the end what the writes make of it.
-/

namespace Port

open Fair (run after Often)

/-- A device: what reads and writes of ports do, and what events do. -/
structure Device (D E : Type) where
  inb : D → UInt16 → UInt8 × D
  outb : D → UInt16 → UInt8 → D
  event : D → E → D

/-- A program. -/
inductive Prog (α : Type)
  | ret (a : α)
  | outb (port : UInt16) (value : UInt8) (next : Prog α)
  | inb (port : UInt16) (next : UInt8 → Prog α)
  /-- `while (!(inb(port) & mask)) {}`. -/
  | poll (port : UInt16) (mask : UInt8) (next : Prog α)

section

variable {α β : Type}

def Prog.bind : Prog α → (α → Prog β) → Prog β
  | ret a, f => f a
  | outb port value next, f => .outb port value (next.bind f)
  | inb port next, f => .inb port fun v => (next v).bind f
  | poll port mask next, f => .poll port mask (next.bind f)

/-- A sequence of writes. -/
def outs : List (UInt16 × UInt8) → Prog Unit
  | [] => .ret ()
  | (port, value) :: l => .outb port value (outs l)

theorem outs_append (f : Unit → Prog β) : ∀ l₁ l₂ : List (UInt16 × UInt8),
    (outs (l₁ ++ l₂)).bind f = (outs l₁).bind fun _ => (outs l₂).bind f
  | [], _ => rfl
  | (port, value) :: l₁, l₂ => congrArg (Prog.outb port value) (outs_append f l₁ l₂)

/-- Whose turn it is. -/
inductive Turn (E : Type)
  | cpu
  | device (e : E)

variable {D E : Type} (dev : Device D E)

/-- One access of the processor.  A poll that fails is one as well. -/
def Prog.advance : Prog α → D → D × Prog α
  | ret a, d => (d, ret a)
  | outb port value next, d => (dev.outb d port value, next)
  | inb port next, d => ((dev.inb d port).2, next (dev.inb d port).1)
  | poll port mask next, d =>
      ((dev.inb d port).2, if (dev.inb d port).1 &&& mask = 0 then poll port mask next else next)

/-- One turn. -/
def turn : Turn E → D × Prog α → D × Prog α
  | .cpu, s => s.2.advance dev s.1
  | .device e, s => (dev.event s.1 e, s.2)

end

/-! ## Programs that leave a device alone -/

section

variable {α D E : Type} {dev : Device D E} {P : UInt16 → Prop}

/-- The program never writes to the ports `P`. -/
def Prog.Avoids (P : UInt16 → Prop) : Prog α → Prop
  | ret _ => True
  | outb port _ next => ¬ P port ∧ next.Avoids P
  | inb _ next => ∀ v, (next v).Avoids P
  | poll _ _ next => next.Avoids P

/-- A device that has no other ports, and does not change when it is read, stays as it is. -/
theorem Prog.Avoids.advance {p : Prog α} (h : p.Avoids P) (hin : ∀ d port, (dev.inb d port).2 = d)
    (hout : ∀ d port v, ¬ P port → dev.outb d port v = d) (d : D) :
    (p.advance dev d).1 = d ∧ (p.advance dev d).2.Avoids P := by
  cases p with
  | ret a => exact ⟨rfl, h⟩
  | outb port value next => exact ⟨hout d port value h.1, h.2⟩
  | inb port next => exact ⟨hin d port, h _⟩
  | poll port mask next =>
      refine ⟨hin d port, ?_⟩
      rw [Prog.advance]
      split
      · exact h
      · exact h

end

/-! ## Progress -/

section

variable {α D E : Type} {dev : Device D E}

/-- The program is at `p` and the device in a state of `P`. -/
def At (P : D → Prop) (p : Prog α) (s : D × Prog α) : Prop := P s.1 ∧ s.2 = p

/-- What events keep is there at the processor's turn. -/
theorem eventually_cpu {P : D → Prop} {p : Prog α} {G : D × Prog α → Prop}
    (hevent : ∀ d e, P d → P (dev.event d e)) (hcpu : ∀ d, P d → G (p.advance dev d))
    {sched : Nat → Turn E} (hoften : Often sched (· = .cpu)) {s : D × Prog α} (hs : At P p s) :
    ∃ n, G (run (turn dev) sched s n) := by
  refine Fair.eventually_of_helpful (J := At P p) (fun _ => 0) ?_ ?_ hoften hs
  · rintro t ⟨d, q⟩ ⟨hd, rfl⟩ -
    cases t with
    | cpu => exact Or.inl (hcpu d hd)
    | device e => exact Or.inr ⟨⟨hevent d e hd, rfl⟩, Nat.le_refl _⟩
  · rintro t ⟨d, q⟩ rfl ⟨hd, rfl⟩ -
    exact Or.inl (hcpu d hd)

/-- A device in the states `I` that is polled for a condition: the condition stays until the
processor does something else, and events of some kind bring it about. -/
structure Polls (dev : Device D E) (port : UInt16) (mask : UInt8) (I cond : D → Prop)
    (helpful : E → Prop) (μ : D → Nat) : Prop where
  sees : ∀ d, I d → ((dev.inb d port).1 &&& mask = 0 ↔ ¬ cond d)
  read : ∀ d, I d → I (dev.inb d port).2 ∧ (cond d → cond (dev.inb d port).2) ∧
    μ (dev.inb d port).2 ≤ μ d
  event : ∀ d e, I d → I (dev.event d e) ∧ (cond d → cond (dev.event d e)) ∧
    μ (dev.event d e) ≤ μ d
  helps : ∀ d e, I d → helpful e → ¬ cond d → cond (dev.event d e) ∨ μ (dev.event d e) < μ d

section

variable {port : UInt16} {mask : UInt8} {I cond : D → Prop} {helpful : E → Prop} {μ : D → Nat}

/-- The condition comes about. -/
theorem Polls.eventually_cond (h : Polls dev port mask I cond helpful μ) {sched : Nat → Turn E}
    (hhelp : Often sched fun t => ∃ e, helpful e ∧ t = .device e) {next : Prog α}
    {s : D × Prog α} (hs : At I (.poll port mask next) s) :
    ∃ n, At (fun d => I d ∧ cond d) (.poll port mask next) (run (turn dev) sched s n) := by
  refine Fair.eventually_of_helpful (J := At I (.poll port mask next)) (fun s => μ s.1) ?_ ?_
    hhelp hs
  · rintro t ⟨d, p⟩ ⟨hI, rfl⟩ hno
    have hfalse : ¬ cond d := fun hc => hno ⟨⟨hI, hc⟩, rfl⟩
    cases t with
    | cpu =>
        obtain ⟨hI', -, hμ⟩ := h.read d hI
        exact Or.inr ⟨⟨hI', if_pos ((h.sees d hI).mpr hfalse)⟩, hμ⟩
    | device e =>
        obtain ⟨hI', -, hμ⟩ := h.event d e hI
        exact Or.inr ⟨⟨hI', rfl⟩, hμ⟩
  · rintro t ⟨d, p⟩ ⟨e, he, rfl⟩ ⟨hI, rfl⟩ hno
    have hfalse : ¬ cond d := fun hc => hno ⟨⟨hI, hc⟩, rfl⟩
    have hI' := (h.event d e hI).1
    rcases h.helps d e hI he hfalse with hc | hlt
    · exact Or.inl ⟨⟨hI', hc⟩, rfl⟩
    · exact Or.inr ⟨⟨hI', rfl⟩, hlt⟩

/-- The loop ends, with the condition. -/
theorem Polls.eventually (h : Polls dev port mask I cond helpful μ) {sched : Nat → Turn E}
    (hcpu : Often sched (· = .cpu)) (hhelp : Often sched fun t => ∃ e, helpful e ∧ t = .device e)
    {next : Prog α} {s : D × Prog α} (hs : At I (.poll port mask next) s) :
    ∃ n, At (fun d => I d ∧ cond d) next (run (turn dev) sched s n) := by
  obtain ⟨n, hn⟩ := h.eventually_cond hhelp hs
  have hevent : ∀ d e, I d ∧ cond d → I (dev.event d e) ∧ cond (dev.event d e) := by
    rintro d e ⟨hI, hc⟩
    obtain ⟨hI', hkeep, -⟩ := h.event d e hI
    exact ⟨hI', hkeep hc⟩
  have hread : ∀ d, I d ∧ cond d →
      At (fun d => I d ∧ cond d) next ((Prog.poll port mask next).advance dev d) := by
    rintro d ⟨hI, hc⟩
    obtain ⟨hI', hkeep, -⟩ := h.read d hI
    exact ⟨⟨hI', hkeep hc⟩, if_neg fun h0 => (h.sees d hI).mp h0 hc⟩
  obtain ⟨m, hm⟩ := eventually_cpu hevent hread (hcpu.after n) hn
  exact ⟨n + m, by rwa [Fair.run_add]⟩

end

end

/-! ## Setting a device up -/

section

variable {α D E C : Type} {dev : Device D E} {f : D → C} {g : C → UInt16 × UInt8 → C}

/-- A part of the device that events leave alone. -/
structure Settings (dev : Device D E) (f : D → C) (g : C → UInt16 × UInt8 → C) : Prop where
  event : ∀ d e, f (dev.event d e) = f d
  outb : ∀ d port value, f (dev.outb d port value) = g (f d) (port, value)

/-- Some of the writes of `l` are left. -/
def Pending (f : D → C) (g : C → UInt16 × UInt8 → C) (l : List (UInt16 × UInt8))
    (k : Unit → Prog α) (c : C) (s : D × Prog α) : Prop :=
  ∃ done rest, l = done ++ rest ∧ rest ≠ [] ∧ s.2 = (outs rest).bind k ∧
    f s.1 = done.foldl g c

/-- The writes are done. -/
def Done (f : D → C) (g : C → UInt16 × UInt8 → C) (l : List (UInt16 × UInt8))
    (k : Unit → Prog α) (c : C) (s : D × Prog α) : Prop :=
  s.2 = k () ∧ f s.1 = l.foldl g c

theorem Settings.turn (hf : Settings dev f g) {l : List (UInt16 × UInt8)} {k : Unit → Prog α}
    {c : C} {s : D × Prog α} (h : Pending f g l k c s) (t : Turn E) :
    Done f g l k c (turn dev t s) ∨ Pending f g l k c (turn dev t s) := by
  obtain ⟨done, rest, hl, hne, hp, hd⟩ := h
  obtain ⟨d, p⟩ := s
  obtain rfl : p = (outs rest).bind k := hp
  cases t with
  | device e => exact Or.inr ⟨done, rest, hl, hne, rfl, (hf.event d e).trans hd⟩
  | cpu =>
      cases rest with
      | nil => exact absurd rfl hne
      | cons w rest =>
          have hstep : f (dev.outb d w.1 w.2) = (done ++ [w]).foldl g c := by
            rw [hf.outb, hd, List.foldl_append]
            rfl
          cases rest with
          | nil =>
              refine Or.inl ⟨rfl, ?_⟩
              rw [hl]
              exact hstep
          | cons w' rest =>
              exact Or.inr ⟨done ++ [w], w' :: rest, by rw [hl, List.append_assoc]; rfl,
                List.cons_ne_nil _ _, rfl, hstep⟩

/-- If the processor gets its turns, they are all done at some time. -/
theorem eventually_outs (hf : Settings dev f g) (k : Unit → Prog α) :
    ∀ (l : List (UInt16 × UInt8)) (d : D) {sched : Nat → Turn E}, Often sched (· = .cpu) →
      ∃ n, Done f g l k (f d) (run (turn dev) sched (d, (outs l).bind k) n)
  | [], _, _, _ => ⟨0, rfl, rfl⟩
  | w :: l, d, sched, hoften => by
      have hcpu : ∀ d', f d' = f d → At (fun d' => f d' = g (f d) w) ((outs l).bind k)
          (((outs (w :: l)).bind k).advance dev d') := fun d' hd' =>
        ⟨(hf.outb d' w.1 w.2).trans (congrArg (g · w) hd'), rfl⟩
      obtain ⟨n, hd, hp⟩ := eventually_cpu (fun d' e hd' => (hf.event d' e).trans hd') hcpu hoften
        (s := (d, (outs (w :: l)).bind k)) ⟨rfl, rfl⟩
      obtain ⟨m, hdone⟩ := eventually_outs hf k l (run (turn dev) sched _ n).1 (hoften.after n)
      refine ⟨n + m, ?_⟩
      rw [Fair.run_add, show run (turn dev) sched _ n = (_, (outs l).bind k) from Prod.ext rfl hp]
      rw [hd] at hdone
      exact hdone

end

end Port
