import TunaOs.Vmm.Spec
import TunaOs.Vmm.Supply

/-!
# Mapping and unmapping pages

`vmm_map_page` goes down three levels of tables and then sets the leaf entry.  It
draws one frame for each table that is missing on the way: `Mach.missing` is that
number.  If the allocator has so many frames they are drawn and the page is mapped,
and otherwise the allocator runs dry and nothing is mapped.  Which tables there are
is a matter of paths alone (`Mach.Has`), so counting needs no addresses of frames.

`vmmMapPage_walk` says what the way down has done; what `vmm_map_page` does to the
leaf entries, to the allocator and to the events is read off from it.
-/

namespace TunaOs

open Word

/-! ## The tables that are there -/

section

variable {σ : Type} {M M' : Mach σ}

/-- There is a table at the path. -/
def Mach.Has (M : Mach σ) (q : List (Fin 512)) : Prop := (M.tableAt q).isSome = true

instance (M : Mach σ) (q : List (Fin 512)) : Decidable (M.Has q) :=
  inferInstanceAs (Decidable (_ = true))

/-- The number of tables at a path: none or one to be made. -/
def Mach.lacks (M : Mach σ) (q : List (Fin 512)) : Nat := if M.Has q then 0 else 1

/-- The number of tables that are missing for an address. -/
def Mach.missing (M : Mach σ) (a : Nat) : Nat :=
  M.lacks [tableIndex 39 a] + M.lacks [tableIndex 39 a, tableIndex 30 a] + M.lacks (pathOf a)

theorem Mach.has_congr {q : List (Fin 512)} (h : M'.tableAt q = M.tableAt q) :
    M'.Has q ↔ M.Has q := by
  rw [Mach.Has, Mach.Has, h]

theorem Mach.lacks_congr {q : List (Fin 512)} (h : M'.Has q ↔ M.Has q) :
    M'.lacks q = M.lacks q := by
  rw [Mach.lacks, Mach.lacks]
  simp only [h]

theorem prefix_pathOf {q : List (Fin 512)} {a : Nat} :
    q <+: pathOf a ↔ q = [] ∨ q = [tableIndex 39 a] ∨ q = [tableIndex 39 a, tableIndex 30 a]
      ∨ q = pathOf a := by
  rw [pathOf]
  constructor
  · rintro ⟨r, hr⟩
    rcases q with _ | ⟨i, _ | ⟨j, _ | ⟨l, _ | ⟨o, q⟩⟩⟩⟩
    · exact Or.inl rfl
    · simp only [List.cons_append, List.nil_append, List.cons.injEq] at hr
      simp [hr.1]
    · simp only [List.cons_append, List.nil_append, List.cons.injEq] at hr
      simp [hr.1, hr.2.1]
    · simp only [List.cons_append, List.nil_append, List.cons.injEq] at hr
      simp [hr.1, hr.2.1, hr.2.2.1]
    · simp at hr
  · rintro (rfl | rfl | rfl | rfl) <;> simp

/-- What is above a table that is there is there. -/
theorem Mach.Has.above {p q : List (Fin 512)} (h : M.Has q) (hp : p <+: q) : M.Has p := by
  obtain ⟨r, rfl⟩ := hp
  obtain ⟨t, ht⟩ := Option.isSome_iff_exists.mp h
  obtain ⟨u, hu, -⟩ := Radix.follow_of_append ht
  exact Option.isSome_iff_exists.mpr ⟨u, hu⟩

/-- Nothing is missing where the last table is there. -/
theorem Mach.missing_of_has {a : Nat} (h : M.Has (pathOf a)) : M.missing a = 0 := by
  have h1 : M.Has [tableIndex 39 a] := h.above (prefix_pathOf.mpr (by simp))
  have h2 : M.Has [tableIndex 39 a, tableIndex 30 a] := h.above (prefix_pathOf.mpr (by simp))
  rw [Mach.missing, Mach.lacks, Mach.lacks, Mach.lacks, if_pos h, if_pos h1, if_pos h2]

/-- Loading CR3 changes neither the allocator nor the tables. -/
theorem loadCr3_keeps (table : Nat) (M : Mach σ) :
    (loadCr3 table M).2.frames = M.frames ∧ (loadCr3 table M).2.oom = M.oom ∧
      ∀ q, (loadCr3 table M).2.Has q ↔ M.Has q := ⟨rfl, rfl, fun _ => Iff.rfl⟩

end

section

variable {σ : Type} [FrameSource σ] {M M' : Mach σ} {t flags : Nat}

/-! ## The way down -/

theorem present_iff {e : Nat} : e &&& vmmFlagPresent ≠ 0 ↔ e.testBit 0 = true :=
  and_bit_ne_zero (i := 0)

omit [FrameSource σ] in
theorem load64_entry (h : M.bus = .phys) (t : Nat) (i : Fin 512) :
    load64 (t + 8 * i) M = (entry M.mem t i, M.touch (t + 8 * i)) := by
  simp only [load64, Mach.peek64_phys h, entry]

/-- `descend` with its accesses done. -/
theorem descend_eq (h : M.bus = .phys) (shift virt flags t : Nat) :
    descend shift virt flags t M =
      let i := tableIndex shift virt
      let e := entry M.mem t i
      let r := allocTable (M.touch (t + 8 * i))
      if e.testBit 0 = true then
        (some (e &&& pageMask), (M.touch (t + 8 * i)).store64 (t + 8 * i) (e ||| flags))
      else if r.1 = 0 then (none, r.2)
      else (some r.1, r.2.store64 (t + 8 * i) (r.1 ||| flags)) := by
  simp only [descend, Act.bind_apply, load64_entry h, present_iff]
  split
  · rfl
  · rw [Act.bind_apply]
    split <;> rfl

theorem allocTable_frames (M : Mach σ) :
    (allocTable M).2.frames = (FrameSource.alloc M.frames).1 := by
  by_cases h0 : (allocFrame M).1 = 0
  · rw [allocTable_zero h0]
    rfl
  · simp only [allocTable, Act.bind_apply, h0, if_false, Act.pure_apply]
    have hloop := forLoop_induct (n := 512) (fun i => store64 ((allocFrame M).1 + 8 * i) 0)
      (M := (allocFrame M).2) (Q := fun _ N => N.frames = (allocFrame M).2.frames) rfl
      fun i N _ hN => (N.store64_frames _ _).trans hN
    exact hloop

/-- Zeroing a frame in hand changes no table. -/
theorem InHand.tableAt_eq {N : Mach σ} {f : Nat} {P : Nat → Prop} (h : InHand P M N f)
    (hinv : VmInv M) (hm : ∀ x, frameOf x ≠ f → N.mem x = M.mem x) {q : List (Fin 512)}
    (hq : q.length ≤ 3) : N.tableAt q = M.tableAt q := by
  have hentry : ∀ u, M.IsTable u → ∀ j, entry N.mem u j = entry M.mem u j := by
    intro u hu j
    refine Mem.load_congr fun x h1 h2 => hm x fun hx => ?_
    have h0 := hinv.aligned hu
    have hj := j.isLt
    have huf : u = f := by
      simp only [frameOf] at hx
      omega
    exact h.plain (h.grows.isTable (huf ▸ hu))
  obtain ⟨hg, -⟩ := hinv.tables.congr (N := fun _ => False) hentry
  rw [Mach.tableAt, h.grows.pml4]
  exact hg.tableAt_eq hq fun _ => False.elim

/-- Tables were read and made between `M` and `N`, but no page was mapped. -/
structure Descended (M N : Mach σ) : Prop where
  inv : VmInv N
  grows : Grows (fun _ => False) M N
  heapFrames : N.heapFrames = M.heapFrames
  events : N.events = M.events

theorem Descended.trans {N N' : Mach σ} (h1 : Descended M N) (h2 : Descended N N') :
    Descended M N' :=
  ⟨h2.inv, h1.grows.trans h1.inv h2.grows, h2.heapFrames.trans h1.heapFrames,
    h2.events.trans h1.events⟩

/-- From the table at `p` the step leads to the table `u` at `q`, the only one that can be
new. -/
structure LeadsTo (M M' : Mach σ) (flags : Nat) (p q : List (Fin 512)) (u : Nat) : Prop where
  oom : M'.oom = M.oom
  table : M'.tableAt q = some u
  user : flags.testBit 2 = true → UserPath M.mem M.pml4 p → UserPath M'.mem M'.pml4 q
  drawn : Drawn M.frames (M.lacks q) M'.frames
  has : ∀ r, r.length ≤ 3 → (M'.Has r ↔ M.Has r ∨ r = q)
  /-- A new table is the next free frame. -/
  fresh : ¬ M.Has q → u = (FrameSource.alloc M.frames).2
  /-- The accesses are to the table at `p` and to a new table. -/
  calm : M.cr3 = some M.pml4 → ∀ t, M.tableAt p = some t → (M'.stray = false ↔
    M.stray = false ∧ SelfMapped (M.leaf t) t ∧ (¬ M.Has q → SelfMapped (M.leaf u) u))

section

variable {p : List (Fin 512)} {i : Fin 512}

omit [FrameSource σ] in
theorem has_concat (ht : M.tableAt p = some t) :
    M.Has (p ++ [i]) ↔ (entry M.mem t i).testBit 0 = true := by
  rw [Mach.Has, Mach.tableAt, tableAt_concat ht, childOf_isSome]

/-- A table that is there gets the flags. -/
theorem leadsTo_present (hinv : VmInv M) (hp : p.length < 3) (ht : M.tableAt p = some t)
    (hf : flags < 8) (hpres : (entry M.mem t i).testBit 0 = true)
    (hM' : M' = (M.touch (t + 8 * i)).store64 (t + 8 * i) (entry M.mem t i ||| flags)) :
    VmInv M' ∧ Grows (fun _ => False) M M' ∧
      LeadsTo M M' flags p (p ++ [i]) (entry M.mem t i &&& pageMask) := by
  have hIs : M.IsTable t := ⟨p, by omega, ht⟩
  have halign := hinv.aligned hIs
  have hplen : (p ++ [i]).length ≤ 3 := by
    rw [List.length_append, List.length_singleton]
    omega
  have hinvt := hinv.touch (t + 8 * i)
  have hst := setsEntry_store (m := M.mem) halign i (or_flags_lt hf (entry_lt M.mem t i))
  obtain ⟨hg, hleaf⟩ := hinv.tables.flag (N := fun _ => False) hp ht hpres hf hst
  obtain ⟨hinv', hgrows⟩ := (Grows.touch hinv hIs i).storeEntry hinvt hIs i _ hg
    (fun _ => False.elim) (fun a _ => hleaf a)
  rw [← hM'] at hinv' hgrows
  have htable : M.tableAt (p ++ [i]) = some (entry M.mem t i &&& pageMask) := by
    rw [Mach.tableAt, tableAt_concat ht, childOf_of_present hpres]
  refine ⟨hinv', hgrows, by simp [hM'], hgrows.path _ _ hplen htable, ?_, ?_, fun q hq => ?_, ?_,
    ?_⟩
  · intro hb2 hup
    refine (hgrows.userPath p t (by omega) ht hup).concat (hgrows.path p t (by omega) ht) ?_
    rw [hM', Mach.store64_phys hinvt.bus, Mach.withMem_mem, Mach.touch_mem, hst t i halign,
      if_pos ⟨rfl, rfl⟩]
    exact testBit_or_right hb2
  · rw [Mach.lacks, if_pos ((has_concat ht).mpr hpres), hM', Mach.store64_frames]
    exact .zero _
  · have hsame : M'.Has q ↔ M.Has q := by
      rw [hM', Mach.store64_phys hinvt.bus]
      exact Mach.has_congr (hg.tableAt_eq hq fun _ => False.elim)
    rw [hsame]
    exact ⟨Or.inl, fun h => h.elim id fun heq => heq ▸ (has_concat ht).mpr hpres⟩
  · exact fun hno => absurd ((has_concat ht).mpr hpres) hno
  · intro hcr3 t' ht'
    obtain rfl : t = t' := Option.some.inj (ht.symm.trans ht')
    rw [hM', Mach.store64_stray, hinvt.touch_frame hcr3 (frameOf_slot halign i),
      hinv.touch_frame hcr3 (frameOf_slot halign i)]
    exact ⟨fun h => ⟨h.1.1, h.2, fun hno => absurd ((has_concat ht).mpr hpres) hno⟩,
      fun h => ⟨⟨h.1, h.2.1⟩, h.2.1⟩⟩

/-- A zeroed frame in hand becomes the table. -/
theorem leadsTo_new {N : Mach σ} {f : Nat} (hinv : VmInv M) (hp : p.length < 3)
    (ht : M.tableAt p = some t) (hf : flags < 8) (hb0 : flags.testBit 0 = true)
    (hb1 : flags.testBit 1 = true) (hpres : ¬ (entry M.mem t i).testBit 0 = true)
    (hhand : InHand (fun _ => False) (M.touch (t + 8 * i)) N f)
    (hm : ∀ x, frameOf x ≠ f → N.mem x = M.mem x) (hz : ∀ j, entry N.mem f j = 0)
    (hdrawn : Drawn M.frames 1 N.frames) (hfresh : f = (FrameSource.alloc M.frames).2)
    (hcalm : M.cr3 = some M.pml4 → (N.stray = false ↔
      (M.touch (t + 8 * i)).stray = false ∧ SelfMapped (M.leaf f) f))
    (hM' : M' = N.store64 (t + 8 * i) (f ||| flags)) :
    VmInv M' ∧ Grows (fun _ => False) M M' ∧ LeadsTo M M' flags p (p ++ [i]) f := by
  have hIs : M.IsTable t := ⟨p, by omega, ht⟩
  have halign := hinv.aligned hIs
  have hplen : (p ++ [i]).length ≤ 3 := by
    rw [List.length_append, List.length_singleton]
    omega
  have hinvt := hinv.touch (t + 8 * i)
  obtain ⟨hf0, -, hf64⟩ := FrameSource.avail_frame hhand.drawn
  -- the directory is not the new table, and its entry is still absent
  have ht' : N.tableAt p = some t := hhand.grows.path p t (by omega) ht
  have htf : t ≠ f := fun h => hhand.plain ⟨p, by omega, h ▸ ht'⟩
  have hpres' : ¬ (entry N.mem t i).testBit 0 = true := by
    rwa [show entry N.mem t i = entry M.mem t i from Mem.load_congr fun x h1 h2 => hm x ?_]
    have hi := i.isLt
    simp only [frameOf]
    omega
  have hst := setsEntry_store (m := N.mem) halign i (or_flags_lt hf (show f < 2 ^ 64 by omega))
  obtain ⟨hg, hnew, hleaf⟩ := hhand.inv.tables.link
    ⟨ht', hp, hpres', hhand.plain, hf0, hf64, hz, hf, hb0, hb1, hst⟩
  obtain ⟨hinv', hgrows⟩ := ((Grows.touch hinv hIs i).trans hinvt hhand.grows).storeEntry
    hhand.inv ⟨p, by omega, ht'⟩ i _ hg (fun u hu => hu ▸ ⟨hhand.drawn, hhand.taken⟩)
    (fun a _ => hleaf a)
  rw [← hM'] at hinv' hgrows
  have hlacks : ¬ M.Has (p ++ [i]) := fun h => hpres ((has_concat ht).mp h)
  refine ⟨hinv', hgrows, by simp [hM', hhand.oom], ?_, ?_, ?_, fun q hq => ?_, fun _ => hfresh, ?_⟩
  · rw [hM', Mach.store64_phys hhand.inv.bus]
    exact hnew
  · intro hb2 hup
    refine (hgrows.userPath p t (by omega) ht hup).concat (hgrows.path p t (by omega) ht) ?_
    rw [hM', Mach.store64_phys hhand.inv.bus, Mach.withMem_mem, hst t i halign, if_pos ⟨rfl, rfl⟩]
    exact testBit_or_right hb2
  · rw [Mach.lacks, if_neg hlacks, hM', Mach.store64_frames]
    exact hdrawn
  · rw [hM', Mach.store64_phys hhand.inv.bus]
    by_cases hqp : q = p ++ [i]
    · rw [hqp]
      exact ⟨fun _ => Or.inr rfl, fun _ => Option.isSome_iff_exists.mpr ⟨f, hnew⟩⟩
    · have hsame := hg.tableAt_eq hq fun u (hu : u = f) hqu =>
        hqp (hg.tables.unshared q (p ++ [i]) f hq hplen (hqu.trans (congrArg some hu)) hnew)
      have hiff : ((N.touch (t + 8 * i)).withMem
          (N.mem.store (t + 8 * i) 8 (f ||| flags))).Has q ↔ M.Has q :=
        Mach.has_congr (hsame.trans (hhand.tableAt_eq hinvt hm hq))
      rw [hiff]
      exact ⟨Or.inl, fun h => h.resolve_right hqp⟩
  · intro hcr3 t' ht''
    obtain rfl : t = t' := Option.some.inj (ht.symm.trans ht'')
    have hcr3N : N.cr3 = some N.pml4 := by rw [hhand.grows.cr3, hhand.grows.pml4]; exact hcr3
    have hleafN : N.leaf t = M.leaf t := hhand.grows.leaf t id
    rw [hM', Mach.store64_stray, hhand.inv.touch_frame hcr3N (frameOf_slot halign i), hleafN,
      hcalm hcr3, hinv.touch_frame hcr3 (frameOf_slot halign i)]
    exact ⟨fun h => ⟨h.1.1.1, h.2, fun _ => h.1.2⟩, fun h => ⟨⟨⟨h.1, h.2.1⟩, h.2.2 hlacks⟩, h.2.1⟩⟩

end

/-- Making a table accesses its frame. -/
theorem allocTable_calm (hinv : VmInv M) (hcr3 : M.cr3 = some M.pml4) (h0 : (allocFrame M).1 ≠ 0) :
    (allocTable M).2.stray = false ↔
      M.stray = false ∧ SelfMapped (M.leaf (allocFrame M).1) (allocFrame M).1 := by
  simp only [allocTable, Act.bind_apply, h0, if_false, Act.pure_apply]
  obtain ⟨-, ⟨hz, -⟩ | ⟨-, hhand⟩⟩ := allocFrame_spec (fun _ => False) hinv
  · exact absurd hz h0
  have hstray : (allocFrame M).2.stray = M.stray := rfl
  generalize (allocFrame M).1 = f at hhand
  generalize (allocFrame M).2 = N at hhand hstray
  have hf0 := (FrameSource.avail_frame hhand.drawn).1
  -- the first store decides
  have hloop := forLoop_induct (n := 512) (fun i => store64 (f + 8 * i) 0) (M := N)
    (Q := fun i K => InHand (fun _ => False) M K f ∧ (K.stray = false ↔
      M.stray = false ∧ (0 < i → SelfMapped (M.leaf f) f)))
    ⟨hhand, by simp [hstray]⟩ ?_
  · rw [hloop.2]
    simp
  · rintro i K hi ⟨hK, hiff⟩
    have hfr : frameOf (f + 8 * i) = f := by
      simp only [frameOf]
      omega
    simp only [store64, Mach.store64_phys hK.inv.bus]
    refine ⟨hK.write hfr fun x hx => Mem.store_other ?_, ?_⟩
    · simp only [frameOf] at hx
      omega
    · rw [Mach.withMem_stray, hK.touch_frame hcr3 hfr, hiff]
      exact ⟨fun h => ⟨h.1.1, fun _ => h.2⟩, fun h => ⟨⟨h.1, fun _ => h.2 (Nat.succ_pos i)⟩,
        h.2 (Nat.succ_pos i)⟩⟩

/-- Going down one level changes no translation.  It makes the table if it is
missing, and only that one, and fails only if there is no frame for it. -/
theorem descend_spec {p : List (Fin 512)} (shift virt : Nat) (hinv : VmInv M) (hp : p.length < 3)
    (ht : M.tableAt p = some t) (hf : flags < 8) (hb0 : flags.testBit 0 = true)
    (hb1 : flags.testBit 1 = true) {o : Option Nat}
    (hr : descend shift virt flags t M = (o, M')) :
    Descended M M' ∧
    (o = none ∧ M'.oom = true ∧ M'.tableAt (p ++ [tableIndex shift virt]) = none
        ∧ RanDry M.frames (M.lacks (p ++ [tableIndex shift virt])) M'.frames
      ∨ ∃ u, o = some u ∧ LeadsTo M M' flags p (p ++ [tableIndex shift virt]) u) := by
  have hev : M'.events = M.events := by
    have h := (silent_events M.events).descend shift virt flags t M rfl
    rwa [hr] at h
  rw [descend_eq hinv.bus] at hr
  generalize tableIndex shift virt = i at hr ⊢
  have hinvt := hinv.touch (t + 8 * i)
  by_cases hpres : (entry M.mem t i).testBit 0 = true
  · -- the table is there
    simp only [if_pos hpres] at hr
    obtain ⟨rfl, hM'⟩ := Prod.mk.inj hr
    obtain ⟨hinv', hgrows, hleads⟩ := leadsTo_present hinv hp ht hf hpres hM'.symm
    exact ⟨⟨hinv', hgrows, by simp [← hM'], hev⟩, Or.inr ⟨_, rfl, hleads⟩⟩
  · simp only [if_neg hpres] at hr
    have hfst := allocTable_fst (M.touch (t + 8 * i))
    have hfr := allocTable_frames (M.touch (t + 8 * i))
    rcases allocTable_spec (fun _ => False) hinvt with
      ⟨h0, hi, hg, hh, ho, hm⟩ | ⟨h0, hhand, hm, hz⟩
    · -- there is no frame for it
      simp only [h0, if_true] at hr
      obtain ⟨rfl, rfl⟩ := hr
      have hgrows := (Grows.touch hinv ⟨p, by omega, ht⟩ i).trans hinvt hg
      refine ⟨⟨hi, hgrows, hh, hev⟩, Or.inl ⟨rfl, ho, ?_, ?_⟩⟩
      · rw [Mach.tableAt, hm, hg.pml4]
        exact (tableAt_concat ht).trans (childOf_of_absent hpres)
      · have hlacks : M.lacks (p ++ [i]) = 1 := if_neg fun h => hpres ((has_concat ht).mp h)
        rw [hfr, hlacks]
        exact .one (hfst.symm.trans h0)
    · -- a new table
      simp only [h0, if_false] at hr
      obtain ⟨rfl, hM'⟩ := Prod.mk.inj hr
      have hdrawn : Drawn M.frames 1 (allocTable (M.touch (t + 8 * i))).2.frames := by
        rw [hfr]
        exact .one fun h => h0 (hfst.trans h)
      obtain ⟨hinv', hgrows, hleads⟩ :=
        leadsTo_new hinv hp ht hf hb0 hb1 hpres hhand hm hz hdrawn hfst (fun hcr3 => by
          rw [hfst]
          exact allocTable_calm hinvt hcr3 (hfst ▸ h0)) hM'.symm
      exact ⟨⟨hinv', hgrows, by simp [← hM', hhand.heapFrames], hev⟩, Or.inr ⟨_, rfl, hleads⟩⟩

/-! ## `vmm_map_page` -/

/-- Setting the leaf entry of an address whose tables are there. -/
theorem setLeaf_spec {virt e : Nat} (hinv : VmInv M) (ht : M.tableAt (pathOf virt) = some t)
    (he : e < 2 ^ 64) (huser : e.testBit 2 = true → UserPath M.mem M.pml4 (pathOf virt))
    {M' : Mach σ} (hM' : (setLeaf virt t e M).2 = M') :
    VmInv M' ∧ Grows (fun n => n = pageOf virt) M M' ∧ M'.heapFrames = M.heapFrames
      ∧ M'.oom = M.oom ∧ ∀ a, M'.leaf a = if pageOf a = pageOf virt then e else M.leaf a := by
  have hIs : M.IsTable t := isTable_of_path ht
  generalize hi : t + 8 * (tableIndex 12 virt).val = slot
  have hst := setsEntry_store (m := M.mem) (hinv.aligned hIs) (tableIndex 12 virt) he
  obtain ⟨hg, hleaf⟩ := hinv.tables.setLeaf (N := fun _ => False) ht hst huser
  have hinvt := hinv.touch slot
  have hgt : Grows (fun n => n = pageOf virt) M (M.touch slot) := hi ▸ .touch hinv hIs _
  obtain ⟨hinv', hgrows⟩ := hgt.storeEntry hinvt hIs (tableIndex 12 virt) e hg (fun _ => False.elim)
    (fun a ha => (hleaf a).trans (if_neg ha))
  rw [hi] at hinv' hgrows hleaf
  have hmem : ((M.touch slot).store64 slot e).mem = M.mem.store slot 8 e := by
    rw [Mach.store64_phys hinvt.bus]
    rfl
  have hev : M' = { (M.touch slot).store64 slot e with
      events := .leaf virt (M.peek64 slot) e :: ((M.touch slot).store64 slot e).events } := by
    rw [← hM', ← hi]
    rfl
  subst hev
  refine ⟨hinv'.event _, hgrows.event _, ?_, ?_, fun a => ?_⟩
  · simp
  · simp
  · simp only [Mach.leaf, hmem, Mach.store64_pml4]
    exact hleaf a

/-- Setting a leaf entry takes no frame, makes no table and is one event. -/
theorem setLeaf_count {virt e : Nat} (hinv : VmInv M) (ht : M.tableAt (pathOf virt) = some t)
    (he : e < 2 ^ 64) (hM' : (setLeaf virt t e M).2 = M') :
    M'.frames = M.frames ∧ (∀ q, q.length ≤ 3 → M'.tableAt q = M.tableAt q) ∧
      ∃ old, M'.events = .leaf virt old e :: M.events := by
  have hst := setsEntry_store (m := M.mem) (hinv.aligned (isTable_of_path ht))
      (tableIndex 12 virt) he
  obtain ⟨-, hsame⟩ := hinv.tables.setLeaf_same ht hst
  have hrun : M' = (event (.leaf virt (M.peek64 (t + 8 * tableIndex 12 virt)) e)
      ((M.touch (t + 8 * tableIndex 12 virt)).store64 (t + 8 * tableIndex 12 virt) e)).2 := hM'.symm
  rw [Mach.store64_phys (hinv.touch _).bus] at hrun
  subst hrun
  exact ⟨rfl, hsame, _, rfl⟩

theorem intermediateFlags_spec (flags : Nat) :
    intermediateFlags flags < 8 ∧ (intermediateFlags flags).testBit 0 = true
      ∧ (intermediateFlags flags).testBit 1 = true
      ∧ (flags.testBit 2 = true → (intermediateFlags flags).testBit 2 = true) := by
  have huser : flags &&& vmmFlagUser ≠ 0 ↔ flags.testBit 2 = true := and_bit_ne_zero (i := 2)
  unfold intermediateFlags
  simp only [huser]
  split
  case isTrue => exact ⟨by decide, by decide, by decide, fun _ => by decide⟩
  case isFalse h => exact ⟨by decide, by decide, by decide, fun h' => absurd h' h⟩

/-- Setting a leaf entry accesses its table. -/
theorem setLeaf_calm {virt e : Nat} (hinv : VmInv M) (hcr3 : M.cr3 = some M.pml4)
    (ht : M.tableAt (pathOf virt) = some t) :
    (setLeaf virt t e M).2.stray = false ↔ M.stray = false ∧ SelfMapped (M.leaf t) t := by
  have hslot := frameOf_slot (hinv.aligned (isTable_of_path ht)) (tableIndex 12 virt)
  change ((M.touch _).store64 _ e).stray = false ↔ _
  rw [Mach.store64_stray, (hinv.touch _).touch_frame hcr3 hslot, hinv.touch_frame hcr3 hslot]
  exact ⟨fun h => h.1, fun h => ⟨h, h.2⟩⟩

/-- The three steps of `vmm_map_page` when there is a frame for each of them. -/
structure WayDown (M M₁ M₂ N : Mach σ) (flags virt t₁ t₂ t₃ : Nat) : Prop where
  run₁ : descend 39 virt flags M.pml4 M = (some t₁, M₁)
  run₂ : descend 30 virt flags t₁ M₁ = (some t₂, M₂)
  run₃ : descend 21 virt flags t₂ M₂ = (some t₃, N)
  descended₁ : Descended M M₁
  leads₁ : LeadsTo M M₁ flags [] [tableIndex 39 virt] t₁
  descended₂ : Descended M₁ M₂
  leads₂ : LeadsTo M₁ M₂ flags [tableIndex 39 virt] [tableIndex 39 virt, tableIndex 30 virt] t₂
  descended₃ : Descended M₂ N
  leads₃ : LeadsTo M₂ N flags [tableIndex 39 virt, tableIndex 30 virt] (pathOf virt) t₃

namespace WayDown

variable {M₁ M₂ N : Mach σ} {virt t₁ t₂ t₃ : Nat} (h : WayDown M M₁ M₂ N flags virt t₁ t₂ t₃)

include h

theorem descended : Descended M N := (h.descended₁.trans h.descended₂).trans h.descended₃

theorem oom : N.oom = M.oom := by rw [h.leads₃.oom, h.leads₂.oom, h.leads₁.oom]

theorem user (hbit : flags.testBit 2 = true) : UserPath N.mem N.pml4 (pathOf virt) := by
  have hup : UserPath M.mem M.pml4 [] := fun q j r hq => by simp at hq
  exact h.leads₃.user hbit (h.leads₂.user hbit (h.leads₁.user hbit hup))

theorem lacks₂ : M₁.lacks [tableIndex 39 virt, tableIndex 30 virt]
    = M.lacks [tableIndex 39 virt, tableIndex 30 virt] :=
  Mach.lacks_congr ((h.leads₁.has _ (by simp)).trans
    ⟨fun h => h.resolve_right (by simp), Or.inl⟩)

theorem lacks₃ : M₂.lacks (pathOf virt) = M.lacks (pathOf virt) := by
  refine Mach.lacks_congr ((h.leads₂.has _ (by simp)).trans ?_)
  rw [h.leads₁.has _ (by simp)]
  simp [pathOf]

theorem drawn : Drawn M.frames (M.missing virt) N.frames :=
  (h.leads₁.drawn.trans (h.lacks₂ ▸ h.leads₂.drawn)).trans (h.lacks₃ ▸ h.leads₃.drawn)

theorem has (q : List (Fin 512)) (hq : q.length ≤ 3) : N.Has q ↔ M.Has q ∨ q <+: pathOf virt := by
  rw [h.leads₃.has q hq, h.leads₂.has q hq, h.leads₁.has q hq, prefix_pathOf]
  constructor
  · rintro (((h | h) | h) | h)
    · exact Or.inl h
    · exact Or.inr (Or.inr (Or.inl h))
    · exact Or.inr (Or.inr (Or.inr (Or.inl h)))
    · exact Or.inr (Or.inr (Or.inr (Or.inr h)))
  · rintro (h | rfl | h | h | h)
    · exact Or.inl (Or.inl (Or.inl h))
    · exact Or.inl (Or.inl (Or.inl rfl))
    · exact Or.inl (Or.inl (Or.inr h))
    · exact Or.inl (Or.inr h)
    · exact Or.inr h

end WayDown

/-- `vmm_map_page` goes down to the last table and sets the leaf entry, or it runs
dry on the way. -/
theorem vmmMapPage_steps {virt phys : Nat} (hinv : VmInv M)
    (hM' : (vmmMapPage virt phys flags M).2 = M') :
    (Descended M M' ∧ M'.oom = true ∧ M'.tableAt (pathOf virt) = none
        ∧ RanDry M.frames (M.missing virt) M'.frames)
      ∨ ∃ M₁ M₂ N t₁ t₂ t₃, WayDown M M₁ M₂ N (intermediateFlags flags) virt t₁ t₂ t₃
        ∧ (setLeaf virt t₃ ((phys &&& pageMask) ||| flags) N).2 = M' := by
  obtain ⟨hf8, hb0, hb1, -⟩ := intermediateFlags_spec flags
  simp only [vmmMapPage, Act.bind_apply, getPml4] at hM'
  rw [Mach.missing]
  -- the table of the first level
  generalize hr1 : descend 39 virt (intermediateFlags flags) M.pml4 M = r1 at hM'
  obtain ⟨o1, M1⟩ := r1
  obtain ⟨h1, ⟨rfl, ho1, hn1, hdry1⟩ | ⟨t1, rfl, hl1⟩⟩ :=
    descend_spec (p := []) 39 virt hinv (by simp) rfl hf8 hb0 hb1 hr1
  · obtain rfl : M1 = M' := hM'
    exact Or.inl ⟨h1, ho1, tableAt_append_none hn1 [_, _],
      hdry1.mono (Nat.le_add_right_of_le (Nat.le_add_right ..))⟩
  simp only [Act.bind_apply] at hM'
  -- the second
  generalize hr2 : descend 30 virt (intermediateFlags flags) t1 M1 = r2 at hM'
  obtain ⟨o2, M2⟩ := r2
  have hlacks2 : M1.lacks [tableIndex 39 virt, tableIndex 30 virt]
      = M.lacks [tableIndex 39 virt, tableIndex 30 virt] :=
    Mach.lacks_congr ((hl1.has _ (by simp)).trans ⟨fun h => h.resolve_right (by simp), Or.inl⟩)
  obtain ⟨h2, ⟨rfl, ho2, hn2, hdry2⟩ | ⟨t2, rfl, hl2⟩⟩ :=
    descend_spec 30 virt h1.inv (by simp) hl1.table hf8 hb0 hb1 hr2
  · obtain rfl : M2 = M' := hM'
    exact Or.inl ⟨h1.trans h2, ho2, tableAt_append_none hn2 [_],
      (hl1.drawn.ranDry (hlacks2 ▸ hdry2)).mono (Nat.le_add_right ..)⟩
  simp only [Act.bind_apply] at hM'
  -- the third
  generalize hr3 : descend 21 virt (intermediateFlags flags) t2 M2 = r3 at hM'
  obtain ⟨o3, M3⟩ := r3
  have hlacks3 : M2.lacks (pathOf virt) = M.lacks (pathOf virt) := by
    refine Mach.lacks_congr ((hl2.has _ (by simp)).trans ?_)
    rw [hl1.has _ (by simp)]
    simp [pathOf]
  obtain ⟨h3, ⟨rfl, ho3, hn3, hdry3⟩ | ⟨t3, rfl, hl3⟩⟩ :=
    descend_spec 21 virt h2.inv (by simp) hl2.table hf8 hb0 hb1 hr3
  · obtain rfl : M3 = M' := hM'
    exact Or.inl ⟨(h1.trans h2).trans h3, ho3, hn3,
      (hl1.drawn.trans (hlacks2 ▸ hl2.drawn)).ranDry (hlacks3 ▸ hdry3)⟩
  exact Or.inr ⟨M1, M2, M3, t1, t2, t3, ⟨hr1, hr2, hr3, h1, hl1, h2, hl2, h3, hl3⟩, hM'⟩

/-- What the way down has done. -/
theorem vmmMapPage_walk {virt phys : Nat} (hinv : VmInv M)
    (hM' : (vmmMapPage virt phys flags M).2 = M') :
    ∃ N, Descended M N ∧
      (N.oom = true ∧ N.tableAt (pathOf virt) = none
          ∧ RanDry M.frames (M.missing virt) N.frames ∧ M' = N
        ∨ ∃ t, N.oom = M.oom ∧ N.tableAt (pathOf virt) = some t
          ∧ (flags.testBit 2 = true → UserPath N.mem N.pml4 (pathOf virt))
          ∧ Drawn M.frames (M.missing virt) N.frames
          ∧ (∀ q, q.length ≤ 3 → (N.Has q ↔ M.Has q ∨ q <+: pathOf virt))
          ∧ (setLeaf virt t ((phys &&& pageMask) ||| flags) N).2 = M') := by
  obtain ⟨hN, hoom, hnone, hdry⟩ | ⟨_, _, N, _, _, t, hway, hset⟩ := vmmMapPage_steps hinv hM'
  · exact ⟨M', hN, Or.inl ⟨hoom, hnone, hdry, rfl⟩⟩
  · exact ⟨N, hway.descended, Or.inr ⟨t, hway.oom, hway.leads₃.table,
      fun hbit => hway.user ((intermediateFlags_spec flags).2.2.2 hbit), hway.drawn, hway.has,
      hset⟩⟩

theorem base_lt {phys : Nat} (hp : phys < 2 ^ 64) : phys &&& pageMask < 2 ^ 64 := by
  rw [pageMask_eq hp]
  omega

/-- `vmm_map_page` maps the page, or it runs out of frames and maps nothing. -/
theorem vmmMapPage_spec {virt phys : Nat} (hinv : VmInv M) (hf : flags < 8) (hp : phys < 2 ^ 64)
    (hM' : (vmmMapPage virt phys flags M).2 = M') :
    VmInv M' ∧ Grows (fun n => n = pageOf virt) M M' ∧ M'.heapFrames = M.heapFrames ∧
    (M'.oom = true ∧ M'.tableAt (pathOf virt) = none ∧ (∀ a, M'.leaf a = M.leaf a)
      ∨ M'.oom = M.oom ∧ (M'.tableAt (pathOf virt)).isSome = true ∧
        ∀ a, M'.leaf a = if pageOf a = pageOf virt then (phys &&& pageMask) ||| flags
          else M.leaf a) := by
  obtain ⟨N, hN, ⟨hoom, hnone, -, rfl⟩ | ⟨t, hoom, ht, huser, -, -, hset⟩⟩ :=
    vmmMapPage_walk hinv hM'
  · exact ⟨hN.inv, hN.grows.mono fun _ => False.elim, hN.heapFrames,
      Or.inl ⟨hoom, hnone, fun a => hN.grows.leaf a id⟩⟩
  · have huser' : ((phys &&& pageMask) ||| flags).testBit 2 = true →
        UserPath N.mem N.pml4 (pathOf virt) := by
      intro h2
      rw [Nat.testBit_or, testBit_and_pageMask (by decide), Bool.false_or] at h2
      exact huser h2
    obtain ⟨hi, hg, hh, ho, hleaf⟩ :=
      setLeaf_spec hN.inv ht (or_flags_lt hf (base_lt hp)) huser' hset
    refine ⟨hi, (hN.grows.mono fun _ => False.elim).trans hN.inv hg, hh.trans hN.heapFrames,
      Or.inr ⟨ho.trans hoom, ?_, fun a => ?_⟩⟩
    · rw [hg.path (pathOf virt) _ (by simp) ht]
      rfl
    · rw [hleaf a, hN.grows.leaf a id]

/-- `vmm_map_page` makes the tables that are missing, or it runs dry and maps nothing. -/
theorem vmmMapPage_count {virt phys : Nat} (hinv : VmInv M) (hf : flags < 8)
    (hp : phys < 2 ^ 64) (hM' : (vmmMapPage virt phys flags M).2 = M') :
    (Drawn M.frames (M.missing virt) M'.frames ∧
        ∀ q, q.length ≤ 3 → (M'.Has q ↔ M.Has q ∨ q <+: pathOf virt))
      ∨ (RanDry M.frames (M.missing virt) M'.frames ∧ Descended M M') := by
  obtain ⟨N, hN, ⟨-, -, hdry, rfl⟩ | ⟨t, -, ht, -, hdrawn, hhas, hset⟩⟩ :=
    vmmMapPage_walk hinv hM'
  · exact Or.inr ⟨hdry, hN⟩
  · obtain ⟨hfr, hsame, -⟩ := setLeaf_count hN.inv ht (or_flags_lt hf (base_lt hp)) hset
    exact Or.inl ⟨hfr ▸ hdrawn, fun q hq => (Mach.has_congr (hsame q hq)).trans (hhas q hq)⟩

/-- `vmm_map_page` overwrites one leaf entry, which is one event, or none. -/
theorem vmmMapPage_events {virt phys : Nat} (hinv : VmInv M) (hf : flags < 8)
    (hp : phys < 2 ^ 64) (hM' : (vmmMapPage virt phys flags M).2 = M') :
    (M'.events = M.events ∧ ∀ a, M'.leaf a = M.leaf a)
      ∨ (∃ old, M'.events = .leaf virt old ((phys &&& pageMask) ||| flags) :: M.events) ∧
        ∀ a, M'.leaf a = if pageOf a = pageOf virt then (phys &&& pageMask) ||| flags
          else M.leaf a := by
  obtain ⟨N, hN, ⟨-, -, -, rfl⟩ | ⟨t, -, ht, -, -, -, hset⟩⟩ := vmmMapPage_walk hinv hM'
  · exact Or.inl ⟨hN.events, fun a => hN.grows.leaf a id⟩
  · obtain ⟨-, hsame, old, hold⟩ := setLeaf_count hN.inv ht (or_flags_lt hf (base_lt hp)) hset
    obtain ⟨-, -, -, ⟨-, hnone, -⟩ | ⟨-, -, hleaf⟩⟩ := vmmMapPage_spec hinv hf hp hM'
    · rw [hsame _ (by simp), ht] at hnone
      cases hnone
    · exact Or.inr ⟨⟨old, hold.trans (congrArg _ hN.events)⟩, hleaf⟩

/-- With enough frames `vmm_map_page` maps the page. -/
theorem vmmMapPage_enough {virt phys : Nat} (hinv : VmInv M) (hf : flags < 8)
    (hp : phys < 2 ^ 64) (hplenty : Plenty M.frames (M.missing virt))
    (hM' : (vmmMapPage virt phys flags M).2 = M') :
    M'.frames = advance M.frames (M.missing virt) ∧ M'.oom = M.oom ∧
      (∀ q, q.length ≤ 3 → (M'.Has q ↔ M.Has q ∨ q <+: pathOf virt)) ∧
      ∀ a, M'.leaf a = if pageOf a = pageOf virt then (phys &&& pageMask) ||| flags
        else M.leaf a := by
  rcases vmmMapPage_count hinv hf hp hM' with ⟨hdrawn, hhas⟩ | ⟨hdry, -⟩
  · obtain ⟨-, -, -, ⟨-, hnone, -⟩ | ⟨hoom, -, hleaf⟩⟩ := vmmMapPage_spec hinv hf hp hM'
    · have hpath := (hhas (pathOf virt) (by simp)).mpr (Or.inr List.prefix_rfl)
      rw [Mach.Has, hnone] at hpath
      cases hpath
    · exact ⟨hdrawn.state, hoom, hhas, hleaf⟩
  · exact absurd hplenty hdry.not_plenty

/-- Without them a request for a frame fails, and no page is mapped. -/
theorem vmmMapPage_dry {virt phys : Nat} (hinv : VmInv M)
    (hdry : ¬ Plenty M.frames (M.missing virt)) (hM' : (vmmMapPage virt phys flags M).2 = M') :
    M'.oom = true ∧ Descended M M' := by
  obtain ⟨N, hN, ⟨hoom, -, -, rfl⟩ | ⟨t, -, -, -, hdrawn, -⟩⟩ := vmmMapPage_walk hinv hM'
  · exact ⟨hoom, hN⟩
  · exact absurd hdrawn.plenty hdry

/-! ## `vmm_unmap_page` -/

/-- `N` is `M` after some reads of tables. -/
structure Touched (M N : Mach σ) : Prop where
  inv : VmInv N
  grows : Grows (fun _ => False) M N
  mem : N.mem = M.mem
  heapFrames : N.heapFrames = M.heapFrames
  oom : N.oom = M.oom

theorem Touched.refl (h : VmInv M) : Touched M M := ⟨h, .refl M, rfl, rfl, rfl⟩

theorem Touched.leaf {N : Mach σ} (h : Touched M N) (a : Nat) : N.leaf a = M.leaf a :=
  h.grows.leaf a id

/-- `lookDown` reads which table is next. -/
theorem lookDown_spec {N : Mach σ} {p : List (Fin 512)} (h : Touched M N) (hp : p.length ≤ 3)
    (ht : M.tableAt p = some t) (shift virt : Nat) {o : Option Nat} {N' : Mach σ}
    (hr : lookDown shift virt t N = (o, N')) :
    o = M.tableAt (p ++ [tableIndex shift virt]) ∧ Touched M N' := by
  simp only [lookDown, Act.bind_apply, load64_entry h.inv.bus, present_iff, h.mem] at hr
  have htouch : Touched M (N.touch (t + 8 * tableIndex shift virt)) :=
    ⟨h.inv.touch _, h.grows.trans h.inv (.touch h.inv ⟨p, hp, h.grows.path p t hp ht⟩ _), h.mem,
      h.heapFrames, h.oom⟩
  rw [Mach.tableAt, tableAt_concat ht, childOf]
  split at hr
  case isTrue hpres =>
      obtain ⟨rfl, rfl⟩ := hr
      exact ⟨(if_pos hpres).symm, htouch⟩
  case isFalse hpres =>
      obtain ⟨rfl, rfl⟩ := hr
      exact ⟨(if_neg hpres).symm, htouch⟩

/-- `vmm_unmap_page` clears the leaf entry of the page. -/
theorem vmmUnmapPage_spec {virt : Nat} (hinv : VmInv M) {M' : Mach σ}
    (hM' : (vmmUnmapPage virt M).2 = M') :
    VmInv M' ∧ Grows (fun n => n = pageOf virt) M M' ∧ M'.heapFrames = M.heapFrames
      ∧ M'.oom = M.oom ∧ ∀ a, M'.leaf a = if pageOf a = pageOf virt then 0 else M.leaf a := by
  -- without a table the leaf entry is 0 already
  have hmissing : ∀ {N : Mach σ}, Touched M N → M.tableAt (pathOf virt) = none → N = M' →
      VmInv M' ∧ Grows (fun n => n = pageOf virt) M M' ∧ M'.heapFrames = M.heapFrames
      ∧ M'.oom = M.oom ∧ ∀ a, M'.leaf a = if pageOf a = pageOf virt then 0 else M.leaf a := by
    rintro N hN hn rfl
    refine ⟨hN.inv, hN.grows.mono fun _ => False.elim, hN.heapFrames, hN.oom, fun a => ?_⟩
    rw [hN.leaf a]
    split
    case isTrue h => exact (leafEntry_page h).trans (leafEntry_of_none hn)
    case isFalse => rfl
  simp only [vmmUnmapPage, Act.bind_apply, getPml4] at hM'
  generalize hr1 : lookDown 39 virt M.pml4 M = r1 at hM'
  obtain ⟨o1, M1⟩ := r1
  obtain ⟨ho1, h1⟩ := lookDown_spec (p := []) (.refl hinv) (by simp) rfl 39 virt hr1
  cases o1 with
  | none => exact hmissing h1 (tableAt_append_none ho1.symm [_, _]) hM'
  | some t1 =>
  simp only [Act.bind_apply] at hM'
  generalize hr2 : lookDown 30 virt t1 M1 = r2 at hM'
  obtain ⟨o2, M2⟩ := r2
  obtain ⟨ho2, h2⟩ := lookDown_spec h1 (by simp) ho1.symm 30 virt hr2
  cases o2 with
  | none => exact hmissing h2 (tableAt_append_none ho2.symm [_]) hM'
  | some t2 =>
  simp only [Act.bind_apply] at hM'
  generalize hr3 : lookDown 21 virt t2 M2 = r3 at hM'
  obtain ⟨o3, M3⟩ := r3
  obtain ⟨ho3, h3⟩ := lookDown_spec h2 (by simp) ho2.symm 21 virt hr3
  cases o3 with
  | none => exact hmissing h3 ho3.symm hM'
  | some t3 =>
  have ht3 := h3.grows.path (pathOf virt) t3 (by simp) ho3.symm
  obtain ⟨hi4, hg4, hh4, ho4, hl4⟩ := setLeaf_spec h3.inv ht3 (e := 0) (by decide)
    (fun h => by simp at h) rfl
  have hg := (h3.grows.mono fun _ => False.elim).trans h3.inv hg4
  subst hM'
  refine ⟨hi4.event _, hg.event _, hh4.trans h3.heapFrames, ho4.trans h3.oom, fun a => ?_⟩
  rw [← h3.leaf a]
  exact hl4 a

/-! ## `vmm_init` -/

@[simp] theorem newPml4_pml4 (M : Mach σ) : (newPml4 M).pml4 = (allocTable M).1 := rfl

/-- Memory outside the root stays. -/
theorem newPml4_mem (hbus : M.bus = .phys) (h0 : (allocTable M).1 ≠ 0) {x : Nat}
    (hx : frameOf x ≠ (newPml4 M).pml4) : (newPml4 M).mem x = M.mem x := by
  have hf : (allocFrame M).1 ≠ 0 := by rwa [allocTable_fst] at h0
  rw [newPml4_pml4, allocTable_fst] at hx
  have haligned := (FrameSource.avail_frame
    ((FrameSource.alloc_avail M.frames).resolve_left hf)).1
  have hloop := forLoop_induct (n := 512) (fun i => store64 ((allocFrame M).1 + 8 * i) 0)
    (M := (allocFrame M).2) (Q := fun _ N => N.bus = .phys ∧ N.mem x = M.mem x) ⟨hbus, rfl⟩
    (fun i N hi hN => ?_)
  · simp only [newPml4, allocTable, Act.bind_apply, hf, if_false, Act.pure_apply]
    generalize (forLoop 512 (fun i => store64 ((allocFrame M).1 + 8 * i) 0) (allocFrame M).2).2
      = N at hloop ⊢
    exact hloop.2
  · simp only [store64, Mach.store64_phys hN.1]
    refine ⟨hN.1, ?_⟩
    rw [Mach.withMem_mem, Mem.store_other, hN.2]
    have haddr : (allocFrame M).1 % 4096 = 0 := haligned
    simp only [frameOf] at hx
    omega

theorem vmmInit_zero (h0 : (allocTable M).1 = 0) : (vmmInit M).2 = newPml4 M := by
  simp only [vmmInit, Act.bind_apply, h0, if_true]
  rw [newPml4, h0]
  rfl

theorem vmmInit_ne_zero (h0 : (allocTable M).1 ≠ 0) :
    (vmmInit M).2 = (loadCr3 (newPml4 M).pml4 (forLoop identityPages
      (fun i => vmmMapPage (i * 4096) (i * 4096) kernelFlags) (newPml4 M)).2).2 := by
  simp only [vmmInit, Act.bind_apply, h0, if_false]
  rfl

/-- `vmm_init` with a root: the first pages are mapped to themselves unless frames
run out, and then CR3 is loaded. -/
theorem vmmInit_spec (hbus : M.bus = .phys) (h0 : (allocTable M).1 ≠ 0)
    (hM' : (vmmInit M).2 = M') :
    ∃ N, M' = (loadCr3 N.pml4 N).2 ∧ VmInv N ∧ Grows (fun m => m < identityPages) (newPml4 M) N
      ∧ N.heapFrames = M.heapFrames
      ∧ (N.oom = false →
        ∀ i, i < identityPages → N.leaf (i * 4096) = i * 4096 ||| kernelFlags) := by
  obtain ⟨hinv, -, -, -, -, -, hh, -, -⟩ := newPml4_spec hbus h0 rfl
  rw [vmmInit_ne_zero h0] at hM'
  have hloop := forLoop_induct (n := identityPages) (M := newPml4 M)
    (fun i => vmmMapPage (i * 4096) (i * 4096) kernelFlags)
    (Q := fun i N => VmInv N ∧ Grows (fun m => m < identityPages) (newPml4 M) N
      ∧ N.heapFrames = M.heapFrames
      ∧ (N.oom = false → ∀ j, j < i → N.leaf (j * 4096) = j * 4096 ||| kernelFlags))
    ⟨hinv, .refl _, hh, fun _ j hj => absurd hj (Nat.not_lt_zero j)⟩
    (fun i N hi hN => ?_)
  · generalize hN : (forLoop identityPages
      (fun i => vmmMapPage (i * 4096) (i * 4096) kernelFlags) (newPml4 M)).2 = N at hloop hM'
    obtain ⟨hi, hg, hh, hleaf⟩ := hloop
    refine ⟨N, ?_, hi, hg, hh, hleaf⟩
    rw [← hM', hg.pml4]
  · obtain ⟨hi1, hg1, hh1, hl1⟩ := hN
    simp only [identityPages] at hi
    have hpage : ∀ j, j < 1024 → pageOf (j * 4096) = j := by
      intro j hj
      simp only [pageOf]
      omega
    obtain ⟨hi2, hg2, hh2, hcase⟩ := vmmMapPage_spec hi1 (by decide) (by omega)
      (show (vmmMapPage (i * 4096) (i * 4096) kernelFlags N).2 = _ from rfl)
    refine ⟨hi2, hg1.trans hi1 (hg2.mono ?_), hh2.trans hh1, fun hoom j hj => ?_⟩
    · rintro m rfl
      rw [hpage i hi]
      exact hi
    · rcases hcase with ⟨hfail, -⟩ | ⟨ho, -, hleaf⟩
      · rw [hfail] at hoom
        cases hoom
      · rw [hleaf (j * 4096), hpage i hi, hpage j (by omega)]
        by_cases hji : j = i
        · rw [if_pos hji, hji, and_pageMask_of_aligned (Nat.mul_mod_left ..) (by omega)]
        · rw [if_neg hji]
          exact hl1 (ho ▸ hoom) j (by omega)

end

end TunaOs
