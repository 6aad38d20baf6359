import TunaOs.Vmm.Tables

/-!
# What the virtual memory manager does to the tables

`VmInv` says that the machine's tables are page tables and that no frame the
allocator may still return is one of them.  `Grows P M M'` is what every
operation on the tables guarantees, where `P` are the pages whose leaf entries
it may change: tables stay where they are, new ones were free frames, and memory
outside tables and free frames is not written.  Its field `calm` says when no
access strays: it suffices that a set of frames with the old tables and all
frames drawn is identity-mapped and not remapped.  Before CR3 is loaded nothing is
remapped, whatever the new tables say.

The relation composes (`Grows.trans`), so the specifications of `vmm_map_page`
and `vmm_unmap_page` are put together from those of the single accesses.
-/

namespace TunaOs

open Word

/-- The frame an address is in. -/
def frameOf (a : Nat) : Nat := a / 4096 * 4096

theorem pageOf_frameOf (a : Nat) : pageOf (frameOf a) = pageOf a := by
  simp only [pageOf, frameOf]
  omega

theorem frameOf_slot {t : Nat} (ht : t % 4096 = 0) (i : Fin 512) : frameOf (t + 8 * i) = t := by
  have := i.isLt
  simp only [frameOf]
  omega

section

variable {σ : Type}

/-- A table of the machine. -/
def Mach.IsTable (M : Mach σ) (t : Nat) : Prop := TunaOs.IsTable M.mem M.pml4 t

/-- The table at a path. -/
abbrev Mach.tableAt (M : Mach σ) (p : List (Fin 512)) : Option Nat :=
  TunaOs.tableAt M.mem M.pml4 p

/-- The leaf entry of an address. -/
def Mach.leaf (M : Mach σ) (a : Nat) : Nat := leafEntry M.mem M.pml4 a

/-- The entry maps `t` to itself with write rights. -/
def SelfMapped (e t : Nat) : Prop :=
  e.testBit 0 = true ∧ e.testBit 1 = true ∧ e &&& pageMask = t

/-- The active tables map the frames of `W` to themselves. -/
def Mach.Window (M : Mach σ) (W : Nat → Prop) : Prop :=
  ∀ t, W t → match M.cr3 with
    | none => t < 2 ^ 30
    | some root => root = M.pml4 ∧ SelfMapped (M.leaf t) t

/-- A window is there as long as the leaf entries of its pages are. -/
theorem Mach.Window.congr {M M' : Mach σ} {W : Nat → Prop} (h : M.Window W)
    (hcr3 : M'.cr3 = M.cr3) (hpml4 : M'.pml4 = M.pml4) (hleaf : ∀ t, W t → M'.leaf t = M.leaf t) :
    M'.Window W := by
  intro t ht
  rw [hcr3, hpml4, hleaf t ht]
  exact h t ht

/-- Mapping the pages in `P` does not remap frames of `W`. -/
def Mach.Spares (M : Mach σ) (P W : Nat → Prop) : Prop :=
  M.cr3 = none ∨ ∀ t, W t → ¬ P (pageOf t)

variable [FrameSource σ]

open FrameSource (avail)

/-- The invariant of the tables and the allocator. -/
structure VmInv (M : Mach σ) : Prop where
  /-- Pointers go to the frame they name. -/
  bus : M.bus = .phys
  /-- The tables. -/
  tables : PageTables M.mem M.pml4
  /-- Free frames are not tables. -/
  fresh : ∀ f, avail M.frames f → ¬ M.IsTable f

/-- What operations on the tables guarantee, if they may change the leaf entries
of the pages in `P`. -/
structure Grows (P : Nat → Prop) (M M' : Mach σ) : Prop where
  pml4 : M'.pml4 = M.pml4
  cr3 : M'.cr3 = M.cr3
  /-- Frames are drawn, not given back. -/
  avail : ∀ f, avail M'.frames f → avail M.frames f
  /-- Tables stay. -/
  path : ∀ q u, q.length ≤ 3 → M.tableAt q = some u → M'.tableAt q = some u
  /-- So do the rights of directories. -/
  userPath : ∀ q u, q.length ≤ 3 → M.tableAt q = some u → UserPath M.mem M.pml4 q →
    UserPath M'.mem M'.pml4 q
  /-- New tables were free frames. -/
  new : ∀ t, M'.IsTable t → M.IsTable t ∨ FrameSource.avail M.frames t
  /-- Only tables and free frames are written. -/
  mem : ∀ x, ¬ M.IsTable (frameOf x) → ¬ FrameSource.avail M.frames (frameOf x) →
    M'.mem x = M.mem x
  /-- Only the pages in `P` are mapped anew. -/
  leaf : ∀ a, ¬ P (pageOf a) → M'.leaf a = M.leaf a
  /-- Running out of frames is not forgotten. -/
  oom : M'.oom = false → M.oom = false
  /-- When no access strays. -/
  calm : ∀ W : Nat → Prop, (∀ t, M.IsTable t → W t) →
    (∀ f, FrameSource.avail M.frames f → ¬ FrameSource.avail M'.frames f → W f) →
    M.Spares P W → M.Window W → M'.stray = M.stray

variable {P : Nat → Prop} {M M' M₁ : Mach σ} {t a flags : Nat}

/-! ## The walk -/

theorem VmInv.walk_eq (h : VmInv M) (a : Nat) : walk M.mem M.pml4 a = decode (M.leaf a) :=
  h.tables.walk_eq a

theorem VmInv.aligned (h : VmInv M) (ht : M.IsTable t) : t % 4096 = 0 := (h.tables.aligned t ht).1

omit [FrameSource σ] in
theorem Mach.leaf_frameOf (M : Mach σ) (a : Nat) : M.leaf (frameOf a) = M.leaf a :=
  leafEntry_page (pageOf_frameOf a)

/-- Accesses to the frames of a window do not stray. -/
theorem VmInv.identity (h : VmInv M) {W : Nat → Prop} (hW : M.Window W) (ha : W (frameOf a)) :
    M.identity a = true := by
  have hw := hW _ ha
  cases hc : M.cr3 with
  | none =>
      rw [hc] at hw
      have hlt : a < 2 ^ 30 := by
        simp only [frameOf] at hw
        omega
      simp only [Mach.identity, Mach.translate, hc, if_pos hlt]
      rw [pageMask_eq (by omega)]
      exact decide_eq_true ⟨by omega, trivial⟩
  | some root =>
      rw [hc] at hw
      obtain ⟨rfl, h0, h1, hf⟩ := hw
      rw [M.leaf_frameOf] at h0 h1 hf
      simp only [Mach.identity, Mach.translate, hc, h.walk_eq, decode, if_pos h0, hf, h1]
      simp only [frameOf]
      exact decide_eq_true ⟨by omega, trivial⟩

/-- Which accesses do not stray once CR3 is loaded. -/
theorem VmInv.identity_iff (h : VmInv M) (hcr3 : M.cr3 = some M.pml4) (a : Nat) :
    M.identity a = true ↔ SelfMapped (M.leaf a) (frameOf a) := by
  simp only [Mach.identity, Mach.translate, hcr3, h.walk_eq, decode, SelfMapped, frameOf]
  by_cases hpres : (M.leaf a).testBit 0 = true
  · simp only [hpres, if_true, decide_eq_true_eq, true_and]
    rw [and_comm]
    exact and_congr_right fun _ => by omega
  · simp [hpres]

omit [FrameSource σ] in
theorem Mach.touch_stray_iff :
    (M.touch a).stray = false ↔ M.stray = false ∧ M.identity a = true := by
  simp [Mach.touch]

/-- An access to a frame strays unless the frame is mapped to itself. -/
theorem VmInv.touch_frame (h : VmInv M) (hcr3 : M.cr3 = some M.pml4) (ha : frameOf a = t) :
    (M.touch a).stray = false ↔ M.stray = false ∧ SelfMapped (M.leaf t) t := by
  rw [Mach.touch_stray_iff, h.identity_iff hcr3, ha, ← ha, M.leaf_frameOf]

/-- Memory outside the tables may change. -/
theorem VmInv.withMem {m : Mem} (h : VmInv M)
    (hm : ∀ x, m x ≠ M.mem x → ¬ M.IsTable (frameOf x)) :
    VmInv (M.withMem m) ∧ (∀ a, (M.withMem m).leaf a = M.leaf a) ∧
      ∀ u, (M.withMem m).IsTable u → M.IsTable u := by
  have hentry : ∀ t, M.IsTable t → ∀ i, entry m t i = entry M.mem t i := by
    intro t ht i
    refine Mem.load_congr fun x h1 h2 => Classical.byContradiction fun hx => hm x hx ?_
    have h0 := h.aligned ht
    have hi := i.isLt
    have hfr : frameOf x = t := by
      simp only [frameOf]
      omega
    rwa [hfr]
  obtain ⟨hg, hleaf⟩ := h.tables.congr (N := fun _ => False) hentry
  have htab : ∀ u, (M.withMem m).IsTable u → M.IsTable u := fun u hu =>
    (hg.new u hu).resolve_right id
  exact ⟨⟨h.bus, hg.tables, fun g hg hgt => h.fresh g hg (htab g hgt)⟩, hleaf, htab⟩

/-! ## Composition -/

theorem Grows.refl (M : Mach σ) : Grows P M M where
  pml4 := rfl
  cr3 := rfl
  avail _ h := h
  path _ _ _ h := h
  userPath _ _ _ _ h := h
  new _ h := Or.inl h
  mem _ _ _ := rfl
  leaf _ _ := rfl
  oom h := h
  calm _ _ _ _ _ := rfl

theorem Grows.mono {Q : Nat → Prop} (h : Grows P M M') (hPQ : ∀ n, P n → Q n) : Grows Q M M' where
  pml4 := h.pml4
  cr3 := h.cr3
  avail := h.avail
  path := h.path
  userPath := h.userPath
  new := h.new
  mem := h.mem
  leaf a ha := h.leaf a fun hp => ha (hPQ _ hp)
  oom := h.oom
  calm W ht hd hWP hw := h.calm W ht hd (hWP.imp id fun hsp t hWt hp => hsp t hWt (hPQ _ hp)) hw

theorem Grows.isTable (h : Grows P M M') (ht : M.IsTable t) : M'.IsTable t := by
  obtain ⟨q, hq, hqt⟩ := ht
  exact ⟨q, hq, h.path q t hq hqt⟩

/-- A window that is not remapped stays. -/
theorem Grows.window (h : Grows P M M') {W : Nat → Prop} (hWP : M.Spares P W)
    (hW : M.Window W) : M'.Window W := by
  rcases hWP with hnone | hsp
  · intro t ht
    have := hW t ht
    rw [hnone] at this
    rw [h.cr3, hnone]
    exact this
  · exact hW.congr h.cr3 h.pml4 fun t ht => h.leaf t (hsp t ht)

theorem Grows.spares {Q W : Nat → Prop} (h : Grows P M M') (hWP : M.Spares Q W) : M'.Spares Q W :=
  hWP.imp (fun hnone => h.cr3.trans hnone) id

/-- The tables are in any set that has the old ones and all frames drawn. -/
theorem Grows.tables_in (h : Grows P M M') (hinv : VmInv M') {W : Nat → Prop}
    (htab : ∀ t, M.IsTable t → W t)
    (hdrawn : ∀ f, FrameSource.avail M.frames f → ¬ FrameSource.avail M'.frames f → W f) :
    ∀ t, M'.IsTable t → W t := by
  intro t ht
  rcases h.new t ht with hold | hfree
  · exact htab t hold
  · exact hdrawn t hfree fun hav => hinv.fresh t hav ht

theorem Grows.trans {M₂ : Mach σ} (h1 : Grows P M M₁) (hinv : VmInv M₁) (h2 : Grows P M₁ M₂) :
    Grows P M M₂ where
  pml4 := h2.pml4.trans h1.pml4
  cr3 := h2.cr3.trans h1.cr3
  avail f hf := h1.avail f (h2.avail f hf)
  path q u hq hu := h2.path q u hq (h1.path q u hq hu)
  userPath q u hq hu hup := h2.userPath q u hq (h1.path q u hq hu) (h1.userPath q u hq hu hup)
  new t ht := by
    rcases h2.new t ht with hold | hfree
    · exact h1.new t hold
    · exact Or.inr (h1.avail t hfree)
  mem x ht hf := by
    rw [h2.mem x, h1.mem x ht hf]
    · intro ht1
      rcases h1.new _ ht1 with hold | hfree
      · exact ht hold
      · exact hf hfree
    · exact fun hav => hf (h1.avail _ hav)
  leaf a ha := (h2.leaf a ha).trans (h1.leaf a ha)
  oom h := h1.oom (h2.oom h)
  calm W htab hdrawn hWP hW := by
    have hdrawn1 : ∀ f, FrameSource.avail M.frames f → ¬ FrameSource.avail M₁.frames f → W f :=
      fun f hf hn => hdrawn f hf fun h => hn (h2.avail f h)
    rw [h2.calm W (h1.tables_in hinv htab hdrawn1) ?_ (h1.spares hWP) (h1.window hWP hW),
      h1.calm W htab hdrawn1 hWP hW]
    exact fun f hf hn => hdrawn f (h1.avail f hf) hn

/-! ## Events -/

theorem VmInv.event (h : VmInv M) (e : MmuEvent) : VmInv (event e M).2 :=
  ⟨h.bus, h.tables, h.fresh⟩

theorem Grows.event (h : Grows P M M') (e : MmuEvent) : Grows P M (event e M').2 :=
  ⟨h.pml4, h.cr3, h.avail, h.path, h.userPath, h.new, h.mem, h.leaf, h.oom, h.calm⟩

/-! ## Accesses to a table -/

theorem VmInv.touch (h : VmInv M) (a : Nat) : VmInv (M.touch a) := ⟨h.bus, h.tables, h.fresh⟩

/-- Reading an entry of a table. -/
theorem Grows.touch (hinv : VmInv M) (ht : M.IsTable t) (i : Fin 512) :
    Grows P M (M.touch (t + 8 * i)) := by
  refine { Grows.refl M with calm := fun W htab _ _ hW => ?_ }
  apply Mach.touch_stray_of_identity
  apply hinv.identity hW
  rw [frameOf_slot (hinv.aligned ht)]
  exact htab t ht

/-- Writing an entry of a table, seen from an earlier machine. -/
theorem Grows.storeEntry {N : Nat → Prop} (h : Grows P M M₁) (hinv : VmInv M₁) (ht : M₁.IsTable t)
    (i : Fin 512) (v : Nat) (hg : TablesGrow N M₁.mem (M₁.mem.store (t + 8 * i) 8 v) M₁.pml4)
    (hN : ∀ u, N u → FrameSource.avail M.frames u ∧ ¬ FrameSource.avail M₁.frames u)
    (hleaf : ∀ a, ¬ P (pageOf a) →
      leafEntry (M₁.mem.store (t + 8 * i) 8 v) M₁.pml4 a = M₁.leaf a) :
    VmInv (M₁.store64 (t + 8 * i) v) ∧ Grows P M (M₁.store64 (t + 8 * i) v) := by
  have htab : ∀ u, M₁.IsTable u → M.IsTable u ∨ FrameSource.avail M.frames u := h.new
  have halign := hinv.aligned ht
  rw [Mach.store64_phys hinv.bus]
  refine ⟨⟨hinv.bus, hg.tables, ?_⟩, ?_⟩
  · intro f hf hft
    rcases hg.new f hft with hold | hnew
    · exact hinv.fresh f hf hold
    · exact (hN f hnew).2 hf
  · exact {
      pml4 := h.pml4
      cr3 := h.cr3
      avail := h.avail
      path := fun q u hq hu => hg.path q u hq (h.path q u hq hu)
      userPath := fun q u hq hu hup =>
        hg.userPath q u hq (h.path q u hq hu) (h.userPath q u hq hu hup)
      new := fun u hu => by
        rcases hg.new u hu with hold | hnew
        · exact htab u hold
        · exact Or.inr (hN u hnew).1
      mem := fun x hx hf => by
        rw [← h.mem x hx hf]
        refine Mem.store_other (Classical.byContradiction fun hin => ?_)
        have hi := i.isLt
        have hfx : frameOf x = t := by
          simp only [frameOf]
          omega
        rcases htab t ht with hold | hfree
        · exact hx (hfx ▸ hold)
        · exact hf (hfx ▸ hfree)
      leaf := fun a ha => (hleaf a ha).trans (h.leaf a ha)
      oom := h.oom
      calm := fun W hWtab hdrawn hWP hW => by
        have hid := hinv.identity (h.window hWP hW)
          (show W (frameOf (t + 8 * i)) by
            rw [frameOf_slot halign]
            exact h.tables_in hinv hWtab hdrawn t ht)
        exact (Mach.touch_stray_of_identity hid).trans (h.calm W hWtab hdrawn hWP hW) }

/-! ## Frames in hand -/

/-- Between `M` and `N` the frame `f` was drawn, and it is not yet used. -/
structure InHand (P : Nat → Prop) (M N : Mach σ) (f : Nat) : Prop where
  inv : VmInv N
  grows : Grows P M N
  drawn : FrameSource.avail M.frames f
  taken : ¬ FrameSource.avail N.frames f
  plain : ¬ N.IsTable f
  heapFrames : N.heapFrames = M.heapFrames
  oom : N.oom = M.oom

theorem frameOf_mod (a : Nat) : frameOf a % 4096 = 0 := Nat.mul_mod_left ..

/-- A frame in hand may be written. -/
theorem InHand.write {f : Nat} {m' : Mem} (h : InHand P M M₁ f) (ha : frameOf a = f)
    (hm : ∀ x, frameOf x ≠ f → m' x = M₁.mem x) : InHand P M ((M₁.touch a).withMem m') f := by
  have hf0 : f % 4096 = 0 := ha ▸ frameOf_mod a
  -- the tables are elsewhere
  have hentry : ∀ t, M₁.IsTable t → ∀ i, entry m' t i = entry M₁.mem t i := by
    intro t ht i
    refine Mem.load_congr fun x h1 h2 => hm x fun hx => ?_
    have h0 := h.inv.aligned ht
    have hi := i.isLt
    have : t = f := by
      simp only [frameOf] at hx
      omega
    exact h.plain (this ▸ ht)
  obtain ⟨hg, hleaf⟩ := h.inv.tables.congr (N := fun _ => False) hentry
  have htab : ∀ u, IsTable m' M₁.pml4 u → M₁.IsTable u := fun u hu =>
    (hg.new u hu).resolve_right id
  exact {
    inv := ⟨h.inv.bus, hg.tables, fun g hg hgt => h.inv.fresh g hg (htab g hgt)⟩
    grows := {
      pml4 := h.grows.pml4
      cr3 := h.grows.cr3
      avail := h.grows.avail
      path := fun q u hq hu => hg.path q u hq (h.grows.path q u hq hu)
      userPath := fun q u hq hu hup =>
        hg.userPath q u hq (h.grows.path q u hq hu) (h.grows.userPath q u hq hu hup)
      new := fun u hu => h.grows.new u (htab u hu)
      mem := fun x hx hf => by
        rw [← h.grows.mem x hx hf]
        exact hm x fun hxf => hf (hxf ▸ h.drawn)
      leaf := fun b hb => (hleaf b).trans (h.grows.leaf b hb)
      oom := h.grows.oom
      calm := fun W htabW hdrawn hWP hW => by
        have hid := h.inv.identity (a := a) (h.grows.window hWP hW)
          (ha ▸ hdrawn f h.drawn h.taken)
        exact (Mach.touch_stray_of_identity hid).trans (h.grows.calm W htabW hdrawn hWP hW) }
    drawn := h.drawn
    taken := h.taken
    plain := fun hf => h.plain (htab f hf)
    heapFrames := h.heapFrames
    oom := h.oom }

/-- Accesses to the frame in hand, where no page is mapped meanwhile. -/
theorem InHand.touch_frame {f : Nat} (h : InHand (fun _ => False) M M₁ f)
    (hcr3 : M.cr3 = some M.pml4) (ha : frameOf a = f) :
    (M₁.touch a).stray = false ↔ M₁.stray = false ∧ SelfMapped (M.leaf f) f := by
  have hcr3' : M₁.cr3 = some M₁.pml4 := by
    rw [h.grows.cr3, h.grows.pml4]
    exact hcr3
  rw [h.inv.touch_frame hcr3' ha, h.grows.leaf f id]

theorem allocFrame_spec (P : Nat → Prop) (hinv : VmInv M) :
    (allocFrame M).2.mem = M.mem ∧
    ((allocFrame M).1 = 0 ∧ VmInv (allocFrame M).2 ∧ Grows P M (allocFrame M).2
        ∧ (allocFrame M).2.heapFrames = M.heapFrames ∧ (allocFrame M).2.oom = true
      ∨ (allocFrame M).1 ≠ 0 ∧ InHand P M (allocFrame M).2 (allocFrame M).1) := by
  have hav : ∀ f, avail (allocFrame M).2.frames f → avail M.frames f := fun f hf =>
    (FrameSource.avail_alloc hf).1
  have hinv' : VmInv (allocFrame M).2 :=
    ⟨hinv.bus, hinv.tables, fun f hf => hinv.fresh f (hav f hf)⟩
  have hgrows : Grows P M (allocFrame M).2 := {
    Grows.refl M with
    avail := hav
    oom := fun h => by
      simp only [allocFrame, Bool.or_eq_false_iff] at h
      exact h.1
    calm := fun _ _ _ _ _ => rfl }
  refine ⟨rfl, ?_⟩
  by_cases h0 : (allocFrame M).1 = 0
  · exact Or.inl ⟨h0, hinv', hgrows, rfl, allocFrame_oom h0⟩
  · have hfree := (FrameSource.alloc_avail M.frames).resolve_left h0
    exact Or.inr ⟨h0, hinv', hgrows, hfree, fun h => (FrameSource.avail_alloc h).2 rfl,
      hinv.fresh _ hfree, rfl, allocFrame_oom_eq h0⟩

theorem allocTable_zero (h0 : (allocFrame M).1 = 0) : allocTable M = (0, (allocFrame M).2) := by
  simp only [allocTable, Act.bind_apply, h0, if_true, Act.pure_apply]

theorem allocTable_fst (M : Mach σ) : (allocTable M).1 = (allocFrame M).1 := by
  by_cases h0 : (allocFrame M).1 = 0
  · rw [allocTable_zero h0, h0]
  · simp only [allocTable, Act.bind_apply, h0, if_false, Act.pure_apply]

theorem allocTable_spec (P : Nat → Prop) (hinv : VmInv M) :
    (allocTable M).1 = 0 ∧ VmInv (allocTable M).2 ∧ Grows P M (allocTable M).2
        ∧ (allocTable M).2.heapFrames = M.heapFrames ∧ (allocTable M).2.oom = true
        ∧ (allocTable M).2.mem = M.mem
      ∨ (allocTable M).1 ≠ 0 ∧ InHand P M (allocTable M).2 (allocTable M).1
        ∧ (∀ x, frameOf x ≠ (allocTable M).1 → (allocTable M).2.mem x = M.mem x)
        ∧ ∀ j, entry (allocTable M).2.mem (allocTable M).1 j = 0 := by
  obtain ⟨hmem, ⟨h0, hi, hg, hh, ho⟩ | ⟨h0, h⟩⟩ := allocFrame_spec P hinv
  · rw [allocTable_zero h0]
    exact Or.inl ⟨rfl, hi, hg, hh, ho, hmem⟩
  · refine Or.inr ?_
    simp only [allocTable, Act.bind_apply, h0, if_false, Act.pure_apply]
    refine ⟨h0, ?_⟩
    generalize (allocFrame M).1 = f at h h0
    generalize (allocFrame M).2 = M₁ at h hmem
    have hf0 := (FrameSource.avail_frame h.drawn).1
    -- after `i` turns `i` entries are zero
    have hloop := forLoop_induct (n := 512) (fun i => store64 (f + 8 * i) 0) (M := M₁)
      (Q := fun i N => InHand P M N f ∧ (∀ x, frameOf x ≠ f → N.mem x = M.mem x) ∧
        ∀ x, f ≤ x → x < f + 8 * i → N.mem x = 0)
      ⟨h, fun x _ => by rw [hmem], fun x _ _ => by omega⟩ ?_
    · obtain ⟨hhand, hother, hzero⟩ := hloop
      refine ⟨hhand, hother, fun j => Mem.load_eq_zero fun x h1 h2 => hzero x (by omega) ?_⟩
      have := j.isLt
      omega
    · rintro i N hi ⟨hN, hother, hz⟩
      have hstep : (store64 (f + 8 * i) 0 N).2
          = (N.touch (f + 8 * i)).withMem (N.mem.store (f + 8 * i) 8 0) :=
        Mach.store64_phys hN.inv.bus ..
      rw [hstep]
      have hout : ∀ x, frameOf x ≠ f → (N.mem.store (f + 8 * i) 8 0) x = N.mem x := by
        intro x hx
        simp only [frameOf] at hx
        exact Mem.store_other (by omega)
      refine ⟨hN.write ?_ hout, fun x hx => (hout x hx).trans (hother x hx), fun x h1 h2 => ?_⟩
      · simp only [frameOf]
        omega
      · by_cases hx : x < f + 8 * i
        · rw [Mach.withMem_mem, Mem.store_other (Or.inl hx), hz x h1 hx]
        · rw [Mach.withMem_mem, Mem.store, Mem.overlay_in (by omega) (by omega), Nat.zero_div]
          rfl

/-! ## The first table -/

omit [FrameSource σ] in
/-- The loop of `alloc_table` before there are tables. -/
theorem zeroTable_spec {f : Nat} (hbus : M.bus = .phys) (hf : f % 4096 = 0)
    {N : Mach σ} (hN : (forLoop 512 (fun i => store64 (f + 8 * i) 0) M).2 = N) :
    N.bus = .phys ∧ N.frames = M.frames ∧ N.cr3 = M.cr3 ∧ N.heapFrames = M.heapFrames
      ∧ N.oom = M.oom ∧ (∀ j, entry N.mem f j = 0)
      ∧ (M.cr3 = none → f < 2 ^ 30 → N.stray = M.stray) := by
  have hloop := forLoop_induct (n := 512) (fun i => store64 (f + 8 * i) 0) (M := M)
    (Q := fun i N => N.bus = .phys ∧ N.frames = M.frames ∧ N.cr3 = M.cr3
      ∧ N.heapFrames = M.heapFrames ∧ N.oom = M.oom
      ∧ (∀ x, f ≤ x → x < f + 8 * i → N.mem x = 0)
      ∧ (M.cr3 = none → f < 2 ^ 30 → N.stray = M.stray))
    ⟨hbus, rfl, rfl, rfl, rfl, fun x _ _ => by omega, fun _ _ => rfl⟩ ?_
  · rw [hN] at hloop
    obtain ⟨hb, hfr, hc, hh, ho, hz, hs⟩ := hloop
    refine ⟨hb, hfr, hc, hh, ho, fun j => Mem.load_eq_zero fun x h1 h2 => hz x (by omega) ?_, hs⟩
    have := j.isLt
    omega
  · rintro i N hi ⟨hb, hfr, hc, hh, ho, hz, hs⟩
    simp only [store64, Mach.store64_phys hb]
    refine ⟨hb, hfr, hc, hh, ho, fun x h1 h2 => ?_, fun hnone hlt => ?_⟩
    · by_cases hx : x < f + 8 * i
      · rw [Mach.withMem_mem, Mem.store_other (Or.inl hx), hz x h1 hx]
      · rw [Mach.withMem_mem, Mem.store, Mem.overlay_in (by omega) (by omega), Nat.zero_div]
        rfl
    · rw [Mach.withMem_stray, ← hs hnone hlt]
      apply Mach.touch_stray_of_identity
      rw [hnone] at hc
      have ha : f + 8 * i < 2 ^ 30 := by omega
      simp only [Mach.identity, Mach.translate, hc, if_pos ha]
      rw [pageMask_eq (by omega)]
      exact decide_eq_true ⟨by omega, trivial⟩

/-- `pml4 = alloc_table()` at the start of `vmm_init`. -/
def newPml4 (M : Mach σ) : Mach σ := (setPml4 (allocTable M).1 (allocTable M).2).2

@[simp] theorem newPml4_frames (M : Mach σ) : (newPml4 M).frames = (allocTable M).2.frames := rfl

@[simp] theorem newPml4_events (M : Mach σ) : (newPml4 M).events = (allocTable M).2.events := rfl

@[simp] theorem newPml4_oom (M : Mach σ) : (newPml4 M).oom = (allocTable M).2.oom := rfl

/-- The tables after `newPml4` are a root without entries. -/
theorem newPml4_spec (hbus : M.bus = .phys) (h0 : (allocTable M).1 ≠ 0) {M' : Mach σ}
    (hM' : newPml4 M = M') :
    VmInv M' ∧ (∀ t, M'.IsTable t → t = M'.pml4) ∧ avail M.frames M'.pml4
      ∧ (∀ f, avail M'.frames f → avail M.frames f) ∧ (∀ a, M'.leaf a = 0) ∧ M'.cr3 = M.cr3
      ∧ M'.heapFrames = M.heapFrames ∧ M'.oom = M.oom
      ∧ (M.cr3 = none → M'.pml4 < 2 ^ 30 → M'.stray = M.stray) := by
  have hf : (allocFrame M).1 ≠ 0 := by rwa [allocTable_fst] at h0
  have hfree : avail M.frames (allocFrame M).1 := (FrameSource.alloc_avail M.frames).resolve_left hf
  have havail : ∀ g, avail (allocFrame M).2.frames g → avail M.frames g ∧ g ≠ (allocFrame M).1 :=
    fun g hg => FrameSource.avail_alloc hg
  have hoom : (allocFrame M).2.oom = M.oom := allocFrame_oom_eq hf
  simp only [newPml4, allocTable, Act.bind_apply, hf, if_false, Act.pure_apply] at hM'
  obtain ⟨hf0, -, hf64⟩ := FrameSource.avail_frame hfree
  generalize hN : (forLoop 512 (fun i => store64 ((allocFrame M).1 + 8 * i) 0) (allocFrame M).2).2
    = N at hM'
  obtain ⟨hb, hfr, hc, hh, ho, hzero, hs⟩ :=
    zeroTable_spec (M := (allocFrame M).2) hbus hf0 hN
  generalize (allocFrame M).1 = f at *
  obtain ⟨htab, honly⟩ := pageTables_zero hzero hf0 hf64
  subst hM'
  refine ⟨⟨hb, htab, ?_⟩, honly, hfree, ?_, fun a => ?_, hc, hh, ho.trans hoom, hs⟩
  · intro g hg hgt
    have hg' : avail N.frames g := hg
    rw [hfr] at hg'
    exact (havail g hg').2 (honly g hgt)
  · intro g hg
    have hg' : avail N.frames g := hg
    rw [hfr] at hg'
    exact (havail g hg').1
  · apply leafEntry_of_none
    simp only [pathOf, tableAt, Radix.follow, setPml4, hzero]
    rfl

end

end TunaOs
