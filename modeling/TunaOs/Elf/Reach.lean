import TunaOs.Elf.Supply

/-!
# The frames that the loader reaches through pointers

The loader fills each frame and changes each table through its physical address, which is
right if the tables map the frame to itself.  Which frames these are can be told before the
call: the frames of pages and of new tables are the next free ones, in turn, and the other
tables are those on the paths of the pages.  A `View` has what that depends on: the
allocator, the tables by their paths, and the leaf entries.  `View.turn` is one turn of the
loop of `load_segment` as it changes the view, with the frames that it accesses, and
`View.Reaches` says of all turns that these are mapped to themselves when their turn comes.

`Mach.Shows` relates a machine to a view.  `loadPages_calm` is the result: the loop makes no
stray access exactly if it reaches all its frames.
-/

namespace TunaOs

open Word

open FrameSource (avail)

instance (e t : Nat) : Decidable (SelfMapped e t) :=
  inferInstanceAs (Decidable (_ ∧ _ ∧ _))

/-! ## The view of a machine -/

/-- What mapping pages depends on. -/
structure View (σ : Type) where
  frames : σ
  table : List (Fin 512) → Option Nat
  leaf : Nat → Nat

section

variable {σ : Type}

def Mach.view (M : Mach σ) : View σ := ⟨M.frames, M.tableAt, M.leaf⟩

/-- The view maps all frames of the list to themselves. -/
def View.Maps (V : View σ) (ts : List Nat) : Prop := ∀ t ∈ ts, SelfMapped (V.leaf t) t

instance (V : View σ) (ts : List Nat) : Decidable (V.Maps ts) :=
  inferInstanceAs (Decidable (∀ t ∈ ts, _))

variable [FrameSource σ]

/-- The machine's tables are active, and it looks like the view. -/
structure Mach.Shows (M : Mach σ) (V : View σ) : Prop where
  inv : VmInv M
  active : M.cr3 = some M.pml4
  frames : M.frames = V.frames
  table : ∀ q, q.length ≤ 3 → M.tableAt q = V.table q
  leaf : ∀ a, M.leaf a = V.leaf a

theorem VmInv.shows {M : Mach σ} (hinv : VmInv M) (hcr3 : M.cr3 = some M.pml4) : M.Shows M.view :=
  ⟨hinv, hcr3, rfl, fun _ _ => rfl, fun _ => rfl⟩

/-- The next free frame. -/
def View.next (V : View σ) : Nat := (FrameSource.alloc V.frames).2

/-- The view when that frame is taken. -/
def View.draw (V : View σ) : View σ := { V with frames := (FrameSource.alloc V.frames).1 }

/-- `descend`: the table at a path, which is the next free frame if there is none. -/
def View.enter (V : View σ) (q : List (Fin 512)) : Nat × View σ :=
  match V.table q with
  | some t => (t, V)
  | none => (V.next, { V.draw with table := fun r => if r = q then some V.next else V.table r })

/-- `vmm_map_page`: the tables that it accesses, and the view afterwards. -/
def View.map (V : View σ) (virt phys flags : Nat) : List Nat × View σ :=
  let (t₁, V₁) := V.enter [tableIndex 39 virt]
  let (t₂, V₂) := V₁.enter [tableIndex 39 virt, tableIndex 30 virt]
  let (t₃, V₃) := V₂.enter (pathOf virt)
  ([(V.table []).getD 0, t₁, t₂, t₃], { V₃ with
    leaf := fun a => if pageOf a = pageOf virt then (phys &&& pageMask) ||| flags else V.leaf a })

/-- One turn of the loop of `load_segment`. -/
def View.turn (V : View σ) (flags page : Nat) : List Nat × View σ :=
  let (ts, V') := V.draw.map page V.next flags
  (V.next :: ts, V')

theorem View.turn_fst (V : View σ) (flags page : Nat) :
    (V.turn flags page).1 = V.next :: (V.draw.map page V.next flags).1 := rfl

/-- In each turn the frames that it accesses are mapped to themselves. -/
def View.Reaches (flags : Nat) : View σ → List Nat → Prop
  | _, [] => True
  | V, page :: pages => V.Maps (V.turn flags page).1 ∧ (V.turn flags page).2.Reaches flags pages

instance decidableReaches (flags : Nat) : ∀ (V : View σ) (pages : List Nat),
    Decidable (V.Reaches flags pages)
  | _, [] => inferInstanceAs (Decidable True)
  | V, page :: pages =>
      haveI := decidableReaches flags (V.turn flags page).2 pages
      inferInstanceAs (Decidable (_ ∧ _))

/-- The first frame of the list that is not mapped to itself is not mapped at all. -/
def Stuck (leaf : Nat → Nat) : List Nat → Prop
  | [] => False
  | t :: ts => (leaf t).testBit 0 = false ∨ (SelfMapped (leaf t) t ∧ Stuck leaf ts)

/-- In some turn the first frame that is not reached is not mapped. -/
def View.Halts (flags : Nat) : View σ → List Nat → Prop
  | _, [] => False
  | V, page :: pages => Stuck V.leaf (V.turn flags page).1
      ∨ (V.Maps (V.turn flags page).1 ∧ (V.turn flags page).2.Halts flags pages)

/-! ## `vmm_map_page` -/

variable {M M' M₁ M₂ N : Mach σ} {V : View σ} {flags virt phys t₁ t₂ t₃ : Nat}

theorem Grows.active {P : Nat → Prop} (h : Grows P M M') (hcr3 : M.cr3 = some M.pml4) :
    M'.cr3 = some M'.pml4 := by
  rw [h.cr3, h.pml4]
  exact hcr3

/-- A step makes no table but the one it leads to. -/
theorem LeadsTo.tableAt_eq {p q r : List (Fin 512)} {u : Nat} (h : LeadsTo M N flags p q u)
    (hd : Descended M N) (hr : r.length ≤ 3) (hrq : r = q → M.Has q) :
    N.tableAt r = M.tableAt r := by
  cases ht : M.tableAt r with
  | some t => exact hd.grows.path r t hr ht
  | none =>
      have hno : ¬ M.Has r := by
        rw [Mach.Has, ht]
        decide
      refine Option.not_isSome_iff_eq_none.mp fun hsome => hno ?_
      rcases (h.has r hr).mp hsome with hold | heq
      · exact hold
      · exact heq ▸ hrq heq

/-- Going down a level. -/
theorem Mach.Shows.enter {p q : List (Fin 512)} {u : Nat} (h : M.Shows V) (hd : Descended M N)
    (hl : LeadsTo M N flags p q u) (hq : q.length ≤ 3) :
    u = (V.enter q).1 ∧ N.Shows (V.enter q).2 := by
  have hleaf : ∀ a, N.leaf a = V.leaf a := fun a => (hd.grows.leaf a id).trans (h.leaf a)
  have hactive := hd.grows.active h.active
  have hframes := hl.drawn.state
  rw [View.enter, ← h.table q hq]
  cases ht : M.tableAt q with
  | some t =>
      have hhas : M.Has q := Option.isSome_iff_exists.mpr ⟨t, ht⟩
      have hsame := hd.grows.path q t hq ht
      rw [Mach.lacks, if_pos hhas] at hframes
      refine ⟨Option.some.inj (hl.table.symm.trans hsame), hd.inv, hactive,
        hframes.trans h.frames, fun r hr => ?_, hleaf⟩
      exact (hl.tableAt_eq hd hr fun _ => hhas).trans (h.table r hr)
  | none =>
      have hno : ¬ M.Has q := by
        rw [Mach.Has, ht]
        decide
      have hu : u = V.next := by
        rw [hl.fresh hno, h.frames]
        rfl
      rw [Mach.lacks, if_neg hno, h.frames] at hframes
      refine ⟨hu, hd.inv, hactive, hframes, fun r hr => ?_, hleaf⟩
      by_cases hrq : r = q
      · rw [hrq, hl.table, hu]
        exact (if_pos rfl).symm
      · refine Eq.trans ?_ (if_neg hrq).symm
        exact (hl.tableAt_eq hd hr fun h => absurd h hrq).trans (h.table r hr)

/-- The way down accesses the tables on it, but for the last one if that was there. -/
theorem WayDown.calm (h : WayDown M M₁ M₂ N flags virt t₁ t₂ t₃) (hcr3 : M.cr3 = some M.pml4) :
    N.stray = false ∧ SelfMapped (M.leaf t₃) t₃ ↔
      M.stray = false ∧ ∀ t ∈ [M.pml4, t₁, t₂, t₃], SelfMapped (M.leaf t) t := by
  have hleaf1 : ∀ a, M₁.leaf a = M.leaf a := fun a => h.descended₁.grows.leaf a id
  have hleaf2 : ∀ a, M₂.leaf a = M.leaf a := fun a =>
    (h.descended₂.grows.leaf a id).trans (hleaf1 a)
  have hcr31 := h.descended₁.grows.active hcr3
  have hcr32 := h.descended₂.grows.active hcr31
  have h1 := h.leads₁.calm hcr3 M.pml4 rfl
  have h2 := h.leads₂.calm hcr31 t₁ h.leads₁.table
  have h3 := h.leads₃.calm hcr32 t₂ h.leads₂.table
  simp only [hleaf1] at h2
  simp only [hleaf2] at h3
  rw [List.forall_mem_cons, List.forall_mem_cons, List.forall_mem_cons, List.forall_mem_singleton]
  constructor
  · rintro ⟨hN, ht3⟩
    obtain ⟨hM2, ht2, -⟩ := h3.mp hN
    obtain ⟨hM1, ht1, -⟩ := h2.mp hM2
    obtain ⟨hM, hroot, -⟩ := h1.mp hM1
    exact ⟨hM, hroot, ht1, ht2, ht3⟩
  · rintro ⟨hM, hroot, ht1, ht2, ht3⟩
    have hM1 := h1.mpr ⟨hM, hroot, fun _ => ht1⟩
    have hM2 := h2.mpr ⟨hM1, ht1, fun _ => ht2⟩
    exact ⟨h3.mpr ⟨hM2, ht2, fun _ => ht3⟩, ht3⟩

/-- The way down is the one that the view tells. -/
theorem WayDown.shows (h : WayDown M M₁ M₂ N flags virt t₁ t₂ t₃) (hV : M.Shows V)
    (phys leafFlags : Nat) :
    (V.map virt phys leafFlags).1 = [M.pml4, t₁, t₂, t₃] ∧ N.Shows { (V.map virt phys leafFlags).2
      with leaf := V.leaf } := by
  obtain ⟨h1, hs1⟩ := hV.enter h.descended₁ h.leads₁ (by simp)
  obtain ⟨h2, hs2⟩ := hs1.enter h.descended₂ h.leads₂ (by simp)
  obtain ⟨h3, hs3⟩ := hs2.enter h.descended₃ h.leads₃ (by simp)
  constructor
  · rw [h1, h2, h3, View.map, ← hV.table [] (by simp)]
    rfl
  · exact ⟨hs3.inv, hs3.active, hs3.frames, hs3.table,
      fun a => (h.descended.grows.leaf a id).trans (hV.leaf a)⟩

/-- `vmm_map_page` when there are frames for the tables. -/
theorem Mach.Shows.map (h : M.Shows V) (hf : flags < 8) (hp : phys < 2 ^ 64)
    (hM' : (vmmMapPage virt phys flags M).2 = M') (hoom : M'.oom = false) :
    M'.Shows (V.map virt phys flags).2
      ∧ (M'.stray = false ↔ M.stray = false ∧ V.Maps (V.map virt phys flags).1)
      ∧ ∀ t ∈ (V.map virt phys flags).1, M'.IsTable t := by
  obtain ⟨-, hdry, -⟩ | ⟨M₁, M₂, N, t₁, t₂, t₃, hway, hset⟩ := vmmMapPage_steps h.inv hM'
  · rw [hdry] at hoom
    cases hoom
  obtain ⟨htables, hN⟩ := hway.shows h phys flags
  obtain ⟨hinv, hg, -, ⟨hdry, -⟩ | ⟨-, -, hleaf⟩⟩ := vmmMapPage_spec h.inv hf hp hM'
  · rw [hdry] at hoom
    cases hoom
  obtain ⟨hframes, hsame, -⟩ :=
    setLeaf_count hN.inv hway.leads₃.table (or_flags_lt hf (base_lt hp)) hset
  refine ⟨⟨hinv, hg.active h.active, hframes.trans hN.frames,
    fun q hq => (hsame q hq).trans (hN.table q hq), fun a => ?_⟩, ?_, ?_⟩
  · rw [hleaf a]
    exact congrArg _ (h.leaf a)
  · rw [← hset, setLeaf_calm hN.inv hN.active hway.leads₃.table, hN.leaf, ← h.leaf,
      hway.calm h.active, htables, View.Maps]
    simp only [h.leaf]
  · -- the tables stay where the way down has led to them
    have hkeep : ∀ q t, q.length ≤ 3 → N.tableAt q = some t → M'.IsTable t := fun q t hq ht =>
      ⟨q, hq, (hsame q hq).trans ht⟩
    have hg2 := hway.descended₂.grows.trans hway.descended₂.inv hway.descended₃.grows
    rw [htables, List.forall_mem_cons, List.forall_mem_cons, List.forall_mem_cons,
      List.forall_mem_singleton]
    refine ⟨⟨[], by simp, ?_⟩, hkeep _ _ (by simp) (hg2.path _ _ (by simp) hway.leads₁.table),
      hkeep _ _ (by simp) (hway.descended₃.grows.path _ _ (by simp) hway.leads₂.table),
      hkeep _ _ (by simp) hway.leads₃.table⟩
    rw [← hg.pml4]
    rfl

/-! ## `load_segment` -/

/-- Filling a frame accesses it. -/
theorem InHand.fill_calm {f n a : Nat} (h : InHand (fun _ => False) M N f)
    (hcr3 : M.cr3 = some M.pml4) (g : Nat → UInt8) (ha : f ≤ a) (hn : a + n ≤ f + 4096) :
    (forLoop n (fun i => store8 (a + i) (g i)) N).2.stray = false ↔
      N.stray = false ∧ (0 < n → SelfMapped (M.leaf f) f) := by
  have hf0 := (FrameSource.avail_frame h.drawn).1
  have hloop := forLoop_induct (n := n) (fun i => store8 (a + i) (g i)) (M := N)
    (Q := fun i K => InHand (fun _ => False) M K f ∧ (K.stray = false ↔
      N.stray = false ∧ (0 < i → SelfMapped (M.leaf f) f)))
    ⟨h, by simp⟩ ?_
  · exact hloop.2
  · rintro i K hi ⟨hK, hiff⟩
    have hfr : frameOf (a + i) = f := by
      simp only [frameOf]
      omega
    simp only [store8, Mach.store8_phys hK.inv.bus]
    refine ⟨hK.write hfr fun x hx => Mem.set_other ?_, ?_⟩
    · rintro rfl
      exact hx hfr
    · rw [Mach.withMem_stray, hK.touch_frame hcr3 hfr, hiff]
      exact ⟨fun h => ⟨h.1.1, fun _ => h.2⟩, fun h => ⟨⟨h.1, fun _ => h.2 (Nat.succ_pos i)⟩,
        h.2 (Nat.succ_pos i)⟩⟩

/-- So does building a page in it. -/
theorem InHand.load_calm {f : Nat} (h : InHand (fun _ => False) M N f)
    (hcr3 : M.cr3 = some M.pml4) (img : Image) (ph : Phdr) {page : Nat}
    (hpage : page + 4096 < 2 ^ 64) :
    (copyData img ph page f (zeroFrame f N).2).2.stray = false ↔
      N.stray = false ∧ SelfMapped (M.leaf f) f := by
  obtain ⟨hz, -⟩ : InHand (fun _ => False) M (zeroFrame f N).2 f ∧
      (zeroFrame f N).2.mem = N.mem.overlay f 4096 fun _ => 0 :=
    h.fill (fun _ => 0) (Nat.le_refl f) (Nat.le_refl _) (by rw [zeroFrame])
  have hzero : (zeroFrame f N).2.stray = false ↔ N.stray = false ∧ SelfMapped (M.leaf f) f := by
    have hfill := h.fill_calm hcr3 (fun _ => 0) (Nat.le_refl f) (Nat.le_refl _)
    rwa [forall_prop_of_true (by decide)] at hfill
  obtain ⟨hstart, hend⟩ := ph.copy_inside hpage
  unfold copyData
  by_cases hcopy : ph.copyStart page < ph.copyEnd page
  · rw [if_pos hcopy, hz.fill_calm hcr3 _ (by omega) (by omega), hzero]
    exact ⟨fun h => h.1, fun h => ⟨h, fun _ => h.2⟩⟩
  · rw [if_neg hcopy]
    exact hzero

/-- A turn of the loop of `load_segment`: the frame is filled in `N`, and in `M'` the page is
mapped to it. -/
structure LoadTurn (img : Image) (ph : Phdr) (page : Nat) (V : View σ) (M N M' : Mach σ) :
    Prop where
  frame : (allocFrame M).1 ≠ 0
  next : (allocFrame M).1 = V.next
  filled : (copyData img ph page (allocFrame M).1
    (zeroFrame (allocFrame M).1 (allocFrame M).2).2).2 = N
  mapped : (event (.invlpg page) (vmmMapPage page (allocFrame M).1 ph.pageFlags N).2).2 = M'
  oom : M'.oom = false
  shows_filled : N.Shows V.draw
  calm_filled : N.stray = false ↔ M.stray = false ∧ SelfMapped (V.leaf V.next) V.next
  shows_mapped : M'.Shows (V.turn ph.pageFlags page).2
  calm_mapped : M'.stray = false ↔ M.stray = false ∧ V.Maps (V.turn ph.pageFlags page).1
  grows : Grows (fun m => m = pageOf page) M M'
  touched : ∀ t ∈ (V.turn ph.pageFlags page).1, M'.IsTable t ∨ avail M.frames t

/-- The loop takes such a turn if it does not run out of frames. -/
theorem Mach.Shows.loadTurn (hV : M.Shows V) (img : Image) (ph : Phdr) {n page : Nat}
    (hpage : page + 4096 < 2 ^ 64) (hoom : (loadPages img ph (n + 1) page M).2.oom = false) :
    ∃ N M', LoadTurn img ph page V M N M'
      ∧ (loadPages img ph (n + 1) page M).2 = (loadPages img ph n (page + 4096) M').2 := by
  simp only [loadPages, Act.bind_apply] at hoom ⊢
  obtain ⟨hmem, ⟨h0, -⟩ | ⟨h0, hhand⟩⟩ := allocFrame_spec (fun _ => False) hV.inv
  · rw [if_pos h0, Act.pure_apply, allocFrame_oom h0] at hoom
    cases hoom
  simp only [if_neg h0, Act.bind_apply] at hoom ⊢
  have hnext : (allocFrame M).1 = V.next := congrArg (fun s => (FrameSource.alloc s).2) hV.frames
  have hcalmN := hhand.load_calm hV.active img ph hpage
  have hstray : (allocFrame M).2.stray = M.stray := rfl
  rw [hstray, hV.leaf] at hcalmN
  generalize hN : (copyData img ph page (allocFrame M).1
    (zeroFrame (allocFrame M).1 (allocFrame M).2).2).2 = N at hoom hcalmN ⊢
  obtain ⟨hload, hsame, -⟩ := hhand.load img ph page hpage hN
  have hf64 := (FrameSource.avail_frame hload.drawn).2.2
  -- with the frame taken the machine still looks like the view
  have hVN : N.Shows V.draw := by
    refine ⟨hload.inv, hload.grows.active hV.active, ?_, fun q hq => ?_, fun a => ?_⟩
    · rw [← hN, copyData_frames]
      exact congrArg (fun s => (FrameSource.alloc s).1) hV.frames
    · rw [hload.tableAt_eq hV.inv (fun x hx => (hsame x hx).trans (congrFun hmem x)) hq]
      exact hV.table q hq
    · exact (hload.grows.leaf a id).trans (hV.leaf a)
  generalize hM₂ : (vmmMapPage page (allocFrame M).1 ph.pageFlags N).2 = M₂ at hoom ⊢
  have hoom₂ : M₂.oom = false := by
    cases h : M₂.oom with
    | false => rfl
    | true =>
        have hstay := primitive_oom.loadPages img ph n (page + 4096) (event (.invlpg page) M₂).2 h
        exact absurd (hoom.symm.trans hstay) (by decide)
  obtain ⟨hV₂, hcalm, htabs⟩ := hVN.map ph.pageFlags_lt (by omega) hM₂ hoom₂
  refine ⟨N, (event (.invlpg page) M₂).2, ⟨h0, hnext, hN, by rw [hM₂], hoom₂, hVN, ?_, ?_, ?_, ?_,
    ?_⟩, rfl⟩
  · rw [hcalmN, hnext]
  · rw [hnext] at hV₂
    exact ⟨hV₂.inv.event _, hV₂.active, hV₂.frames, hV₂.table, hV₂.leaf⟩
  · have hstray₂ : (event (.invlpg page) M₂).2.stray = M₂.stray := rfl
    rw [hstray₂, hcalm, hcalmN, hnext, View.turn]
    simp only [View.Maps, List.forall_mem_cons, and_assoc]
    exact Iff.rfl
  · obtain ⟨-, hg, -⟩ := vmmMapPage_spec hload.inv ph.pageFlags_lt
      (show (allocFrame M).1 < 2 ^ 64 by omega) hM₂
    exact ((hload.grows.mono fun _ => False.elim).trans hload.inv hg).event _
  · intro t ht
    rw [hnext] at htabs
    rcases List.mem_cons.mp ht with rfl | ht
    · exact Or.inr (hnext ▸ hload.drawn)
    · exact Or.inl (htabs t ht)

/-- The loop of `load_segment` strays unless it reaches every frame. -/
theorem loadPages_calm (img : Image) (ph : Phdr) : ∀ (n page : Nat) {M : Mach σ} {V : View σ},
    M.Shows V → page + 4096 * n < 2 ^ 64 → (loadPages img ph n page M).2.oom = false →
    ((loadPages img ph n page M).2.stray = false ↔
      M.stray = false ∧ V.Reaches ph.pageFlags (pageRun n page)) := by
  intro n
  induction n with
  | zero => exact fun page M V _ _ _ => ⟨fun h => ⟨h, trivial⟩, fun h => h.1⟩
  | succ n ih =>
      intro page M V hV hlt hoom
      rw [Nat.mul_succ, ← Nat.add_assoc] at hlt
      obtain ⟨N, M', hturn, hrun⟩ := hV.loadTurn img ph (by omega) hoom
      rw [hrun] at hoom ⊢
      rw [ih (page + 4096) hturn.shows_mapped (by omega) hoom, hturn.calm_mapped, and_assoc]
      exact Iff.rfl

/-- A set of frames that has the tables and the free frames and is mapped to itself is enough,
if no page but the last is mapped over it. -/
theorem loadPages_reaches (img : Image) (ph : Phdr) {W : Nat → Prop} :
    ∀ (n page : Nat) {M : Mach σ} {V : View σ}, M.Shows V → page + 4096 * n < 2 ^ 64 →
    (loadPages img ph n page M).2.oom = false → (∀ t, M.IsTable t → W t) →
    (∀ f, avail M.frames f → W f) → (∀ t, W t → SelfMapped (V.leaf t) t) →
    (∀ j, j + 1 < n → ∀ t, W t → pageOf t ≠ pageOf (page + 4096 * j)) →
    V.Reaches ph.pageFlags (pageRun n page) := by
  intro n
  induction n with
  | zero => exact fun _ _ _ _ _ _ _ _ _ _ => trivial
  | succ n ih =>
      intro page M V hV hlt hoom htab hav hself hspared
      rw [Nat.mul_succ, ← Nat.add_assoc] at hlt
      have hnext : page + 4096 + 4096 * n < 2 ^ 64 := by omega
      obtain ⟨N, M', hturn, hrun⟩ := hV.loadTurn img ph (by omega) hoom
      rw [hrun] at hoom
      have htab' : ∀ t, M'.IsTable t → W t := fun t ht =>
        (hturn.grows.new t ht).elim (htab t) (hav t)
      refine ⟨fun t ht => hself t ((hturn.touched t ht).elim (htab' t) (hav t)), ?_⟩
      cases n with
      | zero => trivial
      | succ n =>
          refine ih (page + 4096) hturn.shows_mapped hnext hoom htab'
            (fun f hf => hav f (hturn.grows.avail f hf)) (fun t ht => ?_) fun j hj t ht => ?_
          · have hne := hspared 0 (by omega) t ht
            rw [Nat.mul_zero, Nat.add_zero] at hne
            rw [← hturn.shows_mapped.leaf, hturn.grows.leaf t hne, hV.leaf]
            exact hself t ht
          · have hne := hspared (j + 1) (by omega) t ht
            rwa [show page + 4096 * (j + 1) = page + 4096 + 4096 * j by omega] at hne

end

end TunaOs
