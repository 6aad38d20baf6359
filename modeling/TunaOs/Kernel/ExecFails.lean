import TunaOs.Kernel.UserReads

/-!
# When `SYS_EXEC` fails

`handle_exec` returns -1 in four places.  Two come before anything is loaded.  The third
is taken when `elf_load` returns 0: it does so for a file that it rejects, but also for
one with entry 0, and then it has loaded the file.  The fourth is taken when there is no
frame for the stack, after the file is loaded.

Whether the caller notices depends on the first page that the call tries to map
(`Image.firstMapped`).  If there are frames for it and for the tables above it, the page
gets a new frame, and it keeps that or another new one to the end (`Tried`).  Otherwise
the allocator is empty from there on, and nothing is mapped (`Stalled`).
-/

namespace TunaOs

open FrameSource (avail)

/-! ## The allocator -/

theorem free_of_alloc {s : Pmm} {n : Nat} (h : (FrameSource.alloc s).1.Free n) : s.Free n := by
  have halloc : FrameSource.alloc s = pmmAllocFrame s := rfl
  rw [halloc] at h
  rcases pmmAllocFrame_cases s with ⟨heq, -⟩ | ⟨f, -, -, heq⟩
  · rwa [heq] at h
  · rw [heq, free_bitmapSet_usedInc] at h
    exact h.1

theorem free_of_advance {s : Pmm} {n : Nat} : ∀ {k : Nat}, (advance s k).Free n → s.Free n
  | 0, h => h
  | _ + 1, h => free_of_alloc (free_of_advance h)

/-- An allocator that has run dry is empty. -/
theorem RanDry.none {s t : Pmm} {k : Nat} (h : RanDry s k t) (h0 : ¬ s.Free 0) (f : Nat) :
    ¬ avail t f := by
  obtain ⟨j, -, -, hzero, rfl⟩ := h
  intro hf
  exact not_avail_of_alloc_zero (fun h => h0 (free_of_advance h)) hzero f
    (FrameSource.avail_alloc hf).1

/-! ## The first page -/

section

variable {M N N' : Mach Pmm} {f v virt flags : Nat}

/-- No page was mapped between `M` and `N`, and no frame is left. -/
structure Stalled (M N : Mach Pmm) : Prop where
  inv : VmInv N
  grows : Grows (fun _ => False) M N
  none : ∀ f, ¬ avail N.frames f

theorem dry_stalled (M : Mach Pmm) : Dry (Stalled M) := by
  refine ⟨fun _ h => h.none, fun N h => ?_⟩
  have hnone : ∀ f, ¬ avail (allocFrame N).2.frames f := fun f hf =>
    h.none f (FrameSource.avail_alloc hf).1
  obtain ⟨-, ⟨-, hi, hg, -, -⟩ | ⟨-, hhand⟩⟩ := allocFrame_spec (fun _ => False) h.inv
  · exact ⟨hi, h.grows.trans h.inv hg, hnone⟩
  · exact absurd hhand.drawn (h.none _)

/-- A program that starts in `M` and ends in `N` maps the page of `v` first. -/
def Tried (M : Mach Pmm) (v : Nat) (N : Mach Pmm) : Prop :=
  (Plenty M.frames (1 + M.missing v) ∧ ∀ a, pageOf a = pageOf v → Fresh M N a) ∨
    (¬ Plenty M.frames (1 + M.missing v) ∧ Stalled M N)

/-- There is no frame for the page. -/
theorem tried_allocFrame (hinv : VmInv M) (hzero : ¬ M.frames.Free 0)
    (h0 : (allocFrame M).1 = 0) : Tried M v (allocFrame M).2 := by
  have hdry : RanDry M.frames 1 (allocFrame M).2.frames := .one h0
  obtain ⟨-, ⟨-, hi, hg, -, -⟩ | ⟨hne, -⟩⟩ := allocFrame_spec (fun _ => False) hinv
  · exact Or.inr ⟨fun hp => hdry.not_plenty (hp.mono (Nat.le_add_right ..)), hi, hg,
      hdry.none hzero⟩
  · exact absurd h0 hne

/-- A frame is in hand for the page. -/
theorem InHand.tried (h : InHand (fun _ => False) M N f) (hinv : VmInv M)
    (hzero : ¬ M.frames.Free 0) (hmem : ∀ x, frameOf x ≠ f → N.mem x = M.mem x)
    (hframes : N.frames = (FrameSource.alloc M.frames).1)
    (halloc : (FrameSource.alloc M.frames).2 ≠ 0)
    (hflags : flags < 8) (hpres : flags.testBit 0 = true) (huser : flags.testBit 2 = true)
    (hN' : (vmmMapPage virt f flags N).2 = N') : Tried M virt N' := by
  obtain ⟨-, -, hf64⟩ := FrameSource.avail_frame h.drawn
  have hlacks : ∀ q, q.length ≤ 3 → N.lacks q = M.lacks q := fun q hq =>
    Mach.lacks_congr (Mach.has_congr (h.tableAt_eq hinv hmem hq))
  have hmissing : N.missing virt = M.missing virt := by
    rw [Mach.missing, Mach.missing, hlacks _ (by simp), hlacks _ (by simp), hlacks _ (by simp)]
  have hone : Drawn M.frames 1 N.frames := hframes ▸ .one halloc
  have hcount := vmmMapPage_count h.inv hflags (show f < 2 ^ 64 by omega) hN'
  rw [hmissing] at hcount
  rcases hcount with ⟨hdrawn, hhas⟩ | ⟨hdry, hdesc⟩
  · refine Or.inl ⟨(hone.trans hdrawn).plenty, ?_⟩
    exact (h.fresh hflags hpres huser (fun _ hg => hg) hN').2
      ((hhas (pathOf virt) (by simp)).mpr (Or.inr List.prefix_rfl))
  · have hall := hone.ranDry hdry
    exact Or.inr ⟨hall.not_plenty, hdesc.inv, h.grows.trans h.inv hdesc.grows, hall.none hzero⟩

theorem Tried.event (h : Tried M v N) (e : MmuEvent) : Tried M v (event e N).2 := by
  rcases h with ⟨hplenty, hfresh⟩ | ⟨hdry, hstop⟩
  · exact Or.inl ⟨hplenty, fun a ha => (hfresh a ha).congr rfl⟩
  · exact Or.inr ⟨hdry, hstop.inv.event e, hstop.grows.event e, hstop.none⟩

/-! ## Loading an image -/

theorem Tried.loadPages (img : Image) (ph : Phdr) {n page : Nat} (h : Tried M v N) (hinv : VmInv N)
    (hav : ∀ g, avail N.frames g → avail M.frames g) (hpage : page % 4096 = 0)
    (hlt : page + 4096 * n < 2 ^ 64) : Tried M v (loadPages img ph n page N).2 := by
  rcases h with ⟨hplenty, hfresh⟩ | ⟨hdry, hstop⟩
  · exact Or.inl ⟨hplenty, fun a ha =>
      (loadPages_fresh img ph n page hinv hpage hlt hav rfl).1 a (hfresh a ha)⟩
  · exact Or.inr ⟨hdry, (dry_stalled M).loadPages img ph n page N hstop⟩

/-- The first page of a segment. -/
theorem tried_loadPages (img : Image) (ph : Phdr) {n page : Nat} (hinv : VmInv M)
    (hzero : ¬ M.frames.Free 0) (hpage : page % 4096 = 0) (hlt : page + 4096 * (n + 1) < 2 ^ 64) :
    Tried M page (TunaOs.loadPages img ph (n + 1) page M).2 := by
  rw [Nat.mul_succ, ← Nat.add_assoc] at hlt
  simp only [TunaOs.loadPages, Act.bind_apply]
  obtain ⟨hmem, ⟨h0, -⟩ | ⟨h0, hhand⟩⟩ := allocFrame_spec (fun _ => False) hinv
  · rw [if_pos h0]
    exact tried_allocFrame hinv hzero h0
  · simp only [h0, if_false, Act.bind_apply]
    have hframes : (allocFrame M).2.frames = (FrameSource.alloc M.frames).1 := rfl
    have halloc : (FrameSource.alloc M.frames).2 ≠ 0 := h0
    generalize (allocFrame M).1 = f at hhand
    generalize (allocFrame M).2 = M₁ at hhand hmem hframes
    generalize hN : (copyData img ph page f (zeroFrame f M₁).2).2 = N
    obtain ⟨hload, hother, -⟩ := hhand.load img ph page (by omega) hN
    have hframesN : N.frames = (FrameSource.alloc M.frames).1 := by
      rw [← hN, copyData_frames, hframes]
    obtain ⟨-, -, hf64⟩ := FrameSource.avail_frame hload.drawn
    generalize hN₃ : (vmmMapPage page f ph.pageFlags N).2 = N₃
    have htried := hload.tried hinv hzero (fun x hx => by rw [hother x hx, hmem]) hframesN halloc
      ph.pageFlags_lt ph.pageFlags_bits.1 ph.pageFlags_bits.2.1 hN₃
    obtain ⟨hi, hg, -⟩ := vmmMapPage_spec hload.inv ph.pageFlags_lt (by omega) hN₃
    exact (htried.event (.invlpg page)).loadPages img ph (hi.event _)
      (fun g hg' => hload.grows.avail g (hg.avail g hg')) (by omega) (by omega)

/-- The first page that loading the first `i` segments maps. -/
def Image.firstPage (img : Image) : Nat → Option Nat
  | 0 => none
  | i + 1 => (img.firstPage i).or
      (if (img.phdr i).type = ptLoad ∧ 0 < (img.phdr i).pageCount then some (img.phdr i).vaddrStart
        else none)

/-- `elf_load` has tried the first page, or there is none. -/
theorem elfLoad_tried {img : Image} (hinv : VmInv M) (hzero : ¬ M.frames.Free 0)
    (hacc : img.accepted = true) (hN : (elfLoad img M).2 = N) :
    (img.firstPage img.phnum = none ∧ N = M) ∨
      ∃ v, img.firstPage img.phnum = some v ∧ Tried M v N := by
  rw [elfLoad_accepted hacc] at hN
  have hloop := forLoop_induct (n := img.phnum) (M := M) (fun i =>
      if (img.phdr i).type ≠ ptLoad then pure () else loadSegment img (img.phdr i))
    (Q := fun i N => VmInv N ∧ (∀ g, avail N.frames g → avail M.frames g) ∧
      ((img.firstPage i = none ∧ N = M) ∨ ∃ v, img.firstPage i = some v ∧ Tried M v N))
    ⟨hinv, fun _ h => h, Or.inl ⟨rfl, rfl⟩⟩ fun i N hi hQ => ?_
  · rw [hN] at hloop
    exact hloop.2.2
  · obtain ⟨hiN, havN, hcase⟩ := hQ
    have hv := img.phdr_vaddr_lt i
    have hmod := (img.phdr i).vaddrStart_mod hv
    have hspan := Phdr.span_lt hv
    by_cases htype : (img.phdr i).type = ptLoad
    · simp only [htype, ne_eq, not_true_eq_false, if_false]
      obtain ⟨hi', hg', -, -⟩ := loadSegment_spec img hv hiN rfl
      refine ⟨hi', fun g hg => havN g (hg'.avail g hg), ?_⟩
      rw [Image.firstPage]
      rcases hcase with ⟨hnone, rfl⟩ | ⟨v, hsome, htried⟩
      · rw [hnone, Option.none_or, loadSegment]
        cases hcount : (img.phdr i).pageCount with
        | zero => exact Or.inl ⟨if_neg fun h => Nat.lt_irrefl _ h.2, rfl⟩
        | succ n =>
            rw [hcount] at hspan
            exact Or.inr ⟨_, if_pos ⟨htype, Nat.succ_pos n⟩,
              tried_loadPages img (img.phdr i) hinv hzero hmod hspan⟩
      · rw [hsome, Option.some_or]
        exact Or.inr ⟨v, rfl, htried.loadPages img (img.phdr i) hiN havN hmod hspan⟩
    · simp only [htype, ne_eq, not_false_eq_true, if_true, Act.pure_apply]
      refine ⟨hiN, havN, ?_⟩
      rwa [Image.firstPage, if_neg fun h => htype h.1, Option.or_none]

/-! ## Mapping the stack -/

/-- Pages with new frames stay such pages. -/
theorem mapStack_fresh : ∀ (n vaddr : Nat) {N : Mach Pmm}, VmInv N →
    (∀ g, avail N.frames g → avail M.frames g) → ∀ a, Fresh M N a →
    Fresh M (mapStack n vaddr N).2 a
  | 0, _, _, _, _, _, h => h
  | n + 1, vaddr, N, hinv, hav, a, h => by
      simp only [mapStack, Act.bind_apply]
      obtain ⟨-, ⟨h0, -, hg, -, -⟩ | ⟨h0, hhand⟩⟩ := allocFrame_spec (fun _ => False) hinv
      · rw [if_pos h0]
        exact h.congr (hg.leaf a id)
      · rw [if_neg h0, Act.bind_apply]
        obtain ⟨-, -, hf64⟩ := FrameSource.avail_frame hhand.drawn
        generalize hN₁ : (vmmMapPage vaddr (allocFrame N).1 stackFlags (allocFrame N).2).2 = N₁
        obtain ⟨hi, hg, -⟩ := vmmMapPage_spec hhand.inv (by decide) (by omega) hN₁
        refine mapStack_fresh n _ hi
          (fun g hg' => hav g (hhand.grows.avail g (hg.avail g hg'))) a ?_
        exact (hhand.fresh (by decide) (by decide) (by decide) hav hN₁).1 a h

theorem Tried.mapStack (h : Tried M v N) (hinv : VmInv N)
    (hav : ∀ g, avail N.frames g → avail M.frames g) (n vaddr : Nat) :
    Tried M v (mapStack n vaddr N).2 := by
  rcases h with ⟨hplenty, hfresh⟩ | ⟨hdry, hstop⟩
  · exact Or.inl ⟨hplenty, fun a ha => mapStack_fresh n vaddr hinv hav a (hfresh a ha)⟩
  · exact Or.inr ⟨hdry, (dry_stalled M).mapStack n vaddr N hstop⟩

/-- The first page of a stack. -/
theorem tried_mapStack {n vaddr : Nat} (hinv : VmInv M) (hzero : ¬ M.frames.Free 0) :
    Tried M vaddr (TunaOs.mapStack (n + 1) vaddr M).2 := by
  simp only [TunaOs.mapStack, Act.bind_apply]
  obtain ⟨hmem, ⟨h0, -⟩ | ⟨h0, hhand⟩⟩ := allocFrame_spec (fun _ => False) hinv
  · rw [if_pos h0]
    exact tried_allocFrame hinv hzero h0
  · rw [if_neg h0, Act.bind_apply]
    obtain ⟨-, -, hf64⟩ := FrameSource.avail_frame hhand.drawn
    generalize hN₁ : (vmmMapPage vaddr (allocFrame M).1 stackFlags (allocFrame M).2).2 = N₁
    obtain ⟨hi, hg, -⟩ := vmmMapPage_spec hhand.inv (by decide) (by omega) hN₁
    have htried := hhand.tried hinv hzero (fun x _ => by rw [hmem]) rfl h0 (by decide) (by decide)
      (by decide) hN₁
    exact htried.mapStack hi (fun g hg' => hhand.grows.avail g (hg.avail g hg')) n _

/-! ## The call -/

/-- The first page that `handle_exec` maps for an image: a page of the image, or else one of
the stack. -/
def Image.firstMapped (img : Image) : Option Nat :=
  if img.accepted then
    (img.firstPage img.phnum).or (if img.entry = 0 then none else some childStackVaddr)
  else none

/-- A call that returns has changed neither the services nor the frame, except for `rax`. -/
theorem ExecRun.returns {S S' : Services} {frame g : InterruptFrame}
    (hrun : ExecRun S frame M (S', .ret g) N) : g = frame.withRax minusOne ∧ S' = S := by
  cases hrun <;> exact ⟨rfl, rfl⟩

/-- It has tried the first page, or there is none. -/
theorem ExecRun.tried {S S' : Services} {frame g : InterruptFrame}
    (hrun : ExecRun S frame M (S', .ret g) N) (hinv : VmInv M) (hzero : ¬ M.frames.Free 0) :
    ∃ b, (S.target frame M).bind (fun f => f.image.firstMapped) = none ∧ N = M.withFault b ∨
      ∃ v, (S.target frame M).bind (fun f => f.image.firstMapped) = some v ∧
        Tried (M.withFault b) v N := by
  obtain ⟨b, hb⟩ := M.readName_eq frame
  have hinv' := hinv.withFault b
  refine ⟨b, ?_⟩
  cases hrun with
  | notFound h =>
      rw [h]
      exact Or.inl ⟨rfl, hb⟩
  | @rejected f h hstarts =>
      rw [hb]
      rw [h, Option.bind_some, Image.firstMapped]
      by_cases hacc : f.image.accepted = true
      · have hentry : f.image.entry = 0 := Classical.byContradiction fun hne => hstarts ⟨hacc, hne⟩
        rw [if_pos hacc, if_pos hentry, Option.or_none]
        exact elfLoad_tried hinv' hzero hacc rfl
      · rw [if_neg hacc, elfLoad_rejected hacc]
        exact Or.inl ⟨rfl, rfl⟩
  | @noStack f h hstarts hstack =>
      right
      rw [hb, h, Option.bind_some, Image.firstMapped, if_pos hstarts.1, if_neg hstarts.2]
      rcases elfLoad_tried hinv' hzero hstarts.1 rfl with ⟨hnone, hsame⟩ | ⟨v, hsome, htried⟩
      · rw [hnone, hsame, Option.none_or]
        exact ⟨_, rfl, tried_mapStack hinv' hzero⟩
      · obtain ⟨hi, hg, -⟩ := Maps.elfLoad f.image (M.withFault b) hinv'
        rw [hsome, Option.some_or]
        exact ⟨v, rfl, htried.mapStack hi hg.avail _ _⟩

/-! ## What the caller sees -/

/-- The pages of user mode are mapped as before, and their bytes are the same. -/
def SameUser (M M' : Mach Pmm) : Prop :=
  ∀ a, M.UserPage a ∨ M'.UserPage a → M'.translate a = M.translate a ∧
    ∀ t, M.translate a = some t → M'.mem (t.frame + a % 4096) = M.mem (t.frame + a % 4096)

/-- Without a page that is mapped there is nothing to see. -/
theorem Rooted.sameUser {A : Nat → Prop} (h : Rooted A M) (hinv : VmInv N)
    (hg : Grows (fun _ => False) M N) : SameUser M N := by
  have htrans : ∀ a, N.translate a = M.translate a := by
    intro a
    rw [h.translate, Mach.translate, hg.cr3, h.cr3, ← hg.leaf a id]
    simp only [← hg.pml4]
    exact hinv.walk_eq a
  intro a ha
  refine ⟨htrans a, fun t ht => ?_⟩
  have hu : M.UserPage a := by
    rcases ha with hu | ⟨t, ht, htu⟩
    · exact hu
    · exact ⟨t, (htrans a).symm.trans ht, htu⟩
  obtain ⟨-, hplain, -⟩ := h.isolated.user a (userPage_decode (h.translate a) hu)
  have hframe : t.frame = M.leafFrame a :=
    congrArg Translation.frame (eq_of_decode ((h.translate a).symm.trans ht))
  have hfr : frameOf (t.frame + a % 4096) = M.leafFrame a := by
    rw [hframe, M.frameOf_leafFrame]
  exact hg.mem _ (hfr ▸ hplain.2) (hfr ▸ hplain.1)

theorem Fresh.not_sameUser {A : Nat → Prop} {a : Nat} (h : Fresh M N a) (hM : Rooted A M)
    (hN : Rooted A N) : ¬ SameUser M N := by
  intro hsame
  have huser : N.UserPage a := ⟨_, (hN.translate a).trans (if_pos h.present), h.user⟩
  exact h.translate_ne hM hN (hsame a (Or.inr huser)).1

end

/-- `SYS_EXEC` has a page to map, and the frames for it. -/
def Kernel.ExecMaps (k : Kernel Pmm) (frame : InterruptFrame) : Prop :=
  ∃ v, (k.services.target frame k.mach).bind (fun f => f.image.firstMapped) = some v ∧
    Plenty k.mach.frames (1 + k.mach.missing v)

theorem BootEnv.Reaches.not_free_zero {env : BootEnv} {C : StepCond} {k : Kernel Pmm}
    (hk : env.Reaches C k) : ¬ k.mach.frames.Free 0 := by
  have hI : ∀ s : Pmm, ¬ s.Free 0 → ¬ (FrameSource.alloc s).1.Free 0 :=
    fun s hs h => hs (free_of_alloc h)
  refine hk.invariant (I := fun k => ¬ k.mach.frames.Free 0) ?_
    fun _ _ _ h hs _ => (frames_kept (σ := Pmm) hI).step h hs
  rw [env.boot_mach]
  exact (primitive_frames hI).kheapMapPages _ _ _
    ((primitive_frames hI).vmmInit _ env.not_free_zero)

/-- How a call of `SYS_EXEC` that returns has run. -/
theorem Kernel.exec_run {k : Kernel Pmm} {frame g : InterruptFrame} {input : UInt8}
    (hrax : frame.rax = sysExec) (hret : (k.syscall frame input).2 = .ret g) :
    ExecRun k.services frame k.mach ((k.syscall frame input).1.services, .ret g)
      (k.syscall frame input).1.mach := by
  have hrun : CallRun k.services frame k.mach ((k.syscall frame input).1.services, .ret g)
      (k.syscall frame input).1.mach := by
    have hcall : syscallDispatch k.services frame input k.mach
        = (((k.syscall frame input).1.services, .ret g), (k.syscall frame input).1.mach) := by
      rw [← hret]
      rfl
    exact syscallDispatch_run hcall (fun h => by cases h)
  generalize (k.syscall frame input).1.mach = M' at hrun
  generalize (k.syscall frame input).1.services = S' at hrun
  cases hrun with
  | exec _ hrun => exact hrun
  | exit h => exact absurd (hrax.symm.trans h) (by decide)
  | handler _ _ h => exact absurd hrax h

/-- The caller sees nothing exactly if the call maps nothing. -/
theorem Rooted.exec_iff {A : Nat → Prop} {k : Kernel Pmm} {N : Mach Pmm} {S' : Services}
    {frame g : InterruptFrame} (hM : Rooted A k.mach) (hN : Rooted A N)
    (hzero : ¬ k.mach.frames.Free 0) (hrun : ExecRun k.services frame k.mach (S', .ret g) N) :
    SameUser k.mach N ↔ ¬ k.ExecMaps frame := by
  obtain ⟨b, ⟨hnone, rfl⟩ | ⟨v, hsome, htried⟩⟩ := hrun.tried hM.isolated.inv hzero
  · refine ⟨fun _ => ?_, fun _ => hM.sameUser hN.isolated.inv ?_⟩
    · rintro ⟨v, hv, -⟩
      rw [hnone] at hv
      cases hv
    · exact (Grows.refl k.mach).withFault k.mach.fault b
  · rcases htried with ⟨hplenty, hfresh⟩ | ⟨hdry, hstop⟩
    · have hf : Fresh k.mach N v := ⟨(hfresh v rfl).1, (hfresh v rfl).2, (hfresh v rfl).3⟩
      exact ⟨fun hsame => absurd hsame (hf.not_sameUser hM hN),
        fun hmaps => absurd ⟨v, hsome, hplenty⟩ hmaps⟩
    · refine ⟨fun _ => ?_, fun _ => hM.sameUser hstop.inv ?_⟩
      · rintro ⟨w, hw, hplenty⟩
        obtain rfl := Option.some.inj (hsome.symm.trans hw)
        exact hdry hplenty
      · exact hstop.grows.withFault k.mach.fault N.fault

/-- Without a root there are no pages of user mode, and no frames for them. -/
theorem Bare.exec_iff {k : Kernel Pmm} {N : Mach Pmm} (hM : Bare k.mach) (hN : Bare N)
    (frame : InterruptFrame) : SameUser k.mach N ↔ ¬ k.ExecMaps frame := by
  refine ⟨fun _ => ?_, fun _ a ha => ?_⟩
  · rintro ⟨v, -, hplenty⟩
    exact (hplenty.mono (Nat.le_add_right ..)).1 hM.starved.allocFrame.1
  · exact absurd ha fun h => h.elim (hM.not_userPage a) (hN.not_userPage a)

theorem BootEnv.Reaches.exec_iff {env : BootEnv} (hbus : env.bus = .phys) {k : Kernel Pmm}
    (hk : env.Reaches anyStep k) {frame g : InterruptFrame} {input : UInt8}
    (hrax : frame.rax = sysExec) (hret : (k.syscall frame input).2 = .ret g) :
    SameUser k.mach (k.syscall frame input).1.mach ↔ ¬ k.ExecMaps frame := by
  have hstep : KernelStep k (.syscall frame input) (k.syscall frame input).1 := .syscall
  rcases hk.rooted_or_bare hbus with hM | hM
  · exact hM.exec_iff (rooted_kept.step hM hstep) hk.not_free_zero (Kernel.exec_run hrax hret)
  · exact hM.exec_iff (bare_kept.step hM hstep) frame

theorem Kernel.execMaps_onBus {k : Kernel Pmm} {frame : InterruptFrame} (b : Bus) :
    (k.onBus b).ExecMaps frame ↔ k.ExecMaps frame := by
  rw [Kernel.ExecMaps, Kernel.services_onBus, Kernel.mach_onBus, target_withBus]
  rfl

/-- A call of `SYS_EXEC` that returns leaves the frame, except for `rax`, and the services
as they were.  It leaves the caller's memory as it was exactly if it has no page to map,
or no frames for the first one. -/
theorem exec_failed_iff {env : BootEnv} {k : Kernel Pmm} (hk : env.Reaches anyStep k)
    {frame g : InterruptFrame} {input : UInt8} (hrax : frame.rax = sysExec)
    (hret : (k.syscall frame input).2 = .ret g)
    (hexact : env.bus = .phys ∨ (k.syscall frame input).1.mach.stray = false) :
    g = frame.withRax minusOne ∧ (k.syscall frame input).1.services = k.services ∧
      (SameUser k.mach (k.syscall frame input).1.mach ↔ ¬ k.ExecMaps frame) := by
  obtain ⟨hg, hS⟩ := (Kernel.exec_run hrax hret).returns
  refine ⟨hg, hS, ?_⟩
  rcases hexact with hbus | hstray
  · exact hk.exec_iff hbus hrax hret
  · -- the same call on the bus `phys`
    have hstep : KernelStep k (.syscall frame input) (k.syscall frame input).1 := .syscall
    have hcalm := (hstep.onBus (b := .phys) hstray).1
    have hcall := Kernel.syscall_onBus .phys hstray
    have hret' : ((k.onBus .phys).syscall frame input).2 = .ret g := by rw [hcall, hret]
    have hiff := (hk.onBus busFree_anyStep .phys hcalm).exec_iff rfl hrax hret'
    rw [hcall, Kernel.execMaps_onBus] at hiff
    exact hiff

/-! ## Two calls that fail -/

/-- A call of `SYS_EXEC` with a name of `len` bytes. -/
def execFrame (name len : Nat) : InterruptFrame :=
  { initialServices.savedFrame with rax := sysExec, rdi := name, rsi := len }

/-- A program calls `SYS_EXEC` for a file that does not exist.  The call has no effect. -/
theorem exec_failed_noFile :
    ∃ k, roomyBoot.Reaches anyStep k ∧ k.mach.UserPage 0x400000 ∧
      (k.syscall (execFrame 0x400000 1) 0).2 = .ret ((execFrame 0x400000 1).withRax minusOne) ∧
      SameUser k.mach (k.syscall (execFrame 0x400000 1) 0).1.mach := by
  obtain ⟨k, hk, hready, huser, hbyte, hfiles⟩ : ∃ k, roomyBoot.Reaches anyStep k ∧
      Ready (avail roomyBoot.start.frames) 0x1000 k.mach ∧ k.mach.UserPage 0x400000 ∧
      k.mach.userByte 0x400000 = some 0x7f ∧ k.services.files = [] :=
    ⟨runningBoot, reaches_runningBoot, ready_runningBoot.1, ready_runningBoot.2.1,
      ready_runningBoot.2.2, rfl⟩
  obtain ⟨-, hread⟩ := readName_byte (show (execFrame 0x400000 1).rsi = 1 from rfl) hbyte
  have htarget : k.services.target (execFrame 0x400000 1) k.mach = none := by
    rw [Services.target, if_neg (by decide), hfiles]
    rfl
  have hcall := handleExec_notFound htarget
  rw [hread] at hcall
  have hret : (k.syscall (execFrame 0x400000 1) 0).2
      = .ret ((execFrame 0x400000 1).withRax minusOne) := by
    rw [Kernel.syscall_exec rfl hcall hready.fault]
  refine ⟨k, hk, huser, hret, (exec_failed_iff hk rfl hret (Or.inl rfl)).2.2.mpr ?_⟩
  rintro ⟨v, hv, -⟩
  rw [htarget] at hv
  cases hv

/-- A program of one page that has no entry. -/
def noEntryImage : Image := elfFile 0 [⟨1, 5, 0, 0x400000, 16, 16⟩]

/-- A program calls `SYS_EXEC` for a file that has a page but no entry.  The call returns
-1, and the page of the caller's own code has been replaced. -/
theorem failedExec_replaces_page :
    ∃ k, roomyBoot.Reaches anyStep k ∧ k.mach.UserPage 0x400000 ∧
      (k.syscall (execFrame 0x400000 1) 0).2
        = .ret ((execFrame 0x400000 1).withRax minusOne) ∧
      (k.syscall (execFrame 0x400000 1) 0).1.mach.translate 0x400000
        ≠ k.mach.translate 0x400000 := by
  obtain ⟨k₀, hk₀, hready, huser, hbyte⟩ : ∃ k, roomyBoot.Reaches anyStep k ∧
      Ready (avail roomyBoot.start.frames) 0x1000 k.mach ∧ k.mach.UserPage 0x400000 ∧
      k.mach.userByte 0x400000 = some 0x7f :=
    ⟨runningBoot, reaches_runningBoot, ready_runningBoot⟩
  -- the file is put on the list under the name that the program's first byte is
  have hadd : KernelStep k₀ (.addFile ⟨[0x7f], noEntryImage⟩) _ := .addFile
  have hk := hk₀.next hadd trivial
  generalize hk' : k₀.withServices _ = k at hk
  have hmach : k.mach = k₀.mach := by rw [← hk', Kernel.mach_withServices]
  have hfiles : k.services.files = ⟨[0x7f], noEntryImage⟩ :: k₀.services.files := by rw [← hk']; rfl
  rw [← hmach] at hready huser hbyte
  have hpages : ∀ i, i < noEntryImage.phnum → (noEntryImage.phdr i).type = ptLoad →
      (noEntryImage.phdr i).pageCount ≤ 1 := by decide +kernel
  obtain ⟨hname, hread⟩ := readName_byte (show (execFrame 0x400000 1).rsi = 1 from rfl) hbyte
  have htarget : k.services.target (execFrame 0x400000 1) k.mach = some ⟨[0x7f], noEntryImage⟩ := by
    rw [Services.target, if_neg (by decide), hname, hfiles]
    exact List.find?_cons_of_pos (by decide)
  have hcall : handleExec k.services (execFrame 0x400000 1) k.mach
      = ((k.services, .ret ((execFrame 0x400000 1).withRax minusOne)),
        (elfLoad noEntryImage k.mach).2) := by
    rw [handleExec_rejected htarget (show ¬ noEntryImage.Starts by decide +kernel), hread]
  have hload : Ready (avail roomyBoot.start.frames) 0xffc (elfLoad noEntryImage k.mach).2 :=
    Ready.load hready (by decide +kernel) hpages
  have hfresh := elfLoad_fresh (a := 0x400000) hready.rooted.isolated.inv
    (show noEntryImage.accepted = true by decide +kernel) rfl hload.oom (by decide +kernel)
  have hsys := Kernel.syscall_exec rfl hcall hload.fault 0
  refine ⟨k, hk, huser, by rw [hsys], ?_⟩
  rw [hsys, Kernel.mach_withServices, Kernel.mach_withMach]
  exact hfresh.translate_ne hready.rooted hload.rooted

end TunaOs
