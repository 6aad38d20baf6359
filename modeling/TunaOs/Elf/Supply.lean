import TunaOs.Elf.Spec
import TunaOs.Vmm.Count

/-!
# Enough frames for the loader

The loader needs at most four frames for each page: one for the page and three
for tables.  How many it needs exactly depends on the tables that are there before
and on the pages of the image (`Image.loadCost`): with so many frames no request
fails, and with fewer one does (`elfLoad_oom_iff`).
-/

namespace TunaOs

section

variable {σ : Type} [FrameSource σ]

theorem Draws.loadPages (img : Image) (ph : Phdr) :
    ∀ n page, Draws (4 * n) (TunaOs.loadPages img ph n page : Act σ Unit)
  | 0, _ => .pure _
  | n + 1, page => by
      rw [show 4 * (n + 1) = 1 + (0 + (0 + (3 + (0 + 4 * n)))) by omega]
      refine .bind .allocFrame fun frame => .ite (.pure _) ?_
      refine .bind (.forLoop (k := 0) 4096 fun _ _ => .store8 _ _) fun _ => ?_
      refine .bind (.ite ?_ (.pure _)) fun _ => .bind (.vmmMapPage ..) fun _ => ?_
      · exact Draws.forLoop (k := 0) _ fun _ _ => .store8 _ _
      · exact .bind (.event _) fun _ => Draws.loadPages img ph n _

theorem Draws.elfLoad (img : Image) {c : Nat}
    (hc : ∀ i, i < img.phnum → (img.phdr i).type = ptLoad → (img.phdr i).pageCount ≤ c) :
    Draws (img.phnum * (4 * c)) (TunaOs.elfLoad img : Act σ Nat) := by
  refine .ite (.pure _) (.ite (.pure _)
    (.bind (l := 0) (.forLoop _ fun i hi => ?_) fun _ => .pure _))
  by_cases htype : (img.phdr i).type = ptLoad
  · rw [if_neg (not_not_intro htype)]
    exact (Draws.loadPages ..).mono (Nat.mul_le_mul_left 4 (hc i hi htype))
  · rw [if_pos htype]
    exact .pure _

end

/-! ## The exact number -/

/-- The pages of a segment, in the order in which they are mapped. -/
def Phdr.pageList (ph : Phdr) : List Nat := pageRun ph.pageCount ph.vaddrStart

/-- The pages of the first `i` segments. -/
def Image.pagesBefore (img : Image) : Nat → List Nat
  | 0 => []
  | i + 1 => img.pagesBefore i ++
      if (img.phdr i).type = ptLoad then (img.phdr i).pageList else []

/-- The pages that `elf_load` maps. -/
def Image.pageList (img : Image) : List Nat :=
  if img.accepted then img.pagesBefore img.phnum else []

/-- The frames that `elf_load` takes where the tables in `T` are there. -/
def Image.loadCost (img : Image) (T : List (Fin 512) → Bool) : Nat := pagesCost T [] img.pageList

theorem Image.mem_pagesBefore {img : Image} {v : Nat} : ∀ {n : Nat},
    v ∈ img.pagesBefore n ↔ ∃ i, i < n ∧ (img.phdr i).type = ptLoad ∧ v ∈ (img.phdr i).pageList
  | 0 => by simp [Image.pagesBefore]
  | n + 1 => by
      rw [Image.pagesBefore, List.mem_append, mem_pagesBefore]
      constructor
      · rintro (⟨i, hi, hv⟩ | hv)
        · exact ⟨i, Nat.lt_succ_of_lt hi, hv⟩
        · split at hv
          case isTrue htype => exact ⟨n, Nat.lt_succ_self n, htype, hv⟩
          case isFalse => cases hv
      · rintro ⟨i, hi, htype, hv⟩
        rcases Nat.lt_succ_iff_lt_or_eq.mp hi with hlt | rfl
        · exact Or.inl ⟨i, hlt, htype, hv⟩
        · rw [if_pos htype]
          exact Or.inr hv

/-- An image with a page takes a frame. -/
theorem Image.loadCost_pos {img : Image} {i : Nat} (hacc : img.accepted = true) (hi : i < img.phnum)
    (htype : (img.phdr i).type = ptLoad) (hpages : 0 < (img.phdr i).pageCount)
    (T : List (Fin 512) → Bool) : 0 < img.loadCost T := by
  have hmem : (img.phdr i).vaddrStart ∈ img.pageList := by
    rw [Image.pageList, if_pos hacc]
    exact Image.mem_pagesBefore.mpr ⟨i, hi, htype, mem_pageRun.mpr ⟨0, hpages, rfl⟩⟩
  rw [Image.loadCost]
  cases hlist : img.pageList with
  | nil =>
      rw [hlist] at hmem
      cases hmem
  | cons p ps =>
      rw [pagesCost]
      omega

section

variable {σ : Type} [FrameSource σ] {s : σ} {T : List (Fin 512) → Bool}

/-- The loop of `load_segment`. -/
theorem Counted.loadPages (img : Image) (ph : Phdr) : ∀ (n page : Nat) {c : Nat} {vs : List Nat}
    {M : Mach σ}, Counted s T c vs M → page % 4096 = 0 → page + 4096 * n < 2 ^ 64 →
    Supplied s T (c + pagesCost T vs (pageRun n page)) (pagesDone vs (pageRun n page))
      (loadPages img ph n page M).2
  | 0, _, _, _, _, h, _, _ => ⟨fun _ => h, fun hno => absurd h.plenty hno⟩
  | n + 1, page, c, vs, M, h, hpage, hlt => by
      rw [Nat.mul_succ, ← Nat.add_assoc] at hlt
      rw [pageRun, pagesCost, pagesDone, TunaOs.loadPages, Act.bind_apply]
      obtain ⟨hmem, ⟨h0, -⟩ | ⟨h0, hhand⟩⟩ := allocFrame_spec (fun _ => True) h.inv
      · rw [if_pos h0, Nat.add_assoc 1]
        exact h.none h0 (allocFrame_oom h0)
      · simp only [if_neg h0, Act.bind_apply]
        rw [← Nat.add_assoc]
        generalize hN : (copyData img ph page (allocFrame M).1
          (zeroFrame (allocFrame M).1 (allocFrame M).2).2).2 = N
        obtain ⟨hload, hsame, -⟩ := hhand.load img ph page (by omega) hN
        have hframes : N.frames = (FrameSource.alloc M.frames).1 := by
          rw [← hN, copyData_frames]
          rfl
        generalize hM₁ : (vmmMapPage page (allocFrame M).1 ph.pageFlags N).2 = M₁
        have hmap := h.map h0 hload hframes (fun x hx => (hsame x hx).trans (congrFun hmem x))
          ph.pageFlags_lt hM₁
        refine hmap.bind ?_ fun h => ?_
        · exact fun hoom => primitive_oom.loadPages img ph n (page + 4096) _ hoom
        · have hev : Counted s T _ _ (event (.invlpg page) M₁).2 :=
            ⟨h.inv.event _, h.plenty, h.frames, h.oom, h.tabled⟩
          exact hev.loadPages img ph n (page + 4096) (by omega) (by omega)

/-- The loop over the segments. -/
theorem Counted.elfLoad {c : Nat} {vs : List Nat} {M : Mach σ} (h : Counted s T c vs M)
    (img : Image) :
    Supplied s T (c + pagesCost T vs img.pageList) (pagesDone vs img.pageList)
      (elfLoad img M).2 := by
  by_cases hacc : img.accepted = true
  · rw [elfLoad_accepted hacc, Image.pageList, if_pos hacc]
    refine forLoop_induct _ (Q := fun i N => Supplied s T (c + pagesCost T vs (img.pagesBefore i))
      (pagesDone vs (img.pagesBefore i)) N) ⟨fun _ => h, fun hno => absurd h.plenty hno⟩ ?_
    intro i N hi hN
    rw [Image.pagesBefore, pagesCost_append, pagesDone_append, ← Nat.add_assoc]
    by_cases htype : (img.phdr i).type = ptLoad
    · simp only [htype, ne_eq, not_true_eq_false, if_true, if_false]
      have hv := img.phdr_vaddr_lt i
      refine hN.bind ?_ fun hcount => ?_
      · exact fun hoom => primitive_oom.loadPages img _ _ _ N hoom
      · exact hcount.loadPages img _ _ _ ((img.phdr i).vaddrStart_mod hv) (Phdr.span_lt hv)
    · simpa only [htype, ne_eq, not_false_eq_true, if_true, if_false, Act.pure_apply, pagesCost,
        pagesDone, Nat.add_zero] using hN
  · rw [elfLoad_rejected hacc, Image.pageList, if_neg hacc]
    exact ⟨fun _ => h, fun hno => absurd h.plenty hno⟩

/-- No request of `elf_load` fails exactly if the frames for the pages and the missing tables
are there. -/
theorem elfLoad_oom_iff (img : Image) {M : Mach σ} (hinv : VmInv M) :
    (elfLoad img (M.withOom false)).2.oom = false ↔ Plenty M.frames (img.loadCost M.tables) := by
  have hcount := hinv.counted.elfLoad img
  rw [Nat.zero_add] at hcount
  exact hcount.oom_iff

end

end TunaOs
