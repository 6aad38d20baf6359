import TunaOs.Vmm.Map

/-!
# How many frames loops over pages take

A page takes a frame, and one for each table that is not there yet.  `pagesCost` is that
number for pages that are mapped one after the other: it is read off the tables that are
there before the first (`T`) and the addresses of the pages.  `Counted` is the state of a
machine that has taken so many frames.  A loop over pages goes on counting if the allocator
has the frames, and otherwise a request fails (`Supplied`).

The heap's pages take one frame each where the tables are there.  `vmm_init` takes five:
the root, and two directories and two tables for the first 4 MiB.
-/

namespace TunaOs

open Word

/-! ## Pages and tables -/

/-- `n` pages in a row. -/
def pageRun : Nat → Nat → List Nat
  | 0, _ => []
  | n + 1, page => page :: pageRun n (page + 4096)

theorem mem_pageRun {v : Nat} : ∀ {n page : Nat},
    v ∈ pageRun n page ↔ ∃ j, j < n ∧ v = page + 4096 * j
  | 0, _ => by simp [pageRun]
  | n + 1, page => by
      rw [pageRun, List.mem_cons, mem_pageRun]
      constructor
      · rintro (rfl | ⟨j, hj, rfl⟩)
        · exact ⟨0, by omega, by omega⟩
        · exact ⟨j + 1, by omega, by omega⟩
      · rintro ⟨_ | j, hj, rfl⟩
        · exact Or.inl (by omega)
        · exact Or.inr ⟨j, by omega, by omega⟩

theorem length_pageRun : ∀ n page : Nat, (pageRun n page).length = n
  | 0, _ => rfl
  | n + 1, page => congrArg (· + 1) (length_pageRun n (page + 4096))

/-- A table at a path that is not in `T` and that none of the addresses needs. -/
def lacksFrom (T : List (Fin 512) → Bool) (vs : List Nat) (q : List (Fin 512)) : Nat :=
  if T q = true ∨ ∃ v ∈ vs, q <+: pathOf v then 0 else 1

/-- The tables for an address that are not in `T` and that none of the others needs. -/
def missingFrom (T : List (Fin 512) → Bool) (vs : List Nat) (a : Nat) : Nat :=
  lacksFrom T vs [tableIndex 39 a] + lacksFrom T vs [tableIndex 39 a, tableIndex 30 a]
    + lacksFrom T vs (pathOf a)

/-- The frames that mapping some pages takes, if the tables in `T` and those for `vs` are
there. -/
def pagesCost (T : List (Fin 512) → Bool) : List Nat → List Nat → Nat
  | _, [] => 0
  | vs, page :: pages => 1 + missingFrom T vs page + pagesCost T (page :: vs) pages

/-- The addresses whose tables are there afterwards. -/
def pagesDone : List Nat → List Nat → List Nat
  | vs, [] => vs
  | vs, page :: pages => pagesDone (page :: vs) pages

theorem pagesDone_append (ps qs : List Nat) : ∀ vs : List Nat,
    pagesDone vs (ps ++ qs) = pagesDone (pagesDone vs ps) qs := by
  induction ps with
  | nil => exact fun _ => rfl
  | cons p ps ih => exact fun vs => ih (p :: vs)

theorem pagesCost_append (T : List (Fin 512) → Bool) (ps qs : List Nat) : ∀ vs : List Nat,
    pagesCost T vs (ps ++ qs) = pagesCost T vs ps + pagesCost T (pagesDone vs ps) qs := by
  induction ps with
  | nil => exact fun _ => (Nat.zero_add _).symm
  | cons p ps ih =>
      intro vs
      rw [List.cons_append, pagesCost, pagesCost, pagesDone, ih, Nat.add_assoc (1 + _)]

theorem mem_pagesDone {v : Nat} : ∀ {ps vs : List Nat},
    v ∈ pagesDone vs ps ↔ v ∈ vs ∨ v ∈ ps
  | [], vs => by simp [pagesDone]
  | p :: ps, vs => by
      rw [pagesDone, mem_pagesDone, List.mem_cons, List.mem_cons]
      tauto

/-- A page takes at most four frames. -/
theorem pagesCost_le (T : List (Fin 512) → Bool) : ∀ ps vs : List Nat,
    pagesCost T vs ps ≤ 4 * ps.length
  | [], _ => Nat.le_refl 0
  | p :: ps, vs => by
      have hlacks : ∀ q, lacksFrom T vs q ≤ 1 := fun q => by
        unfold lacksFrom
        split <;> omega
      have h1 := hlacks [tableIndex 39 p]
      have h2 := hlacks [tableIndex 39 p, tableIndex 30 p]
      have h3 := hlacks (pathOf p)
      have hrest := pagesCost_le T ps (p :: vs)
      rw [pagesCost, missingFrom, List.length_cons]
      omega

/-- Where the tables are there each page takes one frame. -/
theorem pagesCost_of_tables {T : List (Fin 512) → Bool} : ∀ {ps vs : List Nat},
    (∀ p ∈ ps, ∀ q, q <+: pathOf p → T q = true) → pagesCost T vs ps = ps.length
  | [], _, _ => rfl
  | p :: ps, vs, h => by
      have hlacks : ∀ q, q <+: pathOf p → lacksFrom T vs q = 0 := fun q hq =>
        if_pos (Or.inl (h p List.mem_cons_self q hq))
      rw [pagesCost, missingFrom, hlacks _ (prefix_pathOf.mpr (by simp)),
        hlacks _ (prefix_pathOf.mpr (by simp)), hlacks _ List.prefix_rfl,
        pagesCost_of_tables fun q hq => h q (List.mem_cons_of_mem _ hq), List.length_cons]
      omega

/-! ## Counting frames -/

section

variable {σ : Type} {M M' : Mach σ} {T : List (Fin 512) → Bool} {vs : List Nat}

/-- The tables of the machine, by their paths. -/
def Mach.tables (M : Mach σ) (q : List (Fin 512)) : Bool := (M.tableAt q).isSome

/-- The tables of the machine are those in `T` and those for some addresses. -/
def Mach.Tabled (M : Mach σ) (T : List (Fin 512) → Bool) (vs : List Nat) : Prop :=
  ∀ q, q.length ≤ 3 → (M.Has q ↔ T q = true ∨ ∃ v ∈ vs, q <+: pathOf v)

theorem Mach.Tabled.missing_eq (h : M.Tabled T vs) (a : Nat) :
    M.missing a = missingFrom T vs a := by
  have hlacks : ∀ q, q.length ≤ 3 → M.lacks q = lacksFrom T vs q := by
    intro q hq
    rw [Mach.lacks, lacksFrom]
    exact if_congr (h q hq) rfl rfl
  rw [Mach.missing, missingFrom, hlacks _ (by simp), hlacks _ (by simp), hlacks _ (by simp)]

variable [FrameSource σ] {s : σ} {n : Nat}

/-- Of the frames of `s` the machine has taken `n`, and it has the tables in `T` and those
for `vs`. -/
structure Counted (s : σ) (T : List (Fin 512) → Bool) (n : Nat) (vs : List Nat) (M : Mach σ) :
    Prop where
  inv : VmInv M
  plenty : Plenty s n
  frames : M.frames = advance s n
  oom : M.oom = false
  tabled : M.Tabled T vs

/-- A count starts from any machine. -/
theorem VmInv.counted (hinv : VmInv M) : Counted M.frames M.tables 0 [] (M.withOom false) := by
  refine ⟨⟨hinv.bus, hinv.tables, hinv.fresh⟩, trivial, rfl, rfl, fun q _ => ?_⟩
  simp only [List.not_mem_nil, false_and, exists_false, or_false]
  exact Iff.rfl

/-- With frames for `n` they have been taken, and without them a request has failed. -/
structure Supplied (s : σ) (T : List (Fin 512) → Bool) (n : Nat) (vs : List Nat) (M : Mach σ) :
    Prop where
  enough : Plenty s n → Counted s T n vs M
  dry : ¬ Plenty s n → M.oom = true

theorem Supplied.oom_iff (h : Supplied s T n vs M) : M.oom = false ↔ Plenty s n := by
  refine ⟨fun hoom => Classical.byContradiction fun hno => ?_, fun hp => (h.enough hp).oom⟩
  rw [h.dry hno] at hoom
  cases hoom

/-- A first part that takes `n` frames and a second one that takes `k` more. -/
theorem Supplied.bind {k : Nat} {vs' : List Nat} {N : Mach σ} (h : Supplied s T n vs M)
    (hoom : M.oom = true → N.oom = true)
    (hrest : Counted s T n vs M → Supplied s T (n + k) vs' N) : Supplied s T (n + k) vs' N := by
  by_cases hp : Plenty s n
  · exact hrest (h.enough hp)
  · exact ⟨fun hall => absurd (hall.mono (Nat.le_add_right n k)) hp, fun _ => hoom (h.dry hp)⟩

/-- There is no frame for the next page. -/
theorem Counted.none {k : Nat} {vs' : List Nat} {N : Mach σ} (h : Counted s T n vs M)
    (h0 : (FrameSource.alloc M.frames).2 = 0) (hN : N.oom = true) :
    Supplied s T (n + (1 + k)) vs' N := by
  refine ⟨fun hp => ?_, fun _ => hN⟩
  rw [h.frames] at h0
  exact absurd h0 ((plenty_add s n (1 + k)).mp hp |>.2.mono (Nat.le_add_right 1 k)).1

/-- Mapping the frame that was taken last. -/
theorem Counted.mapFrame {N : Mach σ} {virt f flags : Nat} (h : Counted s T n vs M)
    (h0 : (FrameSource.alloc M.frames).2 ≠ 0) (hinv : VmInv N)
    (hframes : N.frames = (FrameSource.alloc M.frames).1) (hoom : N.oom = M.oom)
    (htables : ∀ q, q.length ≤ 3 → N.tableAt q = M.tableAt q) (hf : f < 2 ^ 64)
    (hflags : flags < 8) (hM' : (vmmMapPage virt f flags N).2 = M') :
    Supplied s T (n + (1 + missingFrom T vs virt)) (virt :: vs) M' := by
  have htabled : N.Tabled T vs := fun q hq =>
    (Mach.has_congr (htables q hq)).trans (h.tabled q hq)
  have hmiss := htabled.missing_eq virt
  have hfr : N.frames = advance s (n + 1) := by
    rw [hframes, h.frames, advance_add]
    rfl
  -- the frames so far and the one in hand were there, the tables are what is left to ask for
  have hfirst : Plenty s (n + 1) := by
    rw [h.frames] at h0
    exact (plenty_add s n 1).mpr ⟨h.plenty, h0, trivial⟩
  have hsplit : Plenty s (n + (1 + missingFrom T vs virt)) ↔
      Plenty N.frames (N.missing virt) := by
    rw [hfr, hmiss, ← Nat.add_assoc, plenty_add]
    exact and_iff_right hfirst
  refine ⟨fun hp => ?_, fun hno => ?_⟩
  · obtain ⟨hframes', hoom', hhas, -⟩ := vmmMapPage_enough hinv hflags hf (hsplit.mp hp) hM'
    refine ⟨(vmmMapPage_spec hinv hflags hf hM').1, hp, ?_, ?_, fun q hq => ?_⟩
    · rw [hframes', hfr, hmiss, ← advance_add, Nat.add_assoc]
    · exact hoom'.trans (hoom.trans h.oom)
    · rw [hhas q hq, htabled q hq]
      simp only [List.mem_cons, exists_eq_or_imp, or_assoc]
      exact or_congr_right or_comm
  · exact (vmmMapPage_dry hinv (hsplit.not.mp hno) hM').1

/-- The same of a frame in hand, whose contents may have changed. -/
theorem Counted.map {N : Mach σ} {virt f flags : Nat} {P : Nat → Prop} (h : Counted s T n vs M)
    (h0 : (FrameSource.alloc M.frames).2 ≠ 0) (hhand : InHand P M N f)
    (hframes : N.frames = (FrameSource.alloc M.frames).1)
    (hm : ∀ x, frameOf x ≠ f → N.mem x = M.mem x) (hflags : flags < 8)
    (hM' : (vmmMapPage virt f flags N).2 = M') :
    Supplied s T (n + (1 + missingFrom T vs virt)) (virt :: vs) M' := by
  obtain ⟨-, -, hf64⟩ := FrameSource.avail_frame hhand.drawn
  exact h.mapFrame h0 hhand.inv hframes hhand.oom (fun q hq => hhand.tableAt_eq h.inv hm hq)
    (by omega) hflags hM'

end

/-! ## The heap -/

section

variable {σ : Type} [FrameSource σ] {s : σ} {T : List (Fin 512) → Bool} {M M' : Mach σ}

/-- The loop of `kheap_map_region`. -/
theorem Counted.kheapMapPages : ∀ (n virt : Nat) {c : Nat} {vs : List Nat} {M : Mach σ},
    Counted s T c vs M → virt + 4096 * n < 2 ^ 64 →
    Supplied s T (c + pagesCost T vs (pageRun n virt)) (pagesDone vs (pageRun n virt))
      (kheapMapPages n virt M).2
  | 0, _, _, _, _, h, _ => ⟨fun _ => h, fun hno => absurd h.plenty hno⟩
  | n + 1, virt, c, vs, M, h, hlt => by
      rw [Nat.mul_succ, ← Nat.add_assoc] at hlt
      rw [pageRun, pagesCost, pagesDone, TunaOs.kheapMapPages, Act.bind_apply]
      obtain ⟨-, ⟨h0, -⟩ | ⟨h0, hhand⟩⟩ := allocFrame_spec (fun _ => True) h.inv
      · rw [if_pos h0, Nat.add_assoc 1]
        exact h.none h0 (allocFrame_oom h0)
      · rw [if_neg h0, Act.bind_apply, Act.bind_apply, wrap64_of_lt (by omega), ← Nat.add_assoc]
        obtain ⟨-, -, hf64⟩ := FrameSource.avail_frame hhand.drawn
        have hinv : VmInv (noteHeapFrame (allocFrame M).1 (allocFrame M).2).2 :=
          ⟨hhand.inv.bus, hhand.inv.tables, hhand.inv.fresh⟩
        have hsame : ∀ q, q.length ≤ 3 →
            (noteHeapFrame (allocFrame M).1 (allocFrame M).2).2.tableAt q = M.tableAt q :=
          fun _ _ => rfl
        generalize hM₁ : (vmmMapPage virt (allocFrame M).1 kernelFlags
          (noteHeapFrame (allocFrame M).1 (allocFrame M).2).2).2 = M₁
        refine (h.mapFrame h0 hinv rfl hhand.oom hsame (by omega) (by decide) hM₁).bind ?_ fun h =>
          h.kheapMapPages n (virt + 4096) (by omega)
        exact primitive_oom.kheapMapPages n (virt + 4096) M₁

/-- The heap's pages take one frame each where the tables are there. -/
theorem kheapMapPages_enough (n virt : Nat) (hinv : VmInv M)
    (hhas : ∀ j, j < n → M.Has (pathOf (virt + 4096 * j))) (hplenty : Plenty M.frames n)
    (hlt : virt + 4096 * n < 2 ^ 64) (hM' : (kheapMapPages n virt M).2 = M') :
    M'.frames = advance M.frames n ∧ M'.oom = M.oom ∧
      ∀ q, q.length ≤ 3 → (M'.Has q ↔ M.Has q) := by
  have hthere : ∀ p ∈ pageRun n virt, ∀ q, q <+: pathOf p → M.tables q = true := by
    intro p hp q hq
    obtain ⟨j, hj, rfl⟩ := mem_pageRun.mp hp
    exact (hhas j hj).above hq
  have hcost : pagesCost M.tables [] (pageRun n virt) = n := by
    rw [pagesCost_of_tables hthere, length_pageRun]
  have hcount := hinv.counted.kheapMapPages n virt hlt
  rw [Nat.zero_add, hcost] at hcount
  obtain ⟨-, -, hframes, hoom, htabled⟩ := hcount.enough hplenty
  have hblind := (primitive_oomBlind.kheapMapPages n virt).state M false
  rw [hM'] at hblind
  rw [hblind] at hframes htabled
  refine ⟨hframes, ?_, fun q hq => ?_⟩
  · cases ho : M.oom with
    | false =>
        rw [show M.withOom false = M by rw [← ho, M.withOom_self], hM'] at hoom
        exact hoom
    | true =>
        rw [← hM']
        exact primitive_oom.kheapMapPages n virt M ho
  · refine (htabled q hq).trans ⟨fun h => h.elim id ?_, Or.inl⟩
    rintro ⟨v, hv, hq'⟩
    exact hthere v ((mem_pagesDone.mp hv).resolve_left List.not_mem_nil) q hq'

end

/-! ## The first 4 MiB -/

section

variable {σ : Type} [FrameSource σ] {M M' : Mach σ}

theorem pathOf_first {i : Nat} (h : i < 512) : pathOf (i * 4096) = pathOf 0 :=
  pathOf_congr (by omega)

theorem pathOf_second {i : Nat} (h1 : 512 ≤ i) (h2 : i < 1024) :
    pathOf (i * 4096) = pathOf 0x200000 := pathOf_congr (by omega)

/-- The tables that `vmm_init` makes for the first `i` pages, besides the root. -/
def initTables (i : Nat) : Nat := (if 0 < i then 3 else 0) + if 512 < i then 1 else 0

theorem initTables_le (i : Nat) : initTables i ≤ 4 := by
  simp only [initTables]
  split <;> split <;> omega

/-- The tables are those of the first `i` pages. -/
def Mach.HasInit (N : Mach σ) (i : Nat) : Prop :=
  ∀ q, q.length ≤ 3 → (N.Has q ↔
    q = [] ∨ (0 < i ∧ q <+: pathOf 0) ∨ (512 < i ∧ q <+: pathOf 0x200000))

section

omit [FrameSource σ]

variable {N : Mach σ} {i : Nat}

/-- The first page needs three tables. -/
theorem Mach.HasInit.missing_zero (h : N.HasInit 0) : N.missing 0 = 3 := by
  have hno : ∀ q, q.length ≤ 3 → q ≠ [] → N.lacks q = 1 := by
    intro q hq hne
    refine if_neg fun hhas => ?_
    rcases (h q hq).mp hhas with hnil | ⟨hlt, -⟩ | ⟨hlt, -⟩
    · exact hne hnil
    · omega
    · omega
  rw [Mach.missing, hno _ (by simp) (by simp), hno _ (by simp) (by simp),
    hno _ (by simp) (by simp [pathOf])]

/-- The page at 2 MiB needs one more. -/
theorem Mach.HasInit.missing_half (h : N.HasInit 512) : N.missing 0x200000 = 1 := by
  have hyes : ∀ q, q.length ≤ 3 → q <+: pathOf 0 → N.lacks q = 0 := fun q hq hpre =>
    if_pos ((h q hq).mpr (Or.inr (Or.inl ⟨by omega, hpre⟩)))
  have hlast : N.lacks (pathOf 0x200000) = 1 := by
    refine if_neg fun hhas => ?_
    rcases (h _ (by simp)).mp hhas with hnil | ⟨-, hpre⟩ | ⟨hlt, -⟩
    · exact absurd hnil (by decide)
    · exact absurd hpre (by decide)
    · omega
  rw [Mach.missing, hyes _ (by simp) (by decide), hyes _ (by simp) (by decide), hlast]

/-- The other pages need none. -/
theorem Mach.HasInit.missing_other (h : N.HasInit i) (hi : i < 1024) (hpos : 0 < i)
    (hne : i ≠ 512) : N.missing (i * 4096) = 0 := by
  refine Mach.missing_of_has ((h _ (by simp)).mpr (Or.inr ?_))
  rcases Nat.lt_or_ge i 512 with hlt | hge
  · exact Or.inl ⟨hpos, pathOf_first hlt ▸ List.prefix_rfl⟩
  · exact Or.inr ⟨by omega, pathOf_second hge hi ▸ List.prefix_rfl⟩

/-- What is missing for a page makes up the difference. -/
theorem Mach.HasInit.missing (h : N.HasInit i) (hi : i < 1024) :
    initTables i + N.missing (i * 4096) = initTables (i + 1) := by
  by_cases h0 : i = 0
  · subst h0
    rw [Nat.zero_mul, h.missing_zero]
    rfl
  by_cases h512 : i = 512
  · subst h512
    rw [show 512 * 4096 = 0x200000 from rfl, h.missing_half]
    rfl
  rw [h.missing_other hi (Nat.pos_of_ne_zero h0) h512]
  simp only [initTables]
  split <;> split <;> split <;> split <;> omega

end

/-- One turn of the loop of `vmm_init`. -/
theorem initPage_enough {N₀ N : Mach σ} {i : Nat} (hi : i < 1024) (hinv : VmInv N)
    (hplenty : Plenty N₀.frames 4) (hfr : N.frames = advance N₀.frames (initTables i))
    (hhas : N.HasInit i) (hM' : (vmmMapPage (i * 4096) (i * 4096) kernelFlags N).2 = M') :
    M'.oom = N.oom ∧ M'.frames = advance N₀.frames (initTables (i + 1)) ∧ M'.HasInit (i + 1) := by
  have hmiss := hhas.missing hi
  have hplenty' : Plenty N.frames (N.missing (i * 4096)) := by
    rw [hfr]
    refine ((plenty_add _ (initTables i) _).mp ?_).2
    rw [hmiss]
    exact hplenty.mono (initTables_le _)
  obtain ⟨hfr', hoom, hhas', -⟩ := vmmMapPage_enough hinv (by decide) (by omega) hplenty' hM'
  refine ⟨hoom, ?_, fun q hq => ?_⟩
  · rw [hfr', hfr, ← advance_add, hmiss]
  · rw [hhas' q hq, hhas q hq]
    rcases Nat.lt_or_ge i 512 with hlt | hge
    · have h1 : ¬ 512 < i := by omega
      have h2 : ¬ 512 < i + 1 := by omega
      simp only [pathOf_first hlt, h1, h2, false_and, or_false, Nat.succ_pos, true_and]
      tauto
    · have h1 : 0 < i := by omega
      have h2 : 512 < i + 1 := by omega
      simp only [pathOf_second hge hi, h1, h2, Nat.succ_pos, true_and]
      tauto

theorem Plenty.allocTable {k : Nat} (h : Plenty M.frames (k + 1)) : (allocTable M).1 ≠ 0 := by
  rw [allocTable_fst]
  exact h.1

/-- `vmm_init` takes five frames: the root, and four tables for the first 4 MiB. -/
theorem vmmInit_enough (hbus : M.bus = .phys) (hplenty : Plenty M.frames 5)
    (hM' : (vmmInit M).2 = M') :
    M'.frames = advance M.frames 5 ∧ M'.oom = M.oom ∧
      ∀ q, q.length ≤ 3 → (M'.Has q ↔ q <+: pathOf 0 ∨ q <+: pathOf 0x200000) := by
  have h0 : (allocTable M).1 ≠ 0 := hplenty.allocTable
  have hframes : (newPml4 M).frames = (FrameSource.alloc M.frames).1 := allocTable_frames M
  obtain ⟨hinv, honly, -, -, -, -, -, hoom, -⟩ := newPml4_spec hbus h0 rfl
  rw [vmmInit_ne_zero h0] at hM'
  generalize newPml4 M = N₀ at hM' hframes hinv honly hoom
  have hroot : ∀ q, q.length ≤ 3 → (N₀.Has q ↔ q = []) := by
    intro q hq
    refine ⟨fun h => ?_, fun h => h ▸ rfl⟩
    obtain ⟨t, ht⟩ := Option.isSome_iff_exists.mp h
    have htr := honly t ⟨q, hq, ht⟩
    exact hinv.tables.unshared q [] t hq (by simp) ht (congrArg some htr.symm)
  have hloop := forLoop_induct (n := identityPages) (M := N₀)
    (fun i => vmmMapPage (i * 4096) (i * 4096) kernelFlags)
    (Q := fun i N => VmInv N ∧ N.oom = N₀.oom ∧ N.frames = advance N₀.frames (initTables i) ∧
      N.HasInit i)
    ⟨hinv, rfl, rfl, fun q hq => by simpa using hroot q hq⟩ fun i N hi hN => ?_
  · generalize (forLoop identityPages (fun i => vmmMapPage (i * 4096) (i * 4096) kernelFlags)
      N₀).2 = N at hloop hM'
    obtain ⟨-, ho, hfr, hhas⟩ := hloop
    have hM : M'.frames = N.frames ∧ M'.oom = N.oom ∧ ∀ q, M'.Has q ↔ N.Has q :=
      hM' ▸ loadCr3_keeps N₀.pml4 N
    have hlast : initTables identityPages = 4 := by decide
    refine ⟨?_, hM.2.1.trans (ho.trans hoom), fun q hq => ?_⟩
    · rw [hM.1, hfr, hframes, hlast, ← advance_succ]
    · rw [hM.2.2 q, hhas q hq]
      have hnil : q = [] → q <+: pathOf 0 := fun h => h ▸ List.nil_prefix
      simp only [identityPages, Nat.reduceLT, true_and]
      tauto
  · obtain ⟨hi1, ho1, hfr1, hhas1⟩ := hN
    have hplenty' : Plenty N₀.frames 4 := hframes ▸ hplenty.2
    obtain ⟨hi2, -⟩ := vmmMapPage_spec hi1 (by decide) (by simp only [identityPages] at hi; omega)
      (show (vmmMapPage (i * 4096) (i * 4096) kernelFlags N).2 = _ from rfl)
    obtain ⟨ho2, hfr2, hhas2⟩ := initPage_enough hi hi1 hplenty' hfr1 hhas1 rfl
    exact ⟨hi2, ho2.trans ho1, hfr2, hhas2⟩

end

end TunaOs
