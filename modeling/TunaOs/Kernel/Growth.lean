import TunaOs.Kernel.Spec
import TunaOs.Kheap.Growth
import TunaOs.Vmm.Count

/-!
# Frames for a heap that grows

`kheap_expand` does not hear of it when there is no frame for a page.  `Heap.growthCost` is the
number of frames that the pages up to the heap's reach take, with the tables that are missing.
If the allocator has so many before the call, none of its requests fails
(`kmalloc_supplied`).  That a request has failed at some time before does not matter.
-/

namespace TunaOs

open Word

section

theorem pageRun_add : ∀ m n page : Nat,
    pageRun (m + n) page = pageRun m page ++ pageRun n (page + 4096 * m)
  | 0, n, page => by simp [pageRun]
  | m + 1, n, page => by
      rw [Nat.add_right_comm, pageRun, pageRun, pageRun_add m n, List.cons_append, Nat.add_assoc,
        Nat.mul_succ, Nat.add_comm 4096]

/-- The pages between two ends of the heap. -/
def pagesTo (start stop : Nat) : List Nat := pageRun ((stop - start) / 4096) start

theorem pagesTo_append {a b c : Nat} (ha : a % 4096 = 0) (hb : b % 4096 = 0) (hab : a ≤ b)
    (hbc : b ≤ c) : pagesTo a c = pagesTo a b ++ pagesTo b c := by
  rw [pagesTo, pagesTo, pagesTo, show (c - a) / 4096 = (b - a) / 4096 + (c - b) / 4096 by omega,
    pageRun_add, show a + 4096 * ((b - a) / 4096) = b by omega]

variable {σ : Type}

/-- The frames that a call of `kmalloc` takes for the heap. -/
def Heap.growthCost (h : Heap (Mach σ)) (size : Nat) : Nat :=
  pagesCost h.env.tables [] (pagesTo h.heapEnd (h.reach size))

theorem Heap.growthCost_within {h : Heap (Mach σ)} {size : Nat} (hno : ¬ h.Grows size) :
    h.growthCost size = 0 := by
  rw [Heap.growthCost, Heap.reach, if_neg hno, pagesTo, Nat.sub_self]
  rfl

theorem Heap.growthCost_withBus (h : Heap (Mach σ)) (b : Bus) (size : Nat) :
    (h.withEnv (h.env.withBus b)).growthCost size = h.growthCost size := by
  rw [Heap.growthCost, h.reach_withEnv]
  rfl

/-- A page takes a frame, and at most three more for the tables above it. -/
theorem Heap.InOrder.growthCost_le {h : Heap (Mach σ)} {size : Nat} (ho : h.InOrder)
    (hsize : size < 2 ^ 63) :
    h.growthCost size ≤ 4 * (expandSize (requestSize size) / 4096) := by
  have hreach := ho.reach_le hsize
  refine (pagesCost_le _ _ _).trans (Nat.mul_le_mul_left 4 ?_)
  rw [pagesTo, length_pageRun]
  exact Nat.div_le_div_right (by omega)

variable [FrameSource σ] {h h' : Heap (Mach σ)} {size p : Nat}

/-- The heap can grow as the request needs it: sizes do not wrap, and there are frames. -/
def Heap.CanGrow (h : Heap (Mach σ)) (size : Nat) : Prop :=
  (h.Grows size → h.heapEnd + expandSize (requestSize size) < 2 ^ 64)
    ∧ Plenty h.env.frames (h.growthCost size)

instance (h : Heap (Mach σ)) (size : Nat) : Decidable (h.CanGrow size) :=
  inferInstanceAs (Decidable (_ ∧ _))

/-- Mapping the pages up to the next end, with frames for all of them. -/
theorem Counted.kheapMapRegion {s : σ} {tb : List (Fin 512) → Bool} {M : Mach σ} {a e x : Nat}
    (hcount : Counted s tb (pagesCost tb [] (pagesTo a e)) (pagesDone [] (pagesTo a e)) M)
    (ha : a % 4096 = 0) (he : e % 4096 = 0) (hx : x % 4096 = 0) (hae : a ≤ e)
    (hlt : e + x < 2 ^ 64) (hplenty : Plenty s (pagesCost tb [] (pagesTo a (e + x)))) :
    Counted s tb (pagesCost tb [] (pagesTo a (e + x))) (pagesDone [] (pagesTo a (e + x)))
      (TunaOs.kheapMapRegion e x M).2 := by
  have hsplit := pagesTo_append ha he hae (show e ≤ e + x by omega)
  have hnew : pagesTo e (e + x) = pageRun ((x + 4095) / 4096) e := by
    rw [pagesTo]
    congr 1
    omega
  have hsupply := hcount.kheapMapPages ((x + 4095) / 4096) e (by omega)
  rw [← hnew, ← pagesCost_append, ← pagesDone_append, ← hsplit] at hsupply
  exact hsupply.enough hplenty

/-- With frames for the pages, none of the requests of `kmalloc` fails. -/
theorem kmalloc_supplied (hinv : VmInv h.env) (hlim : HeapLimits h.heapEnd)
    (hgrow : h.CanGrow size) (hm : kmalloc h size = some (h', p)) :
    kmalloc (h.withEnv (h.env.withOom false)) size
      = some (h'.withEnv (h'.env.withOom false), p) := by
  -- the same call on a machine that has noted no failure
  obtain ⟨N, hm', o, hN⟩ := kmalloc_withEnv (R := fun M N => ∃ o, N = M.withOom o)
    (N := h.env.withOom false) (fun M N e x ⟨o, hN⟩ => ⟨_, hN ▸
      (primitive_oomBlind.kheapMapPages _ _).state M o⟩) ⟨false, rfl⟩ hm
  suffices hoom : N.oom = false by
    obtain rfl : o = false := by
      rw [hN] at hoom
      exact hoom
    rw [hm', hN]
  by_cases hg : h.Grows size
  case neg =>
      have hg' : ¬ (h.withEnv (h.env.withOom false)).Grows size := hg
      have henv : N = h.env.withOom false := (kmalloc_within hg' hm').1
      rw [henv]
      rfl
  obtain ⟨hwrap, hplenty⟩ := hgrow
  have hfit := hg.2.2
  rw [wrap64_of_lt (hwrap hg)] at hfit
  have hmod := expandSize_mod (requestSize size)
  have hreach := kmalloc_reach hlim.max hm
  have hstart := hlim.aligned
  have hlimit : kheapStart + kheapMaxSize < 2 ^ 32 := by decide
  -- up to the reach the frames are taken as counted
  have hrun := kmalloc_env (Q := fun M e => h.heapEnd ≤ e ∧ e % 4096 = 0
      ∧ e ≤ kheapStart + kheapMaxSize ∧ (e ≤ h.reach size →
        Counted h.env.frames h.env.tables (pagesCost h.env.tables [] (pagesTo h.heapEnd e))
          (pagesDone [] (pagesTo h.heapEnd e)) M)) ?_ hm' ?_
  · exact (hrun.2.2.2 hreach).oom
  · rintro M e hend ⟨hle, halign, hmax, hcount⟩
    have hfit' : HeapBacking.mapRegion M e (expandSize (requestSize size))
      = (kheapMapRegion e (expandSize (requestSize size)) M).2 := rfl
    rw [hfit']
    generalize expandSize (requestSize size) = x at *
    generalize kheapStart + kheapMaxSize = top at *
    rw [wrap64_of_lt (by omega)] at hend ⊢
    refine ⟨by omega, by omega, hend, fun hto => ?_⟩
    refine (hcount (by omega)).kheapMapRegion hstart halign hmod hle (by omega) (hplenty.mono ?_)
    rw [Heap.growthCost, pagesTo_append hstart (show (e + x) % 4096 = 0 by omega) (by omega) hto,
      pagesCost_append]
    exact Nat.le_add_right ..
  · refine ⟨Nat.le_refl _, hlim.aligned, hlim.max, fun _ => ?_⟩
    have hnil : pagesTo h.heapEnd h.heapEnd = [] := by
      rw [pagesTo, Nat.sub_self]
      rfl
    have hcount : Counted h.env.frames h.env.tables (pagesCost h.env.tables [] [])
        (pagesDone [] []) (h.env.withOom false) := hinv.counted
    have hend : (h.withEnv (h.env.withOom false)).heapEnd = h.heapEnd := rfl
    rw [hend, hnil]
    exact hcount

end

end TunaOs
