import Mathlib
import PocketKernel.Proofs.Paging.Isolation
import PocketKernel.Proofs.Paging.Walk

/-!
# Ranges of pages

Pages that are in use and hold no table are plain, and mapping spares them: they stay plain and keep
their words. Mapping a range sets the leaves of its pages and no others. Main statement:
`Forest.mapsRange`.
-/
namespace PocketKernel

namespace Vaddr

/-- The address lies in one of `count` pages from `va` on; addresses wrap. -/
def InPages (va : UInt32) (count : Nat) (a : UInt32) : Prop := (a - va).toNat < count * 4096

instance (va : UInt32) (count : Nat) (a : UInt32) : Decidable (InPages va count a) :=
  inferInstanceAs (Decidable (_ < _))

theorem not_inPages_zero (va a : UInt32) : ¬ InPages va 0 a := by simp [InPages]

variable {va a : UInt32} {count : Nat}

theorem page_eq_iff_sub (aligned : Vaddr.aligned va = true) :
    page a = page va ↔ (a - va).toNat < 4096 := by
  rw [aligned_iff] at aligned
  rw [← UInt32.toNat_inj, toNat_page, toNat_page, UInt32.toNat_sub]
  have := a.toNat_lt
  have := va.toNat_lt
  omega

theorem toNat_sub_next (va a : UInt32) :
    (a - (va + 4096)).toNat = ((a - va).toNat + 4294963200) % 4294967296 := by
  simp only [UInt32.toNat_sub, UInt32.toNat_add, UInt32.reduceToNat]
  have := a.toNat_lt
  have := va.toNat_lt
  omega

/-- The pages of a range are the first one and those of the rest. -/
theorem inPages_succ (aligned : Vaddr.aligned va = true)
    (small : (count + 1) * 4096 ≤ UInt32.size) :
    InPages va (count + 1) a ↔ page a = page va ∨ InPages (va + 4096) count a := by
  rw [page_eq_iff_sub aligned, InPages, InPages, toNat_sub_next]
  rw [show UInt32.size = 4294967296 from rfl] at small
  have := (a - va).toNat_lt
  omega

/-- The first page of a range is not one of the rest. -/
theorem not_inPages_of_page (aligned : Vaddr.aligned va = true)
    (small : (count + 1) * 4096 ≤ UInt32.size) (here : page a = page va) :
    ¬ InPages (va + 4096) count a := by
  rw [page_eq_iff_sub aligned] at here
  rw [InPages, toNat_sub_next]
  rw [show UInt32.size = 4294967296 from rfl] at small
  omega

theorem start_of_page (aligned : Vaddr.aligned va = true) (here : page a = page va) :
    start a = va := by
  rw [aligned_iff] at aligned
  rw [← UInt32.toNat_inj, toNat_page, toNat_page] at here
  rw [← UInt32.toNat_inj, toNat_start]
  omega

end Vaddr

namespace Paging
open TableView TableMemory LawfulTableMemory
variable {M : Type} [TableMemory M] [LawfulTableMemory M] {roots : Set UInt32} {m m' m'' : M}
  {root va pa : UInt32}

namespace Forest

theorem translate_eq (h : Forest roots m) (hr : root ∈ roots) (va : UInt32) :
    translate m root va =
      .ok ((leafAt m root va).map fun leaf => PageEntry.frame leaf + Vaddr.offset va) := by
  rw [translate, h.leaf?_eq hr]
  rfl

theorem leafFlags_eq (h : Forest roots m) (hr : root ∈ roots) (va : UInt32) :
    leafFlags m root va = .ok ((leafAt m root va).map PageEntry.flags) := by
  rw [leafFlags, h.leaf?_eq hr]
  rfl

end Forest

structure Plain (roots : Set UInt32) (m : M) (page : UInt32) : Prop where
  ready : Ready m page
  noTable : ¬ TablePage roots m page

/-- Pages in use stay in use. Those that hold no table get none and keep their words. -/
structure Spares (roots : Set UInt32) (m m' : M) : Prop where
  ready : ∀ {p}, Ready m p → Ready m' p
  noTable : ∀ {p}, Plain roots m p → ¬ TablePage roots m' p
  word : ∀ {p}, Plain roots m p → ∀ i : UInt32, i.toNat < 1024 → word m' p i = word m p i

namespace Spares

theorem refl (roots : Set UInt32) (m : M) : Spares roots m m :=
  ⟨id, fun plain => plain.noTable, fun _ _ _ => rfl⟩

theorem plain (h : Spares roots m m') {p : UInt32} (plain : Plain roots m p) : Plain roots m' p :=
  ⟨h.ready plain.ready, h.noTable plain⟩

theorem trans (h : Spares roots m m') (h' : Spares roots m' m'') : Spares roots m m'' := by
  refine ⟨fun hp => h'.ready (h.ready hp), fun hp => h'.noTable (h.plain hp), ?_⟩
  intro p hp i hi
  exact (h'.word (h.plain hp) i hi).trans (h.word hp i hi)

end Spares

/-- A fresh page of zeros becomes one more root, which makes no page in use a table. -/
theorem Forest.plain_insert (h : Forest roots m) (kept : Keeps m m') (fresh : ¬ Ready m root)
    (zero : ∀ i : UInt32, i.toNat < 1024 → word m' root i = 0) {p : UInt32}
    (plain : Plain roots m p) : Plain (insert root roots) m' p := by
  refine ⟨kept.ready plain.ready, ?_⟩
  rintro ((rfl | old) | ⟨r, rfl | hr, a, linked, rfl⟩)
  · exact fresh plain.ready
  · exact plain.noTable (.inl old)
  · rw [Linked, zero _ (Vaddr.directoryIndex_lt a)] at linked
    cases linked
  · have entry := kept.word (h.root r hr) (Vaddr.directoryIndex_lt a)
    rw [Linked, entry] at linked
    refine plain.noTable (.inr ⟨r, hr, a, linked, ?_⟩)
    rw [tableOf, tableOf, entry]

/-- Mapping a page writes tables only. -/
theorem Maps.spares {leaf : UInt32} (mapped : Maps roots root va leaf m m') (hr : root ∈ roots) :
    Spares roots m m' := by
  refine ⟨mapped.ready, fun hp table => ?_, fun {p} hp => ?_⟩
  · exact hp.noTable (mapped.tablePage_of_ready table hp.ready)
  · apply mapped.other p hp.ready
    · exact fun root => hp.noTable (.inl root)
    · exact fun a linked table => hp.noTable (.inr ⟨root, hr, a, linked, table⟩)

structure MapsRange (roots : Set UInt32) (root va pa : UInt32) (perms : Perms) (count : Nat)
    (m m' : M) : Prop where
  forest : Forest roots m'
  spares : Spares roots m m'
  leaf : ∀ r ∈ roots, ∀ a, leafAt m' r a =
    if r = root ∧ Vaddr.InPages va count a then
      some (PageEntry.make (pa + (Vaddr.start a - va)) perms.flags)
    else leafAt m r a

/-- A page has been mapped, and then the pages behind it. -/
theorem MapsRange.cons {perms : Perms} {count : Nat} (aligned : Vaddr.aligned va = true)
    (small : (count + 1) * 4096 ≤ UInt32.size) (hr : root ∈ roots)
    (first : Maps roots root va (PageEntry.make pa perms.flags) m m'')
    (rest : MapsRange roots root (va + 4096) (pa + 4096) perms count m'' m') :
    MapsRange roots root va pa perms (count + 1) m m' := by
  refine ⟨rest.forest, (first.spares hr).trans rest.spares, fun r hr a => ?_⟩
  rw [rest.leaf r hr a, first.leaf r hr a]
  by_cases other : r = root
  swap
  · simp [other]
  by_cases here : Vaddr.page a = Vaddr.page va
  · have later := Vaddr.not_inPages_of_page aligned small here
    simp [other, here, later, Vaddr.inPages_succ aligned small, Vaddr.start_of_page aligned here]
  · have place : pa + 4096 + (Vaddr.start a - (va + 4096)) = pa + (Vaddr.start a - va) := by
      have := va.toNat_lt
      simp only [← UInt32.toNat_inj, UInt32.toNat_add, UInt32.toNat_sub, UInt32.reduceToNat]
      omega
    simp [other, here, place, Vaddr.inPages_succ aligned small]

/-- Mapping a range sets the leaves of its pages. -/
theorem Forest.mapsRange (h : Forest roots m) (hr : root ∈ roots) {perms : Perms} {count : Nat}
    (small : count * 4096 ≤ UInt32.size)
    (done : mapPages root perms count va pa m = .ok () m') :
    MapsRange roots root va pa perms count m m' := by
  induction count generalizing m va pa with
  | zero =>
    cases done
    refine ⟨h, .refl roots _, fun r hr a => ?_⟩
    rw [if_neg fun inside => Vaddr.not_inPages_zero va a inside.2]
  | succ count ih =>
    obtain ⟨⟨⟩, m₁, first, others⟩ := Action.bind_eq_ok.1 done
    obtain ⟨aligned, -, mapped⟩ := h.maps_of_mapPage hr first
    have fewer : count * 4096 ≤ UInt32.size :=
      (Nat.mul_le_mul_right 4096 (Nat.le_succ count)).trans small
    exact .cons aligned small hr mapped (ih mapped.forest fewer others)

theorem pageCount_mul_le (length : UInt32) : pageCount length.toNat * 4096 ≤ UInt32.size := by
  have := length.toNat_lt
  rw [pageCount, show UInt32.size = 4294967296 from rfl]
  omega

end Paging

end PocketKernel
