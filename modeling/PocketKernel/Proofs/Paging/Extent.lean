import Mathlib
import PocketKernel.Proofs.Paging.Map
import PocketKernel.Proofs.Paging.Range

/-!
# The extent of a mapping

A range is mapped page by page, and a page that is refused ends the mapping early. The loop over
offsets that does this with checked sums is `mapFrom`; it does what `mapRange` does. How far a
mapping came is told by the translations: those of the pages mapped so far are new, and all others
are as before (`MapsExactly`). Main statement: `mapRange_exact`.
-/
namespace PocketKernel.Paging
open TableView TableMemory LawfulTableMemory

/-! ## The loop over offsets -/

theorem toNat_add_page {offset : UInt32} (room : offset.toNat + 4096 < UInt32.size) :
    (offset + 4096).toNat = offset.toNat + 4096 := by
  rw [UInt32.toNat_add]
  exact Nat.mod_eq_of_lt room

section Loop
variable {M : Type} [TableMemory M]

/-- Maps the pages of a range from an offset on. Addresses wrap and offsets do not: the loop ends
with the length, or when there is no next offset. -/
def mapFrom (root va pa length : UInt32) (perms : Perms) (offset : UInt32) : Action M Unit :=
  if below : offset < length then do
    mapPage root (va + offset) (pa + offset) perms
    if room : offset.toNat + 4096 < UInt32.size then
      mapFrom root va pa length perms (offset + 4096)
  else pure ()
termination_by length.toNat - offset.toNat
decreasing_by
  have := UInt32.lt_iff_toNat_lt.1 below
  rw [toNat_add_page room]
  omega

theorem pageCount_of_pos {n : Nat} (pos : 0 < n) : pageCount n = pageCount (n - 4096) + 1 := by
  unfold pageCount
  omega

/-- Without a next offset no page is left. -/
theorem mapFrom_eq (root va pa length : UInt32) (perms : Perms) (offset : UInt32) :
    (mapFrom root va pa length perms offset : Action M Unit) =
      mapPages root perms (pageCount (length.toNat - offset.toNat)) (va + offset)
        (pa + offset) := by
  fun_induction mapFrom (M := M) root va pa length perms offset with
  | case1 offset below ih =>
    have below := UInt32.lt_iff_toNat_lt.1 below
    rw [pageCount_of_pos (by omega), mapPages]
    refine congrArg (_ >>= ·) (funext fun _ => ?_)
    split
    next room =>
      rw [ih room, toNat_add_page room, ← Nat.sub_sub, UInt32.add_assoc, UInt32.add_assoc]
    next last =>
      have none_left : length.toNat - offset.toNat - 4096 = 0 := by
        have : length.toNat < UInt32.size := length.toNat_lt
        omega
      rw [none_left]
      rfl
  | case2 offset beyond =>
    rw [UInt32.not_lt, UInt32.le_iff_toNat_le] at beyond
    rw [Nat.sub_eq_zero_of_le beyond]
    rfl

theorem mapFrom_zero (root va pa length : UInt32) (perms : Perms) :
    (mapFrom root va pa length perms 0 : Action M Unit) = mapRange root va pa length perms := by
  rw [mapFrom_eq, UInt32.add_zero, UInt32.add_zero]
  rfl

end Loop

/-! ## How far a mapping came -/

variable {M : Type} [TableMemory M] [LawfulTableMemory M] {roots : Set UInt32} {m m' : M}
  {root va pa : UInt32} {perms : Perms} {count : Nat}

theorem Forest.mapsRange_zero (h : Forest roots m) (kept : Keeps m m') :
    MapsRange roots root va pa perms 0 m m' := by
  obtain ⟨forest, leaves⟩ := h.keeps kept
  refine ⟨forest, ⟨kept.ready, fun plain table => ?_, fun plain i hi => ?_⟩, fun r hr a => ?_⟩
  · refine plain.noTable ((tablePage_congr (fun r hr a => ?_) _).1 table)
    exact kept.word (h.root r hr) (Vaddr.directoryIndex_lt a)
  · exact kept.word plain.ready hi
  · rw [leaves r hr a, if_neg fun inside => Vaddr.not_inPages_zero va a inside.2]

/-- Mapping aligned pages stops only when the supply is empty, and then before the last page. -/
theorem Forest.mapsRange_of_error (h : Forest roots m) (hr : root ∈ roots)
    (hva : Vaddr.aligned va = true) (hpa : Vaddr.aligned pa = true)
    (small : count * 4096 ≤ UInt32.size) {e : Fault}
    (stopped : mapPages root perms count va pa m = .error e m') :
    e = .refused .outOfFrames ∧ ∃ k < count, MapsRange roots root va pa perms k m m' := by
  induction count generalizing m va pa with
  | zero => cases stopped
  | succ count ih =>
    rcases h.mapPage_cases_of_aligned hr perms hva hpa with
      ⟨m₁, refused, kept, -⟩ | ⟨-, m₁, -, -, first, mapped⟩
    · cases (Action.bind_of_error refused).symm.trans stopped
      exact ⟨rfl, 0, by omega, h.mapsRange_zero kept⟩
    · have rest := (Action.bind_of_ok first).symm.trans stopped
      have fewer : count * 4096 ≤ UInt32.size :=
        (Nat.mul_le_mul_right 4096 (Nat.le_succ count)).trans small
      obtain ⟨rfl, k, hk, maps⟩ := ih mapped.forest (Vaddr.aligned_add hva rfl)
        (Vaddr.aligned_add hpa rfl) fewer rest
      refine ⟨rfl, k + 1, by omega, .cons hva ?_ hr mapped maps⟩
      exact (Nat.mul_le_mul_right 4096 (Nat.succ_le_succ hk.le)).trans small

/-- Under a root the addresses of `count` pages from `va` on translate to those from `pa` on, with
the rights. All other translations are as before, and no other page than a table is written. -/
structure MapsExactly (roots : Set UInt32) (root va pa : UInt32) (perms : Perms) (count : Nat)
    (m m' : M) : Prop where
  inside : ∀ offset : UInt32, offset.toNat < count * 4096 →
    translate m' root (va + offset) = .ok (some (pa + offset)) ∧
      leafFlags m' root (va + offset) = .ok (some perms.flags)
  outside : ∀ r ∈ roots, ∀ a, ¬ (r = root ∧ Vaddr.InPages va count a) →
    translate m' r a = translate m r a ∧ leafFlags m' r a = leafFlags m r a
  spares : Spares roots m m'
  forest : Forest roots m'

theorem MapsRange.exactly (mapped : MapsRange roots root va pa perms count m m')
    (h : Forest roots m) (hr : root ∈ roots) (hva : Vaddr.aligned va = true)
    (hpa : Vaddr.aligned pa = true) : MapsExactly roots root va pa perms count m m' := by
  refine ⟨fun offset inside => ?_, fun r hr a outside => ?_, mapped.spares, mapped.forest⟩
  · have leaf := mapped.leaf root hr (va + offset)
    have here : Vaddr.InPages va count (va + offset) := by
      rwa [Vaddr.InPages, UInt32.add_comm va, UInt32.add_sub_cancel]
    rw [if_pos ⟨rfl, here⟩] at leaf
    have aligned : Vaddr.aligned (pa + (Vaddr.start (va + offset) - va)) = true :=
      Vaddr.aligned_add hpa (Vaddr.aligned_sub (Vaddr.aligned_start _) hva)
    have place : pa + (Vaddr.start (va + offset) - va) + Vaddr.offset (va + offset) =
        pa + offset := by
      have := Vaddr.start_add_offset (va + offset)
      grind
    rw [mapped.forest.translate_eq hr, mapped.forest.leafFlags_eq hr, leaf, Option.map_some,
      Option.map_some, PageEntry.frame_make aligned perms.flags_lt,
      PageEntry.flags_make perms.flags_lt, place]
    exact ⟨rfl, rfl⟩
  · rw [mapped.forest.translate_eq hr, mapped.forest.leafFlags_eq hr, h.translate_eq hr,
      h.leafFlags_eq hr, mapped.leaf r hr a, if_neg outside]
    exact ⟨rfl, rfl⟩

/-- The loop over a range maps all its pages, or the supply runs out, and then it has mapped the
first `k` of them. All else is as before. -/
theorem mapRange_exact (h : Forest roots m) (hr : root ∈ roots) (hva : Vaddr.aligned va = true)
    (hpa : Vaddr.aligned pa = true) (length : UInt32) (perms : Perms) :
    mapFrom root va pa length perms 0 m = mapRange root va pa length perms m ∧
    ((∃ m', mapRange root va pa length perms m = .ok () m' ∧
        (∀ offset < length, translate m' root (va + offset) = .ok (some (pa + offset)) ∧
          leafFlags m' root (va + offset) = .ok (some perms.flags)) ∧
        MapsExactly roots root va pa perms (pageCount length.toNat) m m') ∨
      ∃ k < pageCount length.toNat, ∃ m',
        mapRange root va pa length perms m = .error (.refused .outOfFrames) m' ∧
          MapsExactly roots root va pa perms k m m') := by
  have small := pageCount_mul_le length
  refine ⟨by rw [mapFrom_zero], ?_⟩
  cases ran : mapRange root va pa length perms m with
  | ok done m' =>
    have exact := (h.mapsRange hr small ran).exactly h hr hva hpa
    refine .inl ⟨m', rfl, fun offset below => exact.inside offset ?_, exact⟩
    rw [UInt32.lt_iff_toNat_lt] at below
    unfold pageCount
    omega
  | error e m' =>
    obtain ⟨rfl, k, hk, mapped⟩ := h.mapsRange_of_error hr hva hpa small ran
    exact .inr ⟨k, hk, m', rfl, mapped.exactly h hr hva hpa⟩

/-- A root of zeros that is no frame of the supply. -/
theorem forest_ofFrames {frames : List UInt32} (nodup : frames.Nodup)
    (aligned : ∀ f ∈ frames, Vaddr.aligned f = true) (hroot : Vaddr.aligned root = true)
    (unused : root ∉ frames) : Forest {root} (WordMemory.ofFrames frames) := by
  refine (Represents.of_zero (WordMemory.stocked_ofFrames nodup aligned) ?_ ?_).forest
  · rintro r rfl
    exact ⟨hroot, unused⟩
  · intro r _ i _
    exact WordMemory.read_ofFrames _ (r + i * 4)

def mapAround : Action WordMemory Unit :=
  mapRange 0x1000 0xFFFFF000 0x80200000 0x1001 .userRwx

/-- Two tables are enough, and with one table the second page is refused. -/
theorem mapRange_exact_around :
    (∃ m', mapAround (.ofFrames [0x2000, 0x3000]) = .ok () m' ∧
      translate m' 0x1000 0xFFFFFFFF = .ok (some 0x80200FFF) ∧
      translate m' 0x1000 0x123 = .ok (some 0x80201123) ∧
      translate m' 0x1000 0x1000 = .ok none) ∧
    ∃ m', mapAround (.ofFrames [0x2000]) = .error (.refused .outOfFrames) m' ∧
      MapsExactly {0x1000} 0x1000 0xFFFFF000 0x80200000 .userRwx 1 (.ofFrames [0x2000]) m' := by
  have two : Forest {0x1000} (WordMemory.ofFrames [0x2000, 0x3000]) :=
    forest_ofFrames (by decide) (by simp [Vaddr.aligned]) rfl (by decide)
  have one : Forest {0x1000} (WordMemory.ofFrames [0x2000]) :=
    forest_ofFrames (by decide) (by simp [Vaddr.aligned]) rfl (by decide)
  have hva : Vaddr.aligned 0xFFFFF000 = true := rfl
  have hpa : Vaddr.aligned 0x80200000 = true := rfl
  constructor
  · rcases (mapRange_exact two rfl hva hpa 0x1001 .userRwx).2 with
      ⟨m', done, inside, exact⟩ | ⟨k, -, m', stopped, -⟩
    · refine ⟨m', done, (inside 0xFFF (by decide)).1, ?_, ?_⟩
      · exact (exact.inside 0x1123 (by decide)).1
      · exact (exact.outside 0x1000 rfl 0x1000 (by decide)).1
    · have enough : mapAround.answers (.ofFrames [0x2000, 0x3000]) = true := by
        decide +kernel
      rw [Action.answers, mapAround, stopped] at enough
      cases enough
  · rcases (mapRange_exact one rfl hva hpa 0x1001 .userRwx).2 with
      ⟨m', done, -⟩ | ⟨k, fewer, m', stopped, exact⟩
    · have short : mapAround.answers (.ofFrames [0x2000]) = false := by decide +kernel
      rw [Action.answers, mapAround, done] at short
      cases short
    · have first : translate (mapAround.finalState (.ofFrames [0x2000])) 0x1000 0xFFFFF000 =
          .ok (some 0x80200000) := by
        decide +kernel
      rw [Action.finalState, mapAround, stopped] at first
      have one_page : k = 1 := by
        have : k ≠ 0 := by
          rintro rfl
          have before := (exact.outside 0x1000 rfl 0xFFFFF000 (by decide)).1
          rw [first] at before
          cases before
        have : k < 2 := fewer
        omega
      exact ⟨m', stopped, one_page ▸ exact⟩

end PocketKernel.Paging
