import Mathlib
import PocketKernel.Paging.Walk
import PocketKernel.Proofs.Action
import PocketKernel.Proofs.Paging.Entry

/-!
# Walks of page tables

The addresses of one page have one leaf, so that they lie behind each other in memory, too. Mapping
a page preserves what the stores and the supply of tables preserve.
-/
namespace PocketKernel

namespace Vaddr

theorem page_add {va : UInt32} {j : Nat} (h : va.toNat % 4096 + j < 4096) :
    page (va + UInt32.ofNat j) = page va := by
  have small := va.toNat_lt
  simp only [← UInt32.toNat_inj, toNat_page, UInt32.toNat_add, UInt32.toNat_ofNat']
  omega

theorem toNat_offset_add {va : UInt32} {j : Nat} (h : va.toNat % 4096 + j < 4096) :
    (offset (va + UInt32.ofNat j)).toNat = va.toNat % 4096 + j := by
  have small := va.toNat_lt
  simp only [toNat_offset, UInt32.toNat_add, UInt32.toNat_ofNat']
  omega

def start (va : UInt32) : UInt32 := va / 4096 * 4096

@[simp] theorem toNat_start (va : UInt32) : (start va).toNat = va.toNat / 4096 * 4096 := by
  have small := va.toNat_lt
  simp only [start, UInt32.toNat_mul, UInt32.toNat_div, UInt32.reduceToNat]
  omega

theorem page_start (va : UInt32) : page (start va) = page va := by
  simp only [← UInt32.toNat_inj, toNat_page, toNat_start]
  omega

theorem offset_start (va : UInt32) : offset (start va) = 0 := by
  simp [← UInt32.toNat_inj]

theorem start_add_offset (va : UInt32) : start va + offset va = va := by
  have := va.toNat_lt
  rw [← UInt32.toNat_inj, UInt32.toNat_add, toNat_start, toNat_offset]
  omega

theorem aligned_start (va : UInt32) : aligned (start va) = true := by
  rw [aligned_iff, toNat_start]
  omega

variable {a b : UInt32}

theorem aligned_add (ha : aligned a = true) (hb : aligned b = true) : aligned (a + b) = true := by
  rw [aligned_iff] at ha hb ⊢
  rw [UInt32.toNat_add]
  omega

theorem aligned_sub (ha : aligned a = true) (hb : aligned b = true) : aligned (a - b) = true := by
  rw [aligned_iff] at ha hb ⊢
  rw [UInt32.toNat_sub]
  have := b.toNat_lt
  omega

end Vaddr

/-- A frame does not run past the end of the addresses. -/
theorem PageEntry.toNat_frame_add {e offset : UInt32} (h : offset.toNat < 4096) :
    (frame e + offset).toNat = (frame e).toNat + offset.toNat := by
  have small := e.toNat_lt
  simp only [UInt32.toNat_add, toNat_frame]
  omega

namespace Paging
open TableMemory
variable {M : Type} [TableMemory M] {m : M} {root va pa : UInt32}

theorem leaf?_congr {a b : UInt32} (same : Vaddr.page a = Vaddr.page b) :
    leaf? m root a = leaf? m root b := by
  obtain ⟨directory, table⟩ := Vaddr.page_eq_iff.1 same
  simp only [leaf?, directorySlot, leafSlot, directory, table]

theorem translate_eq_some : translate m root va = .ok (some pa) ↔
    ∃ leaf, leaf? m root va = .ok (some leaf) ∧ pa = PageEntry.frame leaf + Vaddr.offset va := by
  unfold translate
  rcases leaf? m root va with fault | _ | leaf
  · exact ⟨nofun, nofun⟩
  · exact ⟨nofun, nofun⟩
  · constructor
    · rintro ⟨⟩
      exact ⟨leaf, rfl, rfl⟩
    · rintro ⟨_, ⟨⟩, rfl⟩
      rfl

theorem leafFlags_eq_some {flags : UInt32} : leafFlags m root va = .ok (some flags) ↔
    ∃ leaf, leaf? m root va = .ok (some leaf) ∧ flags = PageEntry.flags leaf := by
  unfold leafFlags
  rcases leaf? m root va with fault | _ | leaf
  · exact ⟨nofun, nofun⟩
  · exact ⟨nofun, nofun⟩
  · constructor
    · rintro ⟨⟩
      exact ⟨leaf, rfl, rfl⟩
    · rintro ⟨_, ⟨⟩, rfl⟩
      rfl

/-- Addresses that follow each other in a page do so in memory. -/
theorem translate_add (found : translate m root va = .ok (some pa)) {j : Nat}
    (h : va.toNat % 4096 + j < 4096) :
    ∃ pa', translate m root (va + UInt32.ofNat j) = .ok (some pa') ∧
      pa'.toNat = pa.toNat + j := by
  obtain ⟨leaf, there, rfl⟩ := translate_eq_some.1 found
  refine ⟨_, translate_eq_some.2 ⟨leaf, (leaf?_congr (Vaddr.page_add h)).trans there, rfl⟩, ?_⟩
  have start := Vaddr.toNat_offset va
  have place := Vaddr.toNat_offset_add h
  rw [PageEntry.toNat_frame_add (by omega), PageEntry.toNat_frame_add (by omega), place, start]
  omega

/-! ## What mapping preserves -/

section Preserves
variable {P : M → Prop}

theorem directoryEntry_preserves
    (hstore : ∀ addr word, (storeWord addr word : Action M Unit).Preserves P)
    (halloc : (allocTable : Action M UInt32).Preserves P) (root va : UInt32) :
    (directoryEntry root va : Action M UInt32).Preserves P := by
  refine Action.preserves_bind (Action.preserves_ask _) ?_
  intro entry
  dsimp only
  split
  · refine Action.preserves_bind halloc ?_
    intro table
    exact Action.preserves_bind (hstore _ _) fun _ => Action.preserves_pure _
  split
  · exact Action.preserves_throw _
  · exact Action.preserves_pure _

theorem mapPage_preserves
    (hstore : ∀ addr word, (storeWord addr word : Action M Unit).Preserves P)
    (halloc : (allocTable : Action M UInt32).Preserves P) (root va pa : UInt32) (perms : Perms) :
    (mapPage root va pa perms : Action M Unit).Preserves P := by
  unfold mapPage
  dsimp only
  split
  · exact Action.preserves_throw_bind _ _
  split
  · exact Action.preserves_throw_bind _ _
  · exact Action.preserves_bind (directoryEntry_preserves hstore halloc root va) fun _ => hstore _ _

theorem mapPages_preserves
    (hstore : ∀ addr word, (storeWord addr word : Action M Unit).Preserves P)
    (halloc : (allocTable : Action M UInt32).Preserves P) (root : UInt32) (perms : Perms)
    (count : Nat) (va pa : UInt32) :
    (mapPages root perms count va pa : Action M Unit).Preserves P := by
  induction count generalizing va pa with
  | zero => exact Action.preserves_pure _
  | succ count ih =>
    exact Action.preserves_bind (mapPage_preserves hstore halloc root va pa perms) fun _ => ih _ _

end Preserves

end Paging

end PocketKernel
