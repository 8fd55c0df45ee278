import Mathlib
import PocketKernel.Paging.Entry

/-!
# Fields of addresses and entries

An entry made of an aligned address and low bits gives both back, the two indices of an address name
its page, and the words of two pages have different addresses.
-/
namespace PocketKernel

theorem Vaddr.aligned_iff {va : UInt32} : Vaddr.aligned va = true ↔ va.toNat % 4096 = 0 := by
  rw [Vaddr.aligned, beq_iff_eq, ← UInt32.toNat_inj, UInt32.toNat_mod]
  rfl

namespace PageEntry
variable {addr flags : UInt32}

theorem toNat_make (h : flags.toNat < 1024) :
    (make addr flags).toNat = addr.toNat / 4096 * 1024 + flags.toNat := by
  have small := addr.toNat_lt
  simp only [make, UInt32.toNat_add, UInt32.toNat_mul, UInt32.toNat_div, UInt32.reduceToNat]
  omega

/-- The upper two bits of an entry are lost. -/
@[simp] theorem toNat_frame (e : UInt32) : (frame e).toNat = e.toNat / 1024 % 1048576 * 4096 := by
  simp only [frame, UInt32.toNat_mul, UInt32.toNat_div, UInt32.reduceToNat]
  omega

@[simp] theorem toNat_flags (e : UInt32) : (PageEntry.flags e).toNat = e.toNat % 1024 := by
  simp [PageEntry.flags]

theorem frame_make (aligned : Vaddr.aligned addr = true) (h : flags.toNat < 1024) :
    frame (make addr flags) = addr := by
  rw [Vaddr.aligned_iff] at aligned
  have small := addr.toNat_lt
  simp only [← UInt32.toNat_inj, toNat_frame, toNat_make h]
  omega

theorem flags_make (h : flags.toNat < 1024) : PageEntry.flags (make addr flags) = flags := by
  simp only [← UInt32.toNat_inj, toNat_flags, toNat_make h]
  omega

theorem valid_iff {e : UInt32} : valid e = true ↔ e.toNat % 2 = 1 := by
  rw [valid, beq_iff_eq, ← UInt32.toNat_inj, UInt32.toNat_mod]
  rfl

theorem isLeaf_eq_false_iff {e : UInt32} : isLeaf e = false ↔ e.toNat / 2 % 8 = 0 := by
  rw [isLeaf, bne_eq_false_iff_eq, ← UInt32.toNat_inj, UInt32.toNat_mod, UInt32.toNat_div]
  rfl

theorem valid_make (h : flags.toNat < 1024) (odd : valid flags = true) :
    valid (make addr flags) = true := by
  rw [valid_iff] at odd ⊢
  rw [toNat_make h]
  omega

@[simp] theorem valid_link (table : UInt32) : valid (make table 1) = true :=
  valid_make (by decide) rfl

@[simp] theorem isLeaf_link (table : UInt32) : isLeaf (make table 1) = false := by
  rw [isLeaf_eq_false_iff, toNat_make (by decide)]
  simp only [UInt32.reduceToNat]
  omega

theorem frame_link {table : UInt32} (aligned : Vaddr.aligned table = true) :
    frame (make table 1) = table :=
  frame_make aligned (by decide)

end PageEntry

theorem Perms.flags_lt (p : Perms) : p.flags.toNat < 1024 := by
  obtain ⟨r, w, x, u⟩ := p
  revert r w x u
  decide

theorem Perms.valid_flags (p : Perms) : PageEntry.valid p.flags = true := by
  obtain ⟨r, w, x, u⟩ := p
  revert r w x u
  decide

namespace Vaddr

@[simp] theorem toNat_directoryIndex (va : UInt32) :
    (directoryIndex va).toNat = va.toNat / 4194304 := by
  simp [directoryIndex]

@[simp] theorem toNat_tableIndex (va : UInt32) :
    (tableIndex va).toNat = va.toNat / 4096 % 1024 := by
  simp [tableIndex]

@[simp] theorem toNat_offset (va : UInt32) : (offset va).toNat = va.toNat % 4096 := by
  simp [offset]

theorem directoryIndex_lt (va : UInt32) : (directoryIndex va).toNat < 1024 := by
  have small := va.toNat_lt
  simp only [toNat_directoryIndex]
  omega

theorem tableIndex_lt (va : UInt32) : (tableIndex va).toNat < 1024 := by
  simp only [toNat_tableIndex]
  omega

def page (va : UInt32) : UInt32 := va / 4096

@[simp] theorem toNat_page (va : UInt32) : (page va).toNat = va.toNat / 4096 := by
  simp [page]

theorem page_eq_iff {a b : UInt32} :
    page a = page b ↔ directoryIndex a = directoryIndex b ∧ tableIndex a = tableIndex b := by
  simp only [← UInt32.toNat_inj, toNat_page, toNat_directoryIndex, toNat_tableIndex]
  omega

end Vaddr

/-- The words of an aligned page do not run past the end of the addresses. -/
theorem toNat_wordAddr {p i : UInt32} (hp : Vaddr.aligned p = true) (hi : i.toNat < 1024) :
    (p + i * 4).toNat = p.toNat + i.toNat * 4 := by
  rw [Vaddr.aligned_iff] at hp
  have := p.toNat_lt
  simp only [UInt32.toNat_add, UInt32.toNat_mul, UInt32.reduceToNat]
  omega

/-- The words of aligned pages have different addresses. -/
theorem wordAddr_inj {p q i j : UInt32} (hp : Vaddr.aligned p = true) (hq : Vaddr.aligned q = true)
    (hi : i.toNat < 1024) (hj : j.toNat < 1024) : p + i * 4 = q + j * 4 ↔ p = q ∧ i = j := by
  rw [← UInt32.toNat_inj, toNat_wordAddr hp hi, toNat_wordAddr hq hj, ← UInt32.toNat_inj,
    ← UInt32.toNat_inj]
  rw [Vaddr.aligned_iff] at hp hq
  omega

end PocketKernel
