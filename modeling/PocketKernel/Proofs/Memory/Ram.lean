import Mathlib
import PocketKernel.Memory.Ram
import PocketKernel.Proofs.Action
import PocketKernel.Proofs.Bytes

/-!
# Words and ranges of memory

What is stored in a range is read there, and nothing else changes. A word is four bytes, so it
changes only when one of these is written.
-/
namespace PocketKernel.Ram

theorem holds_iff {r : Ram} {addr : UInt32} {n : Nat} :
    r.holds addr n = true ↔ r.base.toNat ≤ addr.toNat ∧ addr.toNat + n ≤ r.limit.toNat := by
  simp [holds, UInt32.le_iff_toNat_le]

theorem bytes_congr {r r' : Ram} {addr n : Nat}
    (same : ∀ a, addr ≤ a → a < addr + n → r'.byteAt a = r.byteAt a) :
    r'.bytes addr n = r.bytes addr n := by
  refine List.map_congr_left ?_
  intro i hi
  rw [List.mem_range] at hi
  exact same (addr + i) (by omega) (by omega)

theorem getElem_bytes (r : Ram) (addr n i : Nat) (h : i < (r.bytes addr n).length) :
    (r.bytes addr n)[i] = r.byteAt (addr + i) := by
  simp [bytes]

/-- What was written is there. -/
theorem bytes_write (r : Ram) (addr : Nat) (data : Bytes) (h : addr + data.length ≤ UInt32.size) :
    (r.write addr data).bytes addr data.length = data := by
  refine List.ext_getElem (by simp) ?_
  intro i hi hi'
  rw [getElem_bytes, byteAt_write r addr data (by omega), if_pos (by omega)]
  rw [show addr + i - addr = i by omega, List.getD_eq_getElem?_getD, List.getElem?_eq_getElem hi',
    Option.getD_some]

theorem byteAt_write_of_outside (r : Ram) {addr : Nat} {data : Bytes} {a : Nat}
    (h : a < addr ∨ addr + data.length ≤ a) (ha : a < UInt32.size) :
    (r.write addr data).byteAt a = r.byteAt a := by
  rw [byteAt_write r addr data ha, if_neg (by omega)]

theorem store_of_holds {r : Ram} {addr : UInt32} {data : Bytes}
    (h : r.holds addr data.length = true) :
    store addr data r = .ok () (r.write addr.toNat data) := by
  simp only [store, h, if_true]

theorem load_of_holds {r : Ram} {addr : UInt32} {n : Nat} (h : r.holds addr n = true) :
    r.load addr n = .ok (r.bytes addr.toNat n) := by
  simp only [load, h, if_true]

def wordAt (r : Ram) (addr : UInt32) : UInt32 := UInt32.ofNat (Bytes.leNat (r.bytes addr.toNat 4))

theorem loadWord_of_holds {r : Ram} {addr : UInt32} (h : r.holds addr 4 = true) :
    r.loadWord addr = .ok (r.wordAt addr) := by
  rw [loadWord, load_of_holds h]
  rfl

theorem wordAt_congr {r r' : Ram} {addr : UInt32}
    (same : ∀ a, addr.toNat ≤ a → a < addr.toNat + 4 → r'.byteAt a = r.byteAt a) :
    r'.wordAt addr = r.wordAt addr := by
  rw [wordAt, bytes_congr same, wordAt]

/-- Equal words have equal bytes. -/
theorem bytes_of_wordAt {r r' : Ram} {addr : UInt32} (same : r'.wordAt addr = r.wordAt addr) :
    r'.bytes addr.toNat 4 = r.bytes addr.toNat 4 := by
  have small (s : Ram) : Bytes.leNat (s.bytes addr.toNat 4) < UInt32.size := by
    simpa using Bytes.leNat_lt (s.bytes addr.toNat 4)
  rw [← Bytes.leNat_inj (by simp)]
  have numbers := congrArg UInt32.toNat same
  rwa [wordAt, wordAt, UInt32.toNat_ofNat_of_lt' (small r'), UInt32.toNat_ofNat_of_lt' (small r)]
    at numbers

theorem wordAt_write_ofLE (r : Ram) {addr : UInt32} (value : UInt32)
    (h : addr.toNat + 4 ≤ UInt32.size) :
    (r.write addr.toNat (Bytes.ofLE 4 value.toNat)).wordAt addr = value := by
  have stored := r.bytes_write addr.toNat (Bytes.ofLE 4 value.toNat) (by simpa using h)
  rw [Bytes.length_ofLE] at stored
  rw [wordAt, stored, Bytes.leNat_ofLE, ← UInt32.toNat_inj]
  have := value.toNat_lt
  simp

theorem wordAt_eq_zero {r : Ram} {addr : UInt32}
    (zero : ∀ a, addr.toNat ≤ a → a < addr.toNat + 4 → r.byteAt a = 0) : r.wordAt addr = 0 := by
  have blank : r.bytes addr.toNat 4 = [0, 0, 0, 0] := by
    have same : ∀ i < 4, r.byteAt (addr.toNat + i) = 0 :=
      fun i hi => zero _ (by omega) (by omega)
    simp [bytes, List.range_succ, same]
    exact same 0 (by omega)
  rw [wordAt, blank]
  rfl

end PocketKernel.Ram
