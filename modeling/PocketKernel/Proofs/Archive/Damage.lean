import Mathlib
import PocketKernel.Proofs.Archive.Size

/-!
# Headers with a changed byte

The sum of 512 bytes fits in a word, so the checksum of a header is a sum of numbers, and it tells
two headers apart that differ in one byte outside its own field. Main statement: a header that was
accepted is not accepted any more when one such byte has changed, and the answer tells where the
byte was (`readEntry_of_damaged`).
-/
namespace PocketKernel

namespace Bytes

structure DifferAt (i : Nat) (xs ys : Bytes) : Prop where
  length : ys.length = xs.length
  here : ys[i]? ≠ xs[i]?
  elsewhere : ∀ j ≠ i, ys[j]? = xs[j]?

namespace DifferAt
variable {i start n : Nat} {xs ys : Bytes}

/-- A byte is set to another one. -/
theorem of_set {b : UInt8} (there : i < xs.length) (new : xs[i]? ≠ some b) :
    DifferAt i xs (xs.set i b) where
  length := List.length_set
  here := by rwa [List.getElem?_set_self there, ne_comm]
  elsewhere _ hj := List.getElem?_set_ne hj.symm

theorem lt_length (h : DifferAt i xs ys) : i < xs.length := by
  by_contra behind
  have none (zs : Bytes) (le : zs.length ≤ i) : zs[i]? = none := List.getElem?_eq_none le
  exact h.here (by rw [none xs (by omega), none ys (by rw [h.length]; omega)])

/-- A range beside the changed byte is as it was. -/
theorem range_eq (h : DifferAt i xs ys) (outside : i < start ∨ start + n ≤ i) :
    (ys.drop start).take n = (xs.drop start).take n := by
  apply List.ext_getElem?
  intro j
  rw [getElem?_range, getElem?_range]
  split
  · exact h.elsewhere _ (by omega)
  · rfl

/-- A range with the changed byte. -/
theorem range (h : DifferAt (start + i) xs ys) (inside : i < n) :
    DifferAt i ((xs.drop start).take n) ((ys.drop start).take n) where
  length := by simp [h.length]
  here := by
    rw [getElem?_range, getElem?_range, if_pos inside, if_pos inside]
    exact h.here
  elsewhere j hj := by
    rw [getElem?_range, getElem?_range]
    split
    · exact h.elsewhere _ (by omega)
    · rfl

/-- Bytes that are written over both strings beside the changed byte. -/
theorem splice (h : DifferAt i xs ys) (zs : Bytes) (fits : start + zs.length ≤ xs.length)
    (outside : i < start ∨ start + zs.length ≤ i) :
    DifferAt i (xs.splice start zs) (ys.splice start zs) where
  length := by
    rw [length_splice _ _ _ fits, length_splice _ _ _ (h.length ▸ fits), h.length]
  here := by
    rw [getElem?_splice _ _ _ _ fits, getElem?_splice _ _ _ _ (h.length ▸ fits),
      if_neg (by omega), if_neg (by omega)]
    exact h.here
  elsewhere j hj := by
    rw [getElem?_splice _ _ _ _ fits, getElem?_splice _ _ _ _ (h.length ▸ fits)]
    split
    · rfl
    · exact h.elsewhere j hj

/-- One changed byte changes the sum. -/
theorem total_ne (h : DifferAt i xs ys) : total ys ≠ total xs := by
  induction xs generalizing i ys with
  | nil => exact absurd h.lt_length (Nat.not_lt_zero i)
  | cons x xs ih =>
    cases ys with
    | nil => cases h.length
    | cons y ys =>
    have length : ys.length = xs.length := by simpa using h.length
    have sums : total (y :: ys) = y.toNat + total ys ∧ total (x :: xs) = x.toNat + total xs := by
      simp [total]
    rw [sums.1, sums.2]
    cases i with
    | zero =>
      have rest : ys = xs :=
        List.ext_getElem? fun j => by simpa using h.elsewhere (j + 1) (by omega)
      have first : y.toNat ≠ x.toNat := fun same => h.here (by simp [UInt8.toNat_inj.1 same])
      rw [rest]
      omega
    | succ i =>
      have first : y = x := by simpa using h.elsewhere 0 (by omega)
      have rest : DifferAt i xs ys := by
        refine ⟨length, by simpa using h.here, fun j hj => ?_⟩
        simpa using h.elsewhere (j + 1) (by omega)
      have sum := ih rest
      rw [first]
      omega

end DifferAt

end Bytes

namespace Archive
variable {image other header changed : Bytes} {offset i next : Nat} {e : Entry}

def InChecksum (i : Nat) : Prop := 148 ≤ i ∧ i < 156

def InMagic (i : Nat) : Prop := 257 ≤ i ∧ i < 262

instance : DecidablePred InChecksum := fun i => inferInstanceAs (Decidable (148 ≤ i ∧ i < 156))

instance : DecidablePred InMagic := fun i => inferInstanceAs (Decidable (257 ≤ i ∧ i < 262))

/-- The checksum of a header does not wrap. -/
theorem toNat_checksum (length : header.length = headerSize) :
    (checksum header).toNat = Bytes.total (header.splice 148 (List.replicate 8 32)) := by
  have bound := Bytes.total_le (header.splice 148 (List.replicate 8 32))
  rw [Bytes.length_splice _ _ _ (by simp [length, headerSize]), length, headerSize] at bound
  rw [checksum, Bytes.toNat_foldl_add, UInt32.toNat_zero, Nat.zero_add]
  exact Nat.mod_eq_of_lt (bound.trans_lt (by decide))

/-- One changed byte outside its field changes the checksum. -/
theorem checksum_ne (damage : Bytes.DifferAt i header changed) (length : header.length = headerSize)
    (outside : ¬ InChecksum i) : checksum changed ≠ checksum header := by
  have room : 148 + (List.replicate 8 (32 : UInt8)).length ≤ header.length := by
    simp [length, headerSize]
  have apart : i < 148 ∨ 148 + (List.replicate 8 (32 : UInt8)).length ≤ i := by
    unfold InChecksum at outside
    rw [List.length_replicate]
    omega
  have sums := (damage.splice (List.replicate 8 32) room apart).total_ne
  rw [← toNat_checksum length, ← toNat_checksum (damage.length.trans length)] at sums
  exact fun same => sums (congrArg UInt32.toNat same)

/-- The header of an entry with one byte changed, in front of whatever was or is behind it. -/
theorem slice?_of_damaged (damage : Bytes.DifferAt (offset + i) image other)
    (inside : i < headerSize) (found : image.slice? offset headerSize = some header) :
    ∃ changed, other.slice? offset headerSize = some changed ∧
      Bytes.DifferAt i header changed := by
  unfold Bytes.slice? at found ⊢
  rw [damage.length]
  split at found
  · next room =>
    cases found
    exact ⟨_, if_pos room, damage.range inside⟩
  · cases found

/-- The first byte of a header that exists is that of the image at its offset. -/
theorem headD_eq_zero_iff (found : image.slice? offset headerSize = some header) :
    header.headD 0 = 0 ↔ image[offset]? = some 0 := by
  unfold Bytes.slice? at found
  split at found
  next room =>
    cases found
    have there : offset < image.length := by simp only [headerSize] at room; omega
    have first : ((image.drop offset).take headerSize)[0]? = image[offset]? :=
      Bytes.getElem?_range image offset headerSize 0
    rw [List.headD_eq_head?_getD, List.head?_eq_getElem?, first, List.getElem?_eq_getElem there]
    simp
  next => cases found

/-- An image that differs from one with an entry in one byte of its header, not in the checksum, has
no entry there. It ends if the first byte of the name is zero now. Otherwise it is refused, for its
mark if that has changed, and else for the checksum. -/
theorem readEntry_of_damaged (read : readEntry image offset = .ok (some (e, next)))
    (damage : Bytes.DifferAt (offset + i) image other) (inside : i < headerSize)
    (outside : ¬ InChecksum i) :
    readEntry other offset =
      if i = 0 ∧ other[offset]? = some 0 then .ok none
      else if InMagic i then .error (.badMagic offset)
      else .error (.badChecksum offset) := by
  obtain ⟨header, h, -⟩ := headerAt_of_readEntry read
  obtain ⟨changed, found, differ⟩ := slice?_of_damaged damage inside h.found
  have length := Bytes.length_of_slice? h.found
  have first := headD_eq_zero_iff found
  unfold readEntry
  rw [found]
  by_cases ended : i = 0 ∧ other[offset]? = some 0
  · simp only [first.2 ended.2, beq_self_eq_true, if_pos, ended, and_self]
  have live : ¬ changed.headD 0 = 0 := by
    intro zero
    -- only the byte at `i` has changed, and the first byte was not zero before
    rcases Nat.eq_zero_or_pos i with rfl | behind
    · exact ended ⟨rfl, first.1 zero⟩
    · have kept := damage.elsewhere offset (by omega)
      exact h.live ((headD_eq_zero_iff h.found).2 (kept ▸ first.1 zero))
  simp only [beq_iff_eq, live, if_false, ended]
  by_cases mark : InMagic i
  · have unmarked : (changed.drop 257).take 5 ≠ magic := by
      obtain ⟨j, rfl⟩ : ∃ j, i = 257 + j := ⟨i - 257, by unfold InMagic at mark; omega⟩
      have broken := differ.range (n := 5) (by unfold InMagic at mark; omega)
      rw [h.marked] at broken
      exact fun same => broken.here (by rw [same])
    simp only [bne_iff_ne, unmarked, ne_eq, not_false_eq_true, if_true, mark]
  · have marked : (changed.drop 257).take 5 = magic :=
      (differ.range_eq (by unfold InMagic at mark; omega)).trans h.marked
    have field : (changed.drop 148).take 8 = (header.drop 148).take 8 :=
      differ.range_eq (by unfold InChecksum at outside; omega)
    have unsummed : Octal.parse ((changed.drop 148).take 8) ≠ checksum changed := by
      rw [field, h.summed]
      exact (checksum_ne differ length outside).symm
    simp only [marked, bne_self_eq_false, Bool.false_eq_true, if_false, bne_iff_ne, ne_eq, unsummed,
      not_false_eq_true, if_true, mark]

def twoEntries : Bytes := records [⟨[0x61], [1]⟩, ⟨[0x62], [2, 3]⟩]

/-- The header of the second entry with its name gone, with another mark, and with another size. -/
theorem readEntry_of_damaged_second :
    readEntry twoEntries 1024 = .ok (some (⟨[0x62], [2, 3]⟩, 2048)) ∧
      readEntry (twoEntries.set 1024 0) 1024 = .ok none ∧
      readEntry (twoEntries.set 1281 0x55) 1024 = .error (.badMagic 1024) ∧
      readEntry (twoEntries.set 1158 0x31) 1024 = .error (.badChecksum 1024) := by
  have read : readEntry twoEntries 1024 = .ok (some (⟨[0x62], [2, 3]⟩, 2048)) := by decide +kernel
  have length : twoEntries.length = 2048 := by decide +kernel
  have name : Bytes.DifferAt (1024 + 0) twoEntries (twoEntries.set 1024 0) :=
    .of_set (by omega) (by decide +kernel)
  have mark : Bytes.DifferAt (1024 + 257) twoEntries (twoEntries.set 1281 0x55) :=
    .of_set (by omega) (by decide +kernel)
  have size : Bytes.DifferAt (1024 + 134) twoEntries (twoEntries.set 1158 0x31) :=
    .of_set (by omega) (by decide +kernel)
  refine ⟨read, (readEntry_of_damaged read name (by decide) (by decide)).trans ?_,
    (readEntry_of_damaged read mark (by decide) (by decide)).trans ?_,
    (readEntry_of_damaged read size (by decide) (by decide)).trans ?_⟩ <;> decide +kernel

end Archive

end PocketKernel
