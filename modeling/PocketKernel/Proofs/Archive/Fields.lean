import Mathlib
import PocketKernel.Proofs.Archive.InPlace

/-!
# Octal fields in place

`storeNumber` writes a number into a field of a buffer in a loop over its bytes from the right: each
byte gets the lowest octal digit of what is left of the number, and a zero byte closes the field.
Main statement: whatever stood in the field, a reader finds the number without the digits that had
no place, and sizes and checksums have a place for all their digits (`number_of_storeNumber`).
-/
namespace PocketKernel

namespace Octal

theorem ofNat_digit (v : UInt32) : 48 + (v % 8).toUInt8 = UInt8.ofNat (48 + v.toNat % 8) := by
  rw [← UInt8.toNat_inj]
  simp

end Octal

namespace Archive

/-- Stores the last `count` octal digits of `v` in the bytes from `start` on, from right to left. -/
def storeDigits (start : Nat) : (count : Nat) → (v : UInt32) → InPlace Unit
  | 0, _ => pure ()
  | count + 1, v => do
    store (start + count) [48 + (v % 8).toUInt8]
    storeDigits start count (v / 8)

def storeNumber (start width : Nat) (v : UInt32) : InPlace Unit := do
  storeDigits start (width - 1) v
  store (start + (width - 1)) [0]

section Middle
variable (pre : Bytes) {middle : Bytes} (post : Bytes)

/-- The induction is on the bytes to come; those behind them hold the digits that are done. -/
theorem storeDigits_append {count : Nat} (length : middle.length = count) (v : UInt32) :
    storeDigits pre.length count v (pre ++ middle ++ post) =
      some ((), pre ++ Octal.digits count v.toNat ++ post) := by
  induction count generalizing middle post v with
  | zero =>
    obtain rfl := List.length_eq_zero_iff.1 length
    rfl
  | succ count ih =>
    have front : (middle.take count).length = count := by simp [length]
    have last : middle.splice count [48 + (v % 8).toUInt8] =
        middle.take count ++ [48 + (v % 8).toUInt8] := by
      simp [Bytes.splice, length]
    have first : store (pre.length + count) [48 + (v % 8).toUInt8] (pre ++ middle ++ post) =
        some ((), pre ++ middle.splice count [48 + (v % 8).toUInt8] ++ post) :=
      store_append pre post (by simp [length])
    have others := ih (UInt8.ofNat (48 + v.toNat % 8) :: post) front (v / 8)
    rw [storeDigits, InPlace.bind_of_some first, last, Octal.ofNat_digit, Octal.digits]
    simpa using others

theorem storeNumber_append (some_width : 0 < middle.length) (v : UInt32) :
    storeNumber pre.length middle.length v (pre ++ middle ++ post) =
      some ((), pre ++ Octal.field middle.length v.toNat ++ post) := by
  obtain rfl | ⟨front, last, rfl⟩ := List.eq_nil_or_concat' middle
  · simp at some_width
  have field : (Octal.digits front.length v.toNat ++ [last]).splice front.length [0] =
      Octal.field (front ++ [last]).length v.toNat := by
    simp [Bytes.splice, Octal.field]
  have digits : storeDigits pre.length front.length v (pre ++ (front ++ [last]) ++ post) =
      some ((), pre ++ (Octal.digits front.length v.toNat ++ [last]) ++ post) := by
    simpa using storeDigits_append pre ([last] ++ post) rfl v
  have closed : store (pre.length + front.length) [0]
      (pre ++ (Octal.digits front.length v.toNat ++ [last]) ++ post) = some ((), _) :=
    store_append pre post (by simp)
  rw [storeNumber, List.length_append, List.length_singleton, Nat.add_sub_cancel,
    InPlace.bind_of_some digits, closed, field, List.length_append, List.length_singleton]

end Middle

variable {image : Bytes} {start width : Nat} {v : UInt32}

structure NumberAt (image : Bytes) (start width : Nat) (v : UInt32) : Prop where
  digits : ∀ i < width - 1, ∃ b, image[start + i]? = some b ∧ Octal.isDigit b = true
  closed : image[start + (width - 1)]? = some 0
  /-- A reader of the field and of any bytes behind it finds as many digits as have a place. -/
  read : ∀ n, width ≤ n →
    (Octal.parse ((image.drop start).take n)).toNat = v.toNat % 8 ^ (width - 1)

/-- A reader of the field and of any bytes behind it finds the number. -/
def ReadAs (image : Bytes) (start width : Nat) (v : UInt32) : Prop :=
  ∀ n, width ≤ n → Octal.parse ((image.drop start).take n) = v

theorem NumberAt.readAs (h : NumberAt image start width v) (small : v.toNat < 8 ^ (width - 1)) :
    ReadAs image start width v := by
  intro n le
  rw [← UInt32.toNat_inj, h.read n le, Nat.mod_eq_of_lt small]

theorem length_field_of_pos (some_width : 0 < width) (n : Nat) :
    (Octal.field width n).length = width := by
  rw [length_field, Nat.sub_add_cancel some_width]

theorem numberAt_append (pre post : Bytes) (some_width : 0 < width) (v : UInt32) :
    NumberAt (pre ++ Octal.field width v.toNat ++ post) pre.length width v := by
  have length := length_field_of_pos some_width v.toNat
  have place (i : Nat) (inside : i < width) :
      (pre ++ Octal.field width v.toNat ++ post)[pre.length + i]? =
        (Octal.field width v.toNat)[i]? := by
    rw [List.append_assoc, List.getElem?_append_right (by omega), Nat.add_sub_cancel_left,
      List.getElem?_append_left (by omega)]
  refine ⟨fun i inside => ?_, ?_, fun n le => ?_⟩
  · have there : i < (Octal.digits (width - 1) v.toNat).length := by simpa using inside
    refine ⟨(Octal.digits (width - 1) v.toNat)[i], ?_,
      (Octal.isDigit_of_mem_digits (List.getElem_mem there)).1⟩
    rw [place i (by omega), Octal.field, List.getElem?_append_left there,
      List.getElem?_eq_getElem there]
  · rw [place _ (by omega), Octal.field]
    simp
  · have range : ((pre ++ Octal.field width v.toNat ++ post).drop pre.length).take n =
        Octal.field width v.toNat ++ post.take (n - width) := by
      rw [List.append_assoc, List.drop_left, List.take_append, length,
        List.take_of_length_le (by omega)]
    rw [range, Octal.parse_field_append]
    exact UInt32.toNat_ofNat_of_lt ((Nat.mod_le _ _).trans_lt v.toNat_lt_size)

/-- Every number of 32 bits has at most as many octal digits as a size field has places. -/
theorem size_lt (v : UInt32) : v.toNat < 8 ^ 11 :=
  v.toNat_lt_size.trans (by decide)

/-- Whatever bytes a field held, a number that is stored in it leaves octal digits and a zero byte,
and a reader finds the number without the digits that had no place, so the number itself if it has
few digits. The field of a size has a place for every digit of 32 bits. The field of a checksum,
less its last byte, has one for every digit of the checksum of a header. -/
theorem number_of_storeNumber (some_width : 0 < width) (fits : start + width ≤ image.length)
    (v : UInt32) :
    ∃ out, storeNumber start width v image = some ((), out) ∧
      out = image.splice start (Octal.field width v.toNat) ∧ NumberAt out start width v ∧
      (v.toNat < 8 ^ (width - 1) → ReadAs out start width v) ∧
      (width = 12 → ReadAs out start width v) ∧
      ∀ header : Bytes, header.length = headerSize → width = 7 → v = checksum header →
        ReadAs out start width v := by
  obtain ⟨pre, middle, post, rfl, rfl, rfl⟩ := exists_middle image fits
  have number := numberAt_append pre post some_width v
  refine ⟨_, storeNumber_append pre post some_width v, ?_, number, number.readAs, ?_, ?_⟩
  · simp [Bytes.splice, length_field_of_pos some_width]
  · intro twelve
    exact number.readAs (twelve ▸ size_lt v)
  · rintro header whole seven rfl
    exact number.readAs (seven ▸ checksum_lt whole)

/-- A number with more digits than its field has places, the largest size, and the largest checksum
in front of a digit. -/
theorem number_of_storeNumber_threeFields :
    (∃ out, storeNumber 1 4 0o12345 (List.replicate 6 9) = some ((), out) ∧
      out = [9, 0x33, 0x34, 0x35, 0, 9] ∧ (Octal.parse ((out.drop 1).take 4)).toNat = 0o345) ∧
    (∃ out, storeNumber 0 12 0xffffffff (List.replicate 12 9) = some ((), out) ∧
      Octal.parse (out.take 12) = 0xffffffff) ∧
    ∃ out, storeNumber 0 7 (checksum (List.replicate 512 0xff)) (List.replicate 8 0x37) =
        some ((), out) ∧
      out[7]? = some 0x37 ∧ Octal.parse (out.take 8) = checksum (List.replicate 512 0xff) := by
  refine ⟨?_, ?_, ?_⟩
  · obtain ⟨out, stored, spliced, number, -⟩ :=
      number_of_storeNumber (by decide : 0 < 4)
        (by decide : 1 + 4 ≤ (List.replicate 6 (9 : UInt8)).length) 0o12345
    exact ⟨out, stored, spliced.trans (by decide), number.read 4 (by decide)⟩
  · obtain ⟨out, stored, -, -, -, size, -⟩ :=
      number_of_storeNumber (by decide : 0 < 12)
        (by decide : 0 + 12 ≤ (List.replicate 12 (9 : UInt8)).length) 0xffffffff
    exact ⟨out, stored, size rfl 12 (by decide)⟩
  · obtain ⟨out, stored, spliced, -, -, -, sum⟩ :=
      number_of_storeNumber (by decide : 0 < 7)
        (by decide : 0 + 7 ≤ (List.replicate 8 (0x37 : UInt8)).length)
        (checksum (List.replicate 512 0xff))
    exact ⟨out, stored, by rw [spliced]; decide +kernel,
      sum _ (by decide +kernel) rfl rfl 8 (by decide)⟩

end Archive

end PocketKernel
