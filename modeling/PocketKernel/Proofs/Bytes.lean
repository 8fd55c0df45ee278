import Mathlib
import PocketKernel.Bytes

/-!
# Ranges of byte strings

What a splice does to the range it overwrites, to the ranges beside it and to sums over the whole
string. Ranges are written `(xs.drop start).take n`, as the readers of headers take them.
-/
namespace PocketKernel.Bytes

theorem getElem?_range (xs : Bytes) (start n i : Nat) :
    ((xs.drop start).take n)[i]? = if i < n then xs[start + i]? else none := by
  simp [List.getElem?_take, List.getElem?_drop]

/-- The overwritten range holds what was written. -/
theorem range_splice (xs ys : Bytes) (start : Nat) (h : start + ys.length ≤ xs.length) :
    ((xs.splice start ys).drop start).take ys.length = ys := by
  apply List.ext_getElem?
  intro i
  rw [getElem?_range, getElem?_splice xs ys start _ h]
  split
  · rw [if_pos (by omega), Nat.add_sub_cancel_left]
  · rw [List.getElem?_eq_none (by omega)]

/-- A range beside the overwritten one is as it was. -/
theorem range_splice_of_disjoint (xs ys : Bytes) {start other n : Nat}
    (h : start + ys.length ≤ xs.length)
    (apart : other + n ≤ start ∨ start + ys.length ≤ other) :
    ((xs.splice start ys).drop other).take n = (xs.drop other).take n := by
  apply List.ext_getElem?
  intro i
  rw [getElem?_range, getElem?_range, getElem?_splice xs ys start _ h]
  split
  · rw [if_neg (by omega)]
  · rfl

/-- The second of two splices over the same range wins. -/
theorem splice_splice (xs ys zs : Bytes) (start : Nat) (h : start + ys.length ≤ xs.length)
    (same : zs.length = ys.length) : (xs.splice start ys).splice start zs = xs.splice start zs := by
  apply List.ext_getElem?
  intro i
  have room : start + zs.length ≤ (xs.splice start ys).length := by
    rw [length_splice xs ys start h]
    omega
  rw [getElem?_splice _ zs start i room, getElem?_splice xs zs start i (by omega)]
  split
  · rfl
  · rw [getElem?_splice xs ys start i h, if_neg (by omega)]

def patch (xs : Bytes) (patches : List (Nat × Bytes)) : Bytes :=
  patches.foldl (fun xs p => xs.splice p.1 p.2) xs

theorem length_patch (xs : Bytes) (patches : List (Nat × Bytes))
    (h : ∀ p ∈ patches, p.1 + p.2.length ≤ xs.length) : (xs.patch patches).length = xs.length := by
  induction patches generalizing xs with
  | nil => rfl
  | cons p rest ih =>
    have first := length_splice xs p.2 p.1 (h p List.mem_cons_self)
    exact (ih _ fun q hq => first ▸ h q (List.mem_cons_of_mem _ hq)).trans first

/-- A range beside all patches is as it was. -/
theorem range_patch_of_disjoint (xs : Bytes) (patches : List (Nat × Bytes)) (other n : Nat)
    (h : ∀ p ∈ patches, p.1 + p.2.length ≤ xs.length)
    (apart : ∀ p ∈ patches, other + n ≤ p.1 ∨ p.1 + p.2.length ≤ other) :
    ((xs.patch patches).drop other).take n = (xs.drop other).take n := by
  induction patches generalizing xs with
  | nil => rfl
  | cons p rest ih =>
    have first := length_splice xs p.2 p.1 (h p List.mem_cons_self)
    have others := ih (xs.splice p.1 p.2) (fun q hq => first ▸ h q (List.mem_cons_of_mem _ hq))
      fun q hq => apart q (List.mem_cons_of_mem _ hq)
    exact others.trans
      (range_splice_of_disjoint xs p.2 (h p List.mem_cons_self) (apart p List.mem_cons_self))

/-- A patch that no later one meets stands where it was put. -/
theorem range_patch (xs ys : Bytes) (start : Nat) (earlier later : List (Nat × Bytes))
    (h : ∀ p ∈ earlier ++ (start, ys) :: later, p.1 + p.2.length ≤ xs.length)
    (apart : ∀ p ∈ later, start + ys.length ≤ p.1 ∨ p.1 + p.2.length ≤ start) :
    ((xs.patch (earlier ++ (start, ys) :: later)).drop start).take ys.length = ys := by
  have before : (xs.patch earlier).length = xs.length :=
    length_patch xs earlier fun p hp => h p (List.mem_append_left _ hp)
  have room : start + ys.length ≤ (xs.patch earlier).length :=
    before ▸ h (start, ys) (by simp)
  have split : xs.patch (earlier ++ (start, ys) :: later) =
      ((xs.patch earlier).splice start ys).patch later := by
    simp [patch, List.foldl_append]
  rw [split, range_patch_of_disjoint _ later _ _ _ apart, range_splice _ ys start room]
  intro p hp
  rw [length_splice _ ys start room, before]
  exact h p (by simp [hp])

/-- A splice inside the middle part of a string stays inside it. -/
theorem splice_append (pre middle post ys : Bytes) (start : Nat)
    (h : start + ys.length ≤ middle.length) :
    (pre ++ middle ++ post).splice (pre.length + start) ys =
      pre ++ middle.splice start ys ++ post := by
  simp only [splice, List.append_assoc, List.take_append, List.drop_append]
  have before : pre.take (pre.length + start) = pre := List.take_of_length_le (by omega)
  have after : pre.drop (pre.length + start + ys.length) = [] := List.drop_of_length_le (by omega)
  have none_taken : start - middle.length = 0 := by omega
  have none_dropped : start + ys.length - middle.length = 0 := by omega
  have shift : pre.length + start + ys.length - pre.length = start + ys.length := by omega
  simp [before, after, shift, none_taken, none_dropped]

theorem take_zeros (n count : Nat) : (zeros count).take n = zeros (min n count) := by
  simp [zeros]

theorem drop_zeros (n count : Nat) : (zeros count).drop n = zeros (count - n) := by
  simp [zeros]

theorem zeros_append (m n : Nat) : zeros m ++ zeros n = zeros (m + n) := by
  simp [zeros]

theorem splice_zeros (n : Nat) (ys : Bytes) :
    (zeros n).splice 0 ys = ys ++ zeros (n - ys.length) := by
  simp [splice, drop_zeros]

/-- A splice right after the front part of a string. -/
theorem splice_append_zeros (front ys : Bytes) (n : Nat) :
    (front ++ zeros n).splice front.length ys = front ++ ys ++ zeros (n - ys.length) := by
  simp [splice, List.drop_append, drop_zeros]

/-- The range of a string that lies in its middle part. -/
theorem range_append (pre middle post : Bytes) (start n : Nat) (h : start + n ≤ middle.length) :
    ((pre ++ middle ++ post).drop (pre.length + start)).take n = (middle.drop start).take n := by
  rw [List.append_assoc, List.drop_append, List.drop_of_length_le (by omega), List.nil_append,
    Nat.add_sub_cancel_left, List.drop_append_of_le_length (by omega),
    List.take_append_of_le_length (by rw [List.length_drop]; omega)]

theorem slice?_append (pre middle post : Bytes) (start n : Nat) (h : start + n ≤ middle.length) :
    (pre ++ middle ++ post).slice? (pre.length + start) n = some ((middle.drop start).take n) := by
  unfold slice?
  rw [if_pos (by simp only [List.length_append]; omega), range_append pre middle post _ _ h]

def total (xs : Bytes) : Nat := (xs.map UInt8.toNat).sum

theorem total_le (xs : Bytes) : total xs ≤ 255 * xs.length := by
  induction xs with
  | nil => simp [total]
  | cons b rest ih =>
    have small := b.toNat_lt
    simp only [total, List.map_cons, List.sum_cons, List.length_cons] at ih ⊢
    omega

/-- Adding up bytes in a word gives their sum, reduced to 32 bits. -/
theorem toNat_foldl_add (xs : Bytes) (start : UInt32) :
    (xs.foldl (fun acc b => acc + b.toUInt32) start).toNat =
      (start.toNat + total xs) % UInt32.size := by
  induction xs generalizing start with
  | nil => simp [total, Nat.mod_eq_of_lt start.toNat_lt_size]
  | cons b rest ih =>
    rw [List.foldl_cons, ih, UInt32.toNat_add, UInt8.toNat_toUInt32]
    simp only [total, List.map_cons, List.sum_cons]
    rw [show (2 : Nat) ^ 32 = UInt32.size from rfl, Nat.mod_add_mod, Nat.add_assoc]

theorem getD_append_zeros (xs : Bytes) (n i : Nat) : (xs ++ zeros n).getD i 0 = xs.getD i 0 := by
  by_cases inside : i < xs.length
  · rw [List.getD_append _ _ _ _ inside]
  · rw [List.getD_append_right _ _ _ _ (by omega), List.getD_eq_default xs _ (by omega), zeros,
      List.getD_eq_getElem?_getD, List.getElem?_replicate]
    split <;> rfl

theorem chunks_append {n : Nat} (xs ys : Bytes) (h : xs.length = n + 1) :
    chunks n (xs ++ ys) = xs :: chunks n ys := by
  cases xs with
  | nil => simp at h
  | cons x rest =>
    have length : rest.length = n := by simpa using h
    rw [List.cons_append, chunks, ← length, List.take_left, List.drop_left]

theorem length_chunks (n : Nat) (xs : Bytes) :
    (chunks n xs).length = (xs.length + n) / (n + 1) := by
  fun_induction chunks n xs with
  | case1 => simp [Nat.div_eq_of_lt]
  | case2 x rest ih =>
    rw [List.length_cons, ih, List.length_drop, List.length_cons]
    by_cases short : rest.length ≤ n
    · rw [Nat.sub_eq_zero_of_le short, Nat.div_eq_of_lt (by omega), Nat.div_eq_of_lt_le] <;> omega
    · rw [show rest.length + 1 + n = rest.length - n + n + (n + 1) by omega,
        Nat.add_div_right _ (by omega)]

/-- The piece that a byte lies in. -/
theorem getElem?_chunks {n i : Nat} {xs piece : Bytes} (h : (chunks n xs)[i]? = some piece) :
    piece = (xs.drop (i * (n + 1))).take (n + 1) := by
  fun_induction chunks n xs generalizing i with
  | case1 => simp at h
  | case2 x rest ih =>
    cases i with
    | zero =>
      rw [List.getElem?_cons_zero, Option.some_inj] at h
      simp [← h]
    | succ i =>
      rw [List.getElem?_cons_succ] at h
      rw [ih h, List.drop_drop, Nat.add_mul, Nat.one_mul, ← Nat.add_assoc, List.drop_succ_cons]
      congr 2
      omega

theorem length_le_of_mem_chunks {n : Nat} {xs piece : Bytes} (mem : piece ∈ chunks n xs) :
    piece.length ≤ n + 1 := by
  obtain ⟨i, found⟩ := List.mem_iff_getElem?.1 mem
  rw [getElem?_chunks found]
  exact List.length_take_le _ _

theorem length_of_mem_chunks {n count : Nat} {xs : Bytes} (h : xs.length = (n + 1) * count) :
    (chunks n xs).length = count ∧ ∀ piece ∈ chunks n xs, piece.length = n + 1 := by
  have number : (chunks n xs).length = count := by
    rw [length_chunks, h, Nat.mul_add_div n.succ_pos, Nat.div_eq_of_lt n.lt_succ_self,
      Nat.add_zero]
  refine ⟨number, fun piece mem => ?_⟩
  obtain ⟨i, found⟩ := List.mem_iff_getElem?.1 mem
  have inside : i < count := number ▸ (List.getElem?_eq_some_iff.1 found).1
  have room : (n + 1) * i + (n + 1) ≤ (n + 1) * count := Nat.mul_le_mul_left _ inside
  rw [getElem?_chunks found, List.length_take, List.length_drop, h, Nat.mul_comm i]
  omega

theorem leNat_lt (xs : Bytes) : leNat xs < 256 ^ xs.length := by
  induction xs with
  | nil => simp [leNat]
  | cons x rest ih =>
    have digit := x.toNat_lt
    rw [leNat, List.length_cons, Nat.pow_succ]
    omega

/-- Byte strings of one length are told apart by their numbers. -/
theorem leNat_inj {xs ys : Bytes} (length : xs.length = ys.length) :
    leNat xs = leNat ys ↔ xs = ys := by
  refine ⟨fun same => ?_, congrArg leNat⟩
  induction xs generalizing ys with
  | nil => exact (List.length_eq_zero_iff.1 length.symm).symm
  | cons x rest ih =>
    cases ys with
    | nil => cases length
    | cons y rest' =>
      have hx := x.toNat_lt
      have hy := y.toNat_lt
      simp only [leNat] at same
      have first : x = y := by
        rw [← UInt8.toNat_inj]
        omega
      rw [first, ih (by simpa using length) (by omega)]

end PocketKernel.Bytes
