import PocketKernel.Bytes

/-!
# Ranges of bytes as trees

A range of addresses is either all one byte or split in halves. A range of `1 <<< height` bytes is
split `height` times at most, so one byte is reached, and one run of equal bytes is stored, by
walking down that many levels. Every tree stands for some bytes; `get_fillRange` and `get_write` say
what becomes of them.
-/
namespace PocketKernel

inductive ByteTree where
  /-- Every byte of the range is this one. -/
  | fill (b : UInt8)
  | node (low high : ByteTree)
  deriving DecidableEq, Repr

namespace ByteTree

/-- The first half of the range. -/
def low : ByteTree → ByteTree
  | fill b => fill b
  | node low _ => low

/-- The second half of the range. -/
def high : ByteTree → ByteTree
  | fill b => fill b
  | node _ high => high

/-- The byte at an address of a range of that size. -/
def get : ByteTree → (size addr : Nat) → UInt8
  | fill b, _, _ => b
  | node low high, size, addr =>
    if addr < size / 2 then low.get (size / 2) addr else high.get (size / 2) (addr - size / 2)

@[simp] theorem get_fill (b : UInt8) (size addr : Nat) : (fill b).get size addr = b := rfl

theorem get_low (t : ByteTree) {size addr : Nat} (h : addr < size / 2) :
    t.low.get (size / 2) addr = t.get size addr := by
  cases t with
  | fill b => rfl
  | node low high => simp [ByteTree.low, get, h]

theorem get_high (t : ByteTree) {size addr : Nat} (h : size / 2 ≤ addr) :
    t.high.get (size / 2) (addr - size / 2) = t.get size addr := by
  cases t with
  | fill b => rfl
  | node low high => simp [ByteTree.high, get, Nat.not_lt.2 h]

/-- The bytes from `start` up to but not including `stop` set to `b`, in a range of that size. -/
def fillRange (b : UInt8) : (height size start stop : Nat) → ByteTree → ByteTree
  | 0, _, start, stop, t => if start = 0 ∧ 0 < stop then fill b else t
  | height + 1, size, start, stop, t =>
    if stop ≤ start ∨ size ≤ start then t
    else if start = 0 ∧ size ≤ stop then fill b
    else
      node (fillRange b height (size / 2) start stop t.low)
        (fillRange b height (size / 2) (start - size / 2) (stop - size / 2) t.high)

theorem get_fillRange (b : UInt8) (height start stop : Nat) (t : ByteTree) {addr : Nat}
    (h : addr < 1 <<< height) :
    (fillRange b height (1 <<< height) start stop t).get (1 <<< height) addr =
      if start ≤ addr ∧ addr < stop then b else t.get (1 <<< height) addr := by
  induction height generalizing start stop t addr with
  | zero =>
    have first : addr = 0 := by simpa using h
    subst first
    by_cases hit : start = 0 ∧ 0 < stop <;> simp [fillRange, hit]
  | succ height ih =>
    have half : 1 <<< (height + 1) / 2 = 1 <<< height := by
      rw [Nat.shiftLeft_succ]
      omega
    have double : 1 <<< (height + 1) = 2 * (1 <<< height) := Nat.shiftLeft_succ 1 height
    unfold fillRange
    split
    · rw [if_neg (by omega)]
    split
    · rw [get_fill, if_pos (by omega)]
    · by_cases lower : addr < 1 <<< height
      · rw [get, half, if_pos lower, ih _ _ _ lower, ← half, get_low t (by omega)]
      · rw [get, half, if_neg lower, ih _ _ _ (by omega), ← half, get_high t (by omega), half]
        have same : start - 1 <<< height ≤ addr - 1 <<< height ∧
            addr - 1 <<< height < stop - 1 <<< height ↔ start ≤ addr ∧ addr < stop := by
          omega
        simp only [same]

/-- The bytes from `start` on replaced by `data`, as far as they lie in a range of that size. -/
def write : (height size start : Nat) → (data : Bytes) → ByteTree → ByteTree
  | _, _, _, [], t => t
  | 0, _, start, b :: _, t => if start = 0 then fill b else t
  | height + 1, size, start, b :: rest, t =>
    let room := size / 2 - start
    if room = 0 then
      node t.low (write height (size / 2) (start - size / 2) (b :: rest) t.high)
    else if rest.length < room then
      node (write height (size / 2) start (b :: rest) t.low) t.high
    else
      node (write height (size / 2) start ((b :: rest).take room) t.low)
        (write height (size / 2) 0 ((b :: rest).drop room) t.high)

theorem get_write (height start : Nat) (data : Bytes) (t : ByteTree) {addr : Nat}
    (h : addr < 1 <<< height) :
    (write height (1 <<< height) start data t).get (1 <<< height) addr =
      if start ≤ addr ∧ addr < start + data.length then data.getD (addr - start) 0
      else t.get (1 <<< height) addr := by
  induction height generalizing start data t addr with
  | zero =>
    have first : addr = 0 := by simpa using h
    subst first
    cases data with
    | nil => rw [write, if_neg (by simp only [List.length_nil]; omega)]
    | cons b rest => by_cases at_start : start = 0 <;> simp [write, at_start]
  | succ height ih =>
    cases data with
    | nil => rw [write, if_neg (by simp only [List.length_nil]; omega)]
    | cons b rest =>
      have half : 1 <<< (height + 1) / 2 = 1 <<< height := by
        rw [Nat.shiftLeft_succ]
        omega
      have double : 1 <<< (height + 1) = 2 * (1 <<< height) := Nat.shiftLeft_succ 1 height
      have low_get (lower : addr < 1 <<< height) :
          t.low.get (1 <<< height) addr = t.get (1 <<< (height + 1)) addr := by
        rw [← half, get_low t (by omega)]
      have high_get (upper : ¬ addr < 1 <<< height) :
          t.high.get (1 <<< height) (addr - 1 <<< height) = t.get (1 <<< (height + 1)) addr := by
        rw [← half, get_high t (by omega)]
      simp only [write, half]
      split
      · by_cases lower : addr < 1 <<< height
        · rw [get, half, if_pos lower, low_get lower, if_neg (by omega)]
        · have place : addr - 1 <<< height - (start - 1 <<< height) = addr - start := by omega
          have same : start - 1 <<< height ≤ addr - 1 <<< height ∧
              addr - 1 <<< height < start - 1 <<< height + (b :: rest).length ↔
                start ≤ addr ∧ addr < start + (b :: rest).length := by
            omega
          rw [get, half, if_neg lower, ih _ _ _ (by omega), high_get lower, place]
          simp only [same]
      split
      · by_cases lower : addr < 1 <<< height
        · rw [get, half, if_pos lower, ih _ _ _ lower, low_get lower]
        · rw [get, half, if_neg lower, high_get lower,
            if_neg (by simp only [List.length_cons]; omega)]
      · by_cases lower : addr < 1 <<< height
        · rw [get, half, if_pos lower, ih _ _ _ lower, low_get lower]
          by_cases hit : start ≤ addr
          · have taken : addr - start < 1 <<< height - start := by omega
            rw [if_pos (by simp only [List.length_take, List.length_cons]; omega),
              if_pos (by simp only [List.length_cons]; omega)]
            simp only [List.getD_eq_getElem?_getD, List.getElem?_take, taken, if_true]
          · rw [if_neg (by omega), if_neg (by omega)]
        · rw [get, half, if_neg lower, ih _ _ _ (by omega), high_get lower]
          have place : 1 <<< height - start + (addr - 1 <<< height) = addr - start := by omega
          have same : 0 ≤ addr - 1 <<< height ∧
              addr - 1 <<< height < 0 + ((b :: rest).drop (1 <<< height - start)).length ↔
                start ≤ addr ∧ addr < start + (b :: rest).length := by
            simp only [List.length_drop, List.length_cons]
            omega
          simp only [same, List.getD_eq_getElem?_getD, List.getElem?_drop, Nat.sub_zero, place]

end ByteTree

end PocketKernel
