import Mathlib
import PocketKernel.Proofs.Memory.Ram

/-!
# Aligned words

Seen through aligned words, memory is a function from addresses to words: `word_putWords` says what
it means to store some words one after the other.
-/
namespace PocketKernel.Ram
variable {r : Ram} {addr n : Nat}

def Has (r : Ram) (addr n : Nat) : Prop := r.base.toNat ≤ addr ∧ addr + n ≤ r.limit.toNat

theorem Has.lt_size (h : r.Has addr n) : addr + n < UInt32.size := h.2.trans_lt r.limit.toNat_lt

theorem Has.part (h : r.Has addr n) {other m : Nat} (first : addr ≤ other)
    (last : other + m ≤ addr + n) : r.Has other m :=
  ⟨h.1.trans first, last.trans h.2⟩

theorem Has.holds (h : r.Has addr n) : r.holds (UInt32.ofNat addr) n = true := by
  have small : addr < UInt32.size := (Nat.le_add_right addr n).trans_lt h.lt_size
  rw [holds_iff, UInt32.toNat_ofNat_of_lt' small]
  exact h

def word (r : Ram) (addr : Nat) : UInt32 := r.wordAt (UInt32.ofNat addr)

theorem loadWord_of_has (h : r.Has addr 4) : r.loadWord (UInt32.ofNat addr) = .ok (r.word addr) :=
  loadWord_of_holds h.holds

def putWords (r : Ram) : (addr : Nat) → (words : List UInt32) → Ram
  | _, [] => r
  | addr, word :: rest => (r.write addr (Bytes.ofLE 4 word.toNat)).putWords (addr + 4) rest

theorem base_putWords (r : Ram) (addr : Nat) (words : List UInt32) :
    (r.putWords addr words).base = r.base ∧ (r.putWords addr words).limit = r.limit := by
  induction words generalizing r addr with
  | nil => exact ⟨rfl, rfl⟩
  | cons word rest ih => exact ih (r.write addr (Bytes.ofLE 4 word.toNat)) (addr + 4)

theorem has_putWords {other : Nat} {words : List UInt32} :
    (r.putWords addr words).Has other n ↔ r.Has other n := by
  rw [Has, (r.base_putWords addr words).1, (r.base_putWords addr words).2, Has]

theorem putWords_append (r : Ram) (addr : Nat) (words more : List UInt32) :
    r.putWords addr (words ++ more) =
      (r.putWords addr words).putWords (addr + 4 * words.length) more := by
  induction words generalizing r addr with
  | nil => rfl
  | cons word rest ih =>
    rw [List.cons_append, putWords, ih, putWords, List.length_cons]
    congr 1
    omega

theorem storeWord_of_has (h : r.Has addr 4) (word : UInt32) :
    storeWord (UInt32.ofNat addr) word r = .ok () (r.putWords addr [word]) := by
  have small : addr < UInt32.size := (Nat.le_add_right addr 4).trans_lt h.lt_size
  have room : r.holds (UInt32.ofNat addr) (Bytes.ofLE 4 word.toNat).length = true := by
    rw [Bytes.length_ofLE]
    exact h.holds
  rw [storeWord, store_of_holds room, UInt32.toNat_ofNat_of_lt' small]
  rfl

theorem word_write (word : UInt32) (aligned : 4 ∣ addr) (fits : addr + 4 ≤ UInt32.size)
    {other : Nat} (aligned' : 4 ∣ other) (fits' : other + 4 ≤ UInt32.size) :
    (r.write addr (Bytes.ofLE 4 word.toNat)).word other =
      if other = addr then word else r.word other := by
  have small : (UInt32.ofNat other).toNat = other := UInt32.toNat_ofNat_of_lt' (by omega)
  split
  next same =>
    subst same
    have stored := r.wordAt_write_ofLE word (small.symm ▸ fits' :
      (UInt32.ofNat other).toNat + 4 ≤ UInt32.size)
    rwa [small] at stored
  next different =>
    refine wordAt_congr fun a low high => ?_
    rw [small] at low high
    refine byteAt_write_of_outside r ?_ (by omega)
    rw [Bytes.length_ofLE]
    omega

theorem byteAt_putWords_of_outside {words : List UInt32} {a : Nat}
    (outside : a < addr ∨ addr + 4 * words.length ≤ a) (small : a < UInt32.size) :
    (r.putWords addr words).byteAt a = r.byteAt a := by
  induction words generalizing r addr with
  | nil => rfl
  | cons word rest ih =>
    rw [List.length_cons] at outside
    rw [putWords, ih (by omega)]
    refine byteAt_write_of_outside r ?_ small
    rw [Bytes.length_ofLE]
    omega

/-- The words that were stored are there, and all others stay. -/
theorem word_putWords {words : List UInt32} (aligned : 4 ∣ addr)
    (fits : addr + 4 * words.length ≤ UInt32.size) {other : Nat} (aligned' : 4 ∣ other)
    (fits' : other + 4 ≤ UInt32.size) :
    (r.putWords addr words).word other =
      if addr ≤ other ∧ other < addr + 4 * words.length then words.getD ((other - addr) / 4) 0
      else r.word other := by
  induction words generalizing r addr with
  | nil => rw [if_neg (by simp), putWords]
  | cons word rest ih =>
    rw [List.length_cons] at fits ⊢
    rw [putWords, ih (by omega) (by omega), word_write word aligned (by omega) aligned' fits']
    by_cases here : other = addr
    · subst here
      rw [if_neg (by omega), if_pos rfl, if_pos (by omega), Nat.sub_self]
      rfl
    · by_cases later : addr + 4 ≤ other ∧ other < addr + 4 + 4 * rest.length
      · have next : (other - addr) / 4 = (other - (addr + 4)) / 4 + 1 := by omega
        rw [if_pos later, if_pos (by omega), next, List.getD_cons_succ]
      · rw [if_neg later, if_neg here, if_neg (by omega)]

theorem word_putWords_getElem {words : List UInt32} (aligned : 4 ∣ addr)
    (fits : addr + 4 * words.length ≤ UInt32.size) {i : Nat} (inside : i < words.length) :
    (r.putWords addr words).word (addr + 4 * i) = words[i] := by
  have index : (addr + 4 * i - addr) / 4 = i := by omega
  rw [word_putWords aligned fits (by omega) (by omega), if_pos (by omega), index]
  exact (List.getElem_eq_getD 0).symm

def words (r : Ram) (addr count : Nat) : List UInt32 :=
  (List.range count).map fun i => r.word (addr + 4 * i)

@[simp] theorem length_words (r : Ram) (addr count : Nat) :
    (r.words addr count).length = count := by
  simp [words]

theorem words_congr {r' : Ram} {count : Nat}
    (same : ∀ i < count, r'.word (addr + 4 * i) = r.word (addr + 4 * i)) :
    r'.words addr count = r.words addr count :=
  List.map_congr_left fun i mem => same i (List.mem_range.1 mem)

theorem words_putWords {words : List UInt32} (aligned : 4 ∣ addr)
    (fits : addr + 4 * words.length ≤ UInt32.size) :
    (r.putWords addr words).words addr words.length = words := by
  refine List.ext_getElem (length_words ..) fun i inside inside' => ?_
  simp only [Ram.words, List.getElem_map, List.getElem_range]
  exact word_putWords_getElem aligned fits inside'

end PocketKernel.Ram
