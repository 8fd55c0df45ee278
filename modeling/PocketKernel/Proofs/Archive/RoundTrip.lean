import Mathlib
import PocketKernel.Proofs.Archive.InPlace

/-!
# Archives of any length

A list of entries that is written into a blank buffer is read back from it. The writer hands the
offset after an entry to the next one and the reader follows the offsets that the entries give, so
both are followed along the list with the zeros behind the last record as what is left over. Main
statement: `walk_writeAll`.
-/
namespace PocketKernel.Archive

def room (entries : List Entry) : Nat := (entries.map fun e => entryLength e.data.length).sum

/-- The entries, the first of them at `offset`, each with the offset of the next one. -/
def placed (offset : Nat) : List Entry → List (Entry × Nat)
  | [] => []
  | e :: rest =>
    (e, offset + entryLength e.data.length) :: placed (offset + entryLength e.data.length) rest

theorem length_records {entries : List Entry} (sound : ∀ e ∈ entries, e.Sound) :
    (records entries).length = room entries := by
  rw [records, List.length_flatMap, room]
  refine congrArg List.sum (List.map_congr_left fun e he => ?_)
  exact length_record (sound e he).name_lt (sound e he).wide

theorem walk_of_some {image : Bytes} {offset next : Nat} {e : Entry}
    (h : readEntry image offset = .ok (some (e, next))) :
    walk image offset = ((e, next) :: (walk image next).1, (walk image next).2) := by
  rw [walk]
  split <;> simp_all

theorem walk_of_none {image : Bytes} {offset : Nat} (h : readEntry image offset = .ok none) :
    walk image offset = ([], .ok offset) := by
  rw [walk]
  split <;> simp_all

theorem walk_of_error {image : Bytes} {offset : Nat} {cause : StoreError}
    (h : readEntry image offset = .error cause) : walk image offset = ([], .error cause) := by
  rw [walk]
  split <;> simp_all

/-- A reader finds the entries of an archive and stops where the zeros behind them begin. -/
theorem walk_records {entries : List Entry} (sound : ∀ e ∈ entries, e.Sound) (pre : Bytes)
    (n : Nat) :
    walk (pre ++ records entries ++ Bytes.zeros n) pre.length =
      (placed pre.length entries, .ok (pre.length + room entries)) := by
  induction entries generalizing pre with
  | nil =>
    have stop := readEntry_zeros pre n
    simpa [records, placed, room] using walk_of_none stop
  | cons e rest ih =>
    have first := readEntry_record pre (records rest ++ Bytes.zeros n) (sound e List.mem_cons_self)
    have others := ih (fun e he => sound e (List.mem_cons_of_mem _ he)) (pre ++ record e)
    have length := length_record (sound e List.mem_cons_self).name_lt
      (sound e List.mem_cons_self).wide
    rw [List.length_append, length] at others
    rw [length] at first
    rw [records_cons]
    simp only [List.append_assoc] at first others ⊢
    rw [walk_of_some first, others, placed]
    simp only [room, List.map_cons, List.sum_cons, Nat.add_assoc]

/-- A buffer that is blank from `start` on. -/
theorem eq_take_append_zeros {buffer : Bytes} {start : Nat}
    (blank : ∀ b ∈ buffer.drop start, b = 0) :
    buffer = buffer.take start ++ Bytes.zeros (buffer.length - start) := by
  have tail : buffer.drop start = Bytes.zeros (buffer.length - start) :=
    List.eq_replicate_iff.2 ⟨List.length_drop, blank⟩
  rw [← tail, List.take_append_drop]

/-- Strings that differ in their middle parts only. -/
theorem getElem?_outside (pre post : Bytes) {xs ys : Bytes} {i : Nat}
    (same : xs.length = ys.length) (outside : i < pre.length ∨ pre.length + ys.length ≤ i) :
    (pre ++ xs ++ post)[i]? = (pre ++ ys ++ post)[i]? := by
  rcases outside with before | behind
  · simp only [List.append_assoc, List.getElem?_append_left before]
  · rw [List.getElem?_append_right (by simp; omega), List.getElem?_append_right (by simp; omega)]
    simp [same]

/-- Entries that an archive can hold are written one after the other into a buffer that is blank
from `start` on and has the room. The bytes before the first and behind the last are as they were,
and a reader that starts where the writer started finds exactly the entries and then the end of the
archive, where the writer stopped. An entry that is refused leaves a buffer as it was. -/
theorem walk_writeAll {entries : List Entry} (sound : ∀ e ∈ entries, e.Sound) {buffer : Bytes}
    {start : Nat} (blank : ∀ b ∈ buffer.drop start, b = 0)
    (fits : start + room entries ≤ buffer.length) :
    (∃ out, writeAll entries buffer start = (out, .ok (start + room entries)) ∧
      storeAll entries start buffer = some (.ok (start + room entries), out) ∧
      out.length = buffer.length ∧
      (∀ i, i < start ∨ start + room entries ≤ i → out[i]? = buffer[i]?) ∧
      walk out start = (placed start entries, .ok (start + room entries)) ∧
      readEntry out (start + room entries) = .ok none) ∧
    ∀ (image out name data : Bytes) (offset : Nat) (cause : StoreError),
      storeEntry offset name data image = some (.error cause, out) →
      writeEntry image offset name data = .error cause ∧ out = image := by
  refine ⟨?_, fun _ _ _ _ _ _ => storeEntry_eq_error⟩
  have length := length_records sound
  obtain ⟨pre, rest, rfl, rfl⟩ : ∃ pre rest, start = pre.length ∧
      buffer = pre ++ Bytes.zeros (room entries) ++ Bytes.zeros rest := by
    refine ⟨buffer.take start, buffer.length - start - room entries, ?_, ?_⟩
    · rw [List.length_take]
      omega
    · conv_lhs => rw [eq_take_append_zeros blank]
      rw [List.append_assoc, Bytes.zeros_append]
      congr 2
      omega
  have written := writeAll_zeros entries pre [] (room entries + rest)
    (fun e he => (sound e he).name_lt) (fun e he => (sound e he).wide) (by omega)
  simp only [← Bytes.zeros_append, ← List.append_assoc, List.append_nil, length,
    Nat.add_sub_cancel_left] at written
  refine ⟨_, written, storeAll_eq (fun e he => (sound e he).wide) written, ?_, ?_,
    walk_records sound pre rest, ?_⟩
  · simp [length]
  · intro i outside
    exact getElem?_outside pre _ (by simp [length]) (by simpa using outside)
  · have stop := readEntry_zeros (pre ++ records entries) rest
    rwa [List.length_append, length] at stop

/-- An entry without data and one with two bytes, behind two bytes that stay. -/
theorem walk_writeAll_two : ∃ out,
    writeAll [⟨[0x61], []⟩, ⟨[0x62], [1, 2]⟩] ([7, 8] ++ Bytes.zeros 1540) 2 = (out, .ok 1538) ∧
      out[0]? = some 7 ∧
      walk out 2 = ([(⟨[0x61], []⟩, 514), (⟨[0x62], [1, 2]⟩, 1538)], .ok 1538) := by
  have small : 2 < UInt32.size := by decide
  have taken : room [⟨[0x61], []⟩, ⟨[0x62], [1, 2]⟩] = 1536 := by decide +kernel
  have sound : ∀ e ∈ [⟨[0x61], []⟩, (⟨[0x62], [1, 2]⟩ : Entry)], e.Sound := by
    simp only [List.mem_cons, List.not_mem_nil, or_false]
    rintro e (rfl | rfl)
    · exact ⟨by decide, by decide, by decide, by simp⟩
    · exact ⟨by decide, by decide, by decide, small⟩
  have blank : ∀ b ∈ ([7, 8] ++ Bytes.zeros 1540).drop 2, b = 0 := by
    intro b hb
    rw [List.drop_append_of_le_length (by decide)] at hb
    exact List.eq_of_mem_replicate hb
  have fits : 2 + room [⟨[0x61], []⟩, ⟨[0x62], [1, 2]⟩] ≤ ([7, 8] ++ Bytes.zeros 1540).length := by
    rw [taken, List.length_append, Bytes.length_zeros]
    decide
  obtain ⟨⟨out, written, -, -, outside, read, -⟩, -⟩ := walk_writeAll sound blank fits
  rw [taken] at written outside read
  exact ⟨out, written, (outside 0 (by omega)).trans rfl, read.trans (by decide +kernel)⟩

end PocketKernel.Archive
