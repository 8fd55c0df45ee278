import Mathlib
import PocketKernel.Proofs.Archive.Size

/-!
# Trails through an archive

A reader goes from entry to entry, each time to the offset that the last one gave. `Trail` is what
it has passed, whatever bytes the image holds. The step to the next entry is made of whole blocks
and is at least a header, and an entry that is read lies inside the image, so that a trail is
`Orderly` and cannot go on for ever (`exists_trail`).
-/
namespace PocketKernel.Archive

/-- An entry, the offset of its header and the offset that it gives for the next one. -/
structure Place where
  offset : Nat
  entry : Entry
  next : Nat

structure Span where
  start : Nat
  stop : Nat

namespace Span

def Before (s t : Span) : Prop := s.stop ≤ t.start

def of (s : Span) (image : Bytes) : Bytes := (image.drop s.start).take (s.stop - s.start)

end Span

namespace Place

def header (p : Place) : Span := ⟨p.offset, p.offset + headerSize⟩

def data (p : Place) : Span := ⟨p.header.stop, p.header.stop + p.entry.data.length⟩

def spans (p : Place) : List Span := [p.header, p.data]

end Place

/-- Reading on from `start` passes the places and comes to `stop`. -/
inductive Trail (image : Bytes) : (start : Nat) → List Place → (stop : Nat) → Prop where
  | here (start : Nat) : Trail image start [] start
  | entry {start next stop : Nat} {e : Entry} {rest : List Place}
      (read : readEntry image start = .ok (some (e, next)))
      (further : Trail image next rest stop) : Trail image start (⟨start, e, next⟩ :: rest) stop

/-- A reader that comes to the offset reads no entry there: the archive ends or is refused. -/
def EndsAt (image : Bytes) (offset : Nat) : Prop :=
  readEntry image offset = .ok none ∨ ∃ cause, readEntry image offset = .error cause

structure Orderly (image : Bytes) (start : Nat) (places : List Place) : Prop where
  /-- There are no more of them than the image has room for headers. -/
  length_le : places.length ≤ (image.length - start) / headerSize
  /-- The next offset is some blocks further on. -/
  advances : ∀ p ∈ places, ∃ blocks, 0 < blocks ∧ p.next = p.offset + headerSize * blocks
  /-- A good header and the data of the entry stand in the image. -/
  stands : ∀ p ∈ places, HeaderAt image p.offset (p.header.of image) ∧
    p.data.of image = p.entry.data
  /-- No header and no data lie before the start or run past the end. -/
  inside : ∀ s ∈ places.flatMap Place.spans,
    start ≤ s.start ∧ s.start ≤ s.stop ∧ s.stop ≤ image.length
  /-- Each header and each data lie behind those before them. -/
  ordered : (places.flatMap Place.spans).Pairwise Span.Before

variable {image : Bytes} {start stop offset next : Nat} {e : Entry} {places : List Place}

/-- An entry takes whole blocks, one of them for the header and enough for the data. -/
theorem exists_blocks {size : Nat} (h : size + 1023 < UInt64.size) :
    ∃ blocks, 0 < blocks ∧ entryLength size = headerSize * blocks ∧
      headerSize + size ≤ entryLength size := by
  refine ⟨(size + 1023) / 512, by omega, ?_, le_entryLength h⟩
  rw [entryLength_eq size h, headerSize, Nat.mul_comm]

theorem slice?_eq_of {s : Span} {bytes : Bytes} {n : Nat} (length : s.stop = s.start + n)
    (found : image.slice? s.start n = some bytes) : s.of image = bytes := by
  unfold Bytes.slice? at found
  split at found
  · cases found
    rw [Span.of, length, Nat.add_sub_cancel_left]
  · cases found

/-- The header of an entry and its data stand where they were read. -/
theorem stands_of_readEntry (read : readEntry image offset = .ok (some (e, next))) :
    HeaderAt image offset ((Place.mk offset e next).header.of image) ∧
      (Place.mk offset e next).data.of image = e.data := by
  obtain ⟨header, found, live, marked, summed, data, -⟩ := readEntry_eq_some read
  have size := Bytes.length_of_slice? data
  rw [← size] at data
  have whole : (Place.mk offset e next).header.of image = header := slice?_eq_of rfl found
  exact ⟨whole ▸ ⟨found, live, marked, summed⟩, slice?_eq_of rfl data⟩

/-- What is passed goes forward and stays inside the image. -/
theorem Trail.orderly (h : Trail image start places stop) : Orderly image start places := by
  induction h with
  | here start =>
    exact ⟨Nat.zero_le _, by simp, by simp, by simp, by simp⟩
  | @entry start next stop e rest read further ih =>
    obtain ⟨within, small, behind⟩ := bounds_of_readEntry read
    have wide : UInt32.size + 1023 < UInt64.size := by decide
    have width : e.data.length + 1023 < UInt64.size := by omega
    obtain ⟨blocks, some_blocks, step, room⟩ := exists_blocks width
    have rest_inside := ih.inside
    refine ⟨?_, ?_, ?_, ?_, ?_⟩
    · have rest_le := ih.length_le
      rw [List.length_cons]
      simp only [headerSize] at within room rest_le ⊢
      omega
    · exact List.forall_mem_cons.2
        ⟨⟨blocks, some_blocks, behind.trans (congrArg _ step)⟩, ih.advances⟩
    · exact List.forall_mem_cons.2 ⟨stands_of_readEntry read, ih.stands⟩
    · intro s hs
      rw [List.flatMap_cons, List.mem_append] at hs
      rcases hs with here | later
      · simp only [Place.spans, Place.header, Place.data, List.mem_cons, List.not_mem_nil,
          or_false] at here
        rcases here with rfl | rfl <;> dsimp only <;> omega
      · have := rest_inside s later
        omega
    · rw [List.flatMap_cons, List.pairwise_append]
      refine ⟨by simp [Place.spans, Span.Before, Place.data], ih.ordered, ?_⟩
      intro s here t later
      have := rest_inside t later
      simp only [Place.spans, Place.header, Place.data, List.mem_cons, List.not_mem_nil,
        or_false] at here
      rcases here with rfl | rfl <;> simp only [Span.Before] <;> omega

/-- Reading on comes to an offset where no entry is read. -/
theorem exists_trail (image : Bytes) (start : Nat) :
    ∃ places stop, Trail image start places stop ∧ EndsAt image stop := by
  fun_induction walk image start with
  | case1 offset cause refused => exact ⟨[], offset, .here offset, .inr ⟨cause, refused⟩⟩
  | case2 offset ended => exact ⟨[], offset, .here offset, .inl ended⟩
  | case3 offset e next read _ _ _ ih =>
    obtain ⟨places, stop, further, ends⟩ := ih
    exact ⟨_, stop, .entry read further, ends⟩

end PocketKernel.Archive
