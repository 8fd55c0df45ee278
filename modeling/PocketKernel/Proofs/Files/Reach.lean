import Mathlib
import PocketKernel.Files.Store
import PocketKernel.Proofs.Archive.Format

/-!
# How far an archive is read

For an entry its header is read, and its data when the header is good. What lies behind the last
thing that is read cannot matter. Main statement: images of one length that agree up to the `reach`
of one of them are loaded with the same result (`readArchive_congr`).
-/
namespace PocketKernel

namespace Bytes

structure Agree (stop : Nat) (xs ys : Bytes) : Prop where
  length : ys.length = xs.length
  take : ys.take stop = xs.take stop

theorem Agree.mono {stop before : Nat} {xs ys : Bytes} (h : Agree stop xs ys)
    (le : before ≤ stop) : Agree before xs ys where
  length := h.length
  take := by simpa [List.take_take, Nat.min_eq_left le] using congrArg (List.take before) h.take

/-- A range before `stop` is the same. -/
theorem Agree.slice?_eq {stop start n : Nat} {xs ys : Bytes} (h : Agree stop xs ys)
    (le : start + n ≤ stop) : ys.slice? start n = xs.slice? start n := by
  have cut (zs : Bytes) : (zs.drop start).take n = ((zs.take stop).drop start).take n := by
    rw [List.drop_take, List.take_take, Nat.min_eq_left (by omega)]
  simp only [slice?, h.length, cut ys, cut xs, h.take]

/-- There is no range that goes past the end of one of them. -/
theorem Agree.slice?_eq_none {stop start n : Nat} {xs ys : Bytes} (h : Agree stop xs ys)
    (short : xs.slice? start n = none) : ys.slice? start n = none := by
  unfold slice? at short ⊢
  split at short
  · cases short
  · rw [h.length, if_neg ‹_›]

end Bytes

namespace Archive

def extent (image : Bytes) (offset : Nat) : Nat :=
  match readEntry image offset with
  | .ok (some (e, _)) => offset + headerSize + e.data.length
  | _ => offset + headerSize

/-- The end of what is read from `offset` on for a table that has room for that many files. -/
def reach (image : Bytes) : (room offset : Nat) → Nat
  | room, offset =>
    match readEntry image offset with
    | .ok (some (_, next)) =>
      match room with
      | 0 => extent image offset
      | room + 1 => reach image room next
    | _ => extent image offset

section
variable {image other : Bytes} {room offset : Nat}

theorem header_le_extent : offset + headerSize ≤ extent image offset := by
  unfold extent
  split <;> omega

theorem extent_le_reach : extent image offset ≤ reach image room offset := by
  induction room generalizing offset with
  | zero =>
    unfold reach
    split <;> rfl
  | succ room ih =>
    unfold reach
    split
    next e next found =>
      obtain ⟨-, small, behind⟩ := bounds_of_readEntry found
      have wide : UInt32.size + 1023 < UInt64.size := by decide
      have inside : headerSize + e.data.length ≤ entryLength e.data.length :=
        le_entryLength (by omega)
      have header : next + headerSize ≤ extent image next := header_le_extent
      have whole : extent image offset = offset + headerSize + e.data.length := by
        simp only [extent, found]
      calc extent image offset ≤ next := by omega
        _ ≤ extent image next := by omega
        _ ≤ reach image room next := ih
    next => rfl

/-- An entry depends on the bytes before its extent. -/
theorem readEntry_congr (h : Bytes.Agree (extent image offset) image other) :
    readEntry other offset = readEntry image offset := by
  unfold readEntry
  rw [h.slice?_eq header_le_extent]
  cases found : image.slice? offset headerSize with
  | none => rfl
  | some header =>
  dsimp only
  split_ifs with last magic sum
  · rfl
  · rfl
  · rfl
  cases stored : image.slice? (offset + headerSize)
      (Octal.parse ((header.drop 124).take 12)).toNat with
  | none => rw [h.slice?_eq_none stored]
  | some data =>
    have size := Bytes.length_of_slice? stored
    have whole : extent image offset = offset + headerSize + data.length := by
      simp only [extent, readEntry, found, if_neg last, if_neg magic, if_neg sum, stored]
    rw [h.slice?_eq (by rw [whole, size]), stored]

end

end Archive

/-- What is loaded depends on the bytes before the reach. -/
theorem FileStore.readArchive_congr {image other : Bytes} {room offset : Nat}
    (h : Bytes.Agree (Archive.reach image room offset) image other) :
    readArchive other room offset = readArchive image room offset := by
  have first := Archive.readEntry_congr (h.mono Archive.extent_le_reach)
  induction room generalizing offset with
  | zero =>
    unfold readArchive
    rw [first]
  | succ room ih =>
    unfold readArchive
    rw [first]
    cases found : Archive.readEntry image offset with
    | error cause => rfl
    | ok entry =>
    cases entry with
    | none => rfl
    | some entry =>
    have rest : Bytes.Agree (Archive.reach image room entry.2) image other := by
      unfold Archive.reach at h
      simpa only [found] using h
    simp only [ih rest (Archive.readEntry_congr (rest.mono Archive.extent_le_reach))]

end PocketKernel
