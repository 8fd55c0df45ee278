import PocketKernel.Archive.Entry

/-!
# Whole archives

An archive is read by following the offset that each entry gives for the next one, and written by
placing each entry where the one before it ends. An entry that is read lies inside the image and the
next one begins after it, so reading ends on every image.
-/
namespace PocketKernel.Archive

/-- An entry that is read fits in the image, and the next one begins where its room ends. -/
theorem bounds_of_readEntry {image : Bytes} {offset next : Nat} {e : Entry}
    (h : readEntry image offset = .ok (some (e, next))) :
    offset + headerSize + e.data.length ≤ image.length ∧ e.data.length < UInt32.size ∧
      next = offset + entryLength e.data.length := by
  unfold readEntry at h
  split at h
  · cases h
  · next header _ =>
    split at h
    · cases h
    · split at h
      · cases h
      · split at h
        · cases h
        · dsimp only at h
          split at h
          · cases h
          · next data found =>
            have size := Bytes.length_of_slice? found
            have small := (Octal.parse ((header.drop 124).take 12)).toNat_lt_size
            cases h
            dsimp only
            refine ⟨?_, by omega, by rw [size]⟩
            unfold Bytes.slice? at found
            split at found
            · omega
            · cases found

/-- The next entry begins at least a header later. -/
theorem offset_lt_next {image : Bytes} {offset next : Nat} {e : Entry}
    (h : readEntry image offset = .ok (some (e, next))) : offset + headerSize ≤ next := by
  obtain ⟨_, small, rfl⟩ := bounds_of_readEntry h
  have wide : UInt32.size + 1023 < UInt64.size := by decide
  rw [entryLength_eq _ (by omega), headerSize]
  omega

/-- The entries from `offset` on, each with the offset of the next one, and how the reading ended:
with the offset of the end, or with the failure. -/
def walk (image : Bytes) (offset : Nat) : List (Entry × Nat) × Except StoreError Nat :=
  match _ : readEntry image offset with
  | .error e => ([], .error e)
  | .ok none => ([], .ok offset)
  | .ok (some (entry, next)) =>
    let (rest, stop) := walk image next
    ((entry, next) :: rest, stop)
termination_by image.length - offset
decreasing_by
  next found =>
    have inside := (bounds_of_readEntry found).1
    have later := offset_lt_next found
    simp only [headerSize] at inside later
    omega

/-- Writes the entries one after the other from `offset` on, and gives the offset after the last.
Stops at the first that does not fit. -/
def writeAll : List Entry → Bytes → Nat → Bytes × Except StoreError Nat
  | [], out, offset => (out, .ok offset)
  | e :: rest, out, offset =>
    match writeEntry out offset e.name e.data with
    | .error cause => (out, .error cause)
    | .ok (out, offset) => writeAll rest out offset

theorem length_writeAll (entries : List Entry) (out : Bytes) (offset : Nat)
    (h : ∀ e ∈ entries, e.data.length + 1023 < UInt64.size) :
    (writeAll entries out offset).1.length = out.length := by
  induction entries generalizing out offset with
  | nil => rfl
  | cons e rest ih =>
    unfold writeAll
    split
    · rfl
    · next written =>
      rw [ih _ _ fun e he => h e (List.mem_cons_of_mem _ he)]
      exact length_of_writeEntry written (h e List.mem_cons_self)

end PocketKernel.Archive
