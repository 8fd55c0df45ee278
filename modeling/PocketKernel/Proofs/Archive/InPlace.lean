import Mathlib
import PocketKernel.Proofs.Archive.Format

/-!
# Writing an entry in place

`storeEntry` writes an entry into a buffer field by field: it checks that the name and the entry
fit, stores the fields of the header, sums the header that then stands in the buffer, and stores the
checksum and the data. Main statements: when it refuses the buffer is as it was
(`storeEntry_eq_error`), and a list of entries is stored as `writeAll` writes it, with no store past
the end of the buffer (`storeAll_eq`).
-/
namespace PocketKernel

namespace Bytes

/-- A splice right behind another one continues it. -/
theorem splice_splice_adjacent (xs ys zs : Bytes) (start : Nat)
    (h : start + ys.length + zs.length ≤ xs.length) :
    (xs.splice start ys).splice (start + ys.length) zs = xs.splice start (ys ++ zs) := by
  have first : (xs.splice start ys).length = xs.length := length_splice xs ys start (by omega)
  have whole : start + (ys ++ zs).length ≤ xs.length := by rw [List.length_append]; omega
  apply List.ext_getElem?
  intro i
  rw [getElem?_splice _ zs _ i (by omega), getElem?_splice xs ys start i (by omega),
    getElem?_splice xs _ start i whole, List.length_append]
  by_cases second : start + ys.length ≤ i ∧ i < start + ys.length + zs.length
  · rw [if_pos second, if_pos (by omega), List.getElem?_append_right (by omega), Nat.sub_add_eq]
  · rw [if_neg second]
    split
    · rw [if_pos (by omega), List.getElem?_append_left (by omega)]
    · rw [if_neg (by omega)]

end Bytes

namespace Archive

/-- A computation on a buffer; none when it stores past the end. -/
abbrev InPlace := StateT Bytes Option

namespace InPlace
variable {α β : Type}

theorem bind_of_some {x : InPlace α} {f : α → InPlace β} {image out : Bytes} {a : α}
    (h : x image = some (a, out)) : (x >>= f) image = f a out := by
  change StateT.bind x f image = _
  simp only [StateT.bind, h]
  rfl

theorem bind_eq_some {x : InPlace α} {f : α → InPlace β} {image out : Bytes} {b : β} :
    (x >>= f) image = some (b, out) ↔
      ∃ a mid, x image = some (a, mid) ∧ f a mid = some (b, out) := by
  cases h : x image with
  | none =>
    change (x image).bind (fun p => f p.1 p.2) = _ ↔ _
    simp [h]
  | some p =>
    rw [bind_of_some h]
    simp [Prod.eq_iff_fst_eq_snd_eq, and_assoc]

theorem get_bind (f : Bytes → InPlace β) (image : Bytes) :
    ((get : InPlace Bytes) >>= f) image = f image image := rfl

end InPlace

def store (start : Nat) (ys : Bytes) : InPlace Unit := fun image =>
  if start + ys.length ≤ image.length then some ((), image.splice start ys) else none

/-- Stores the fields of a header that begins at `offset`, the checksum last. -/
def storeHeader (offset : Nat) (name : Bytes) (size : Nat) : InPlace Unit := do
  forM (fields name size) fun p => store (offset + p.1) p.2
  let image ← get
  let sum := (checksum ((image.drop offset).take headerSize)).toNat
  store (offset + 148) (Octal.field 7 sum)
  store (offset + 155) [32]

def storeEntry (offset : Nat) (name data : Bytes) : InPlace (Except StoreError Nat) := do
  let image ← get
  if nameField ≤ name.length then
    pure (.error (.nameTooLong name.length))
  else if image.length < offset + entryLength data.length then
    pure (.error (.truncated offset))
  else
    storeHeader offset name data.length
    store (offset + headerSize) data
    pure (.ok (offset + entryLength data.length))

def storeAll : List Entry → Nat → InPlace (Except StoreError Nat)
  | [], offset => pure (.ok offset)
  | e :: rest, offset => do
    match ← storeEntry offset e.name e.data with
    | .error cause => pure (.error cause)
    | .ok next => storeAll rest next

/-- The checks come before the first store, so a refusal leaves the buffer as it is. -/
theorem storeEntry_eq_error {image out name data : Bytes} {offset : Nat} {cause : StoreError}
    (h : storeEntry offset name data image = some (.error cause, out)) :
    writeEntry image offset name data = .error cause ∧ out = image := by
  rw [storeEntry, InPlace.get_bind] at h
  rw [writeEntry]
  by_cases long : nameField ≤ name.length
  · rw [if_pos long] at h ⊢
    cases h
    exact ⟨rfl, rfl⟩
  by_cases full : image.length < offset + entryLength data.length
  · rw [if_neg long, if_pos full] at h ⊢
    cases h
    exact ⟨rfl, rfl⟩
  · rw [if_neg long, if_neg full] at h
    obtain ⟨_, _, -, body⟩ := InPlace.bind_eq_some.1 h
    obtain ⟨_, _, -, accepted⟩ := InPlace.bind_eq_some.1 body
    cases accepted

theorem storeEntry_of_error {image name data : Bytes} {offset : Nat} {cause : StoreError}
    (h : writeEntry image offset name data = .error cause) :
    storeEntry offset name data image = some (.error cause, image) := by
  rw [storeEntry, InPlace.get_bind]
  unfold writeEntry at h
  split at h
  next long =>
    cases h
    rw [if_pos long]
    rfl
  next short =>
  split at h
  next full =>
    cases h
    rw [if_neg short, if_pos full]
    rfl
  next => cases h

theorem stamp_eq (middle name : Bytes) (size : Nat) :
    stamp middle name size = (middle.patch (fields name size)).splice 148
      (Octal.field 7 (checksum (middle.patch (fields name size))).toNat ++ [32]) := rfl

/-! ## Stores in the middle of a buffer -/

/-- A range of a buffer as its middle part. -/
theorem exists_middle (image : Bytes) {offset n : Nat} (h : offset + n ≤ image.length) :
    ∃ pre middle post : Bytes, image = pre ++ middle ++ post ∧ offset = pre.length ∧
      middle.length = n := by
  refine ⟨image.take offset, (image.drop offset).take n, image.drop (offset + n), ?_, ?_, ?_⟩
  · rw [List.append_assoc, ← List.drop_drop, List.take_append_drop, List.take_append_drop]
  · rw [List.length_take]
    omega
  · rw [List.length_take, List.length_drop]
    omega

section Middle
variable (pre : Bytes) {middle : Bytes} (post : Bytes)

theorem range_middle {n : Nat} (length : middle.length = n) :
    ((pre ++ middle ++ post).drop pre.length).take n = middle := by
  rw [List.append_assoc, List.drop_left, ← length, List.take_left]

/-- A store into the middle part of a buffer stays inside it. -/
theorem store_append {ys : Bytes} {start : Nat} (h : start + ys.length ≤ middle.length) :
    store (pre.length + start) ys (pre ++ middle ++ post) =
      some ((), pre ++ middle.splice start ys ++ post) := by
  rw [store, if_pos (by simp only [List.length_append]; omega),
    Bytes.splice_append pre middle post ys start h]

theorem store_fields (patches : List (Nat × Bytes))
    (h : ∀ p ∈ patches, p.1 + p.2.length ≤ middle.length) :
    forM patches (fun p => store (pre.length + p.1) p.2) (pre ++ middle ++ post) =
      some ((), pre ++ middle.patch patches ++ post) := by
  induction patches generalizing middle with
  | nil => rfl
  | cons p rest ih =>
    have same := Bytes.length_splice middle p.2 p.1 (h p List.mem_cons_self)
    have first := store_append pre post (h p List.mem_cons_self)
    rw [List.forM_cons, InPlace.bind_of_some first]
    exact ih fun q hq => same ▸ h q (List.mem_cons_of_mem _ hq)

/-- The header that is stored field by field is the stamped one. -/
theorem storeHeader_append {name : Bytes} (size : Nat) (length : middle.length = headerSize)
    (hn : name.length < nameField) :
    storeHeader pre.length name size (pre ++ middle ++ post) =
      some ((), pre ++ stamp middle name size ++ post) := by
  have fit : ∀ p ∈ fields name size, p.1 + p.2.length ≤ middle.length := by
    simpa [length] using fields_fit hn size
  have filled_size : (middle.patch (fields name size)).length = headerSize :=
    (Bytes.length_patch middle _ fit).trans length
  rw [storeHeader, InPlace.bind_of_some (store_fields pre post _ fit), InPlace.get_bind,
    range_middle pre post filled_size, stamp_eq]
  generalize middle.patch (fields name size) = filled at filled_size
  generalize (checksum filled).toNat = sum
  have digits : 148 + (Octal.field 7 sum).length ≤ filled.length := by
    simp [filled_size, headerSize]
  have stored := Bytes.length_splice filled (Octal.field 7 sum) 148 digits
  have joined := Bytes.splice_splice_adjacent filled (Octal.field 7 sum) [32] 148
    (by simp [filled_size, headerSize])
  rw [length_field] at joined
  rw [InPlace.bind_of_some (store_append pre post digits),
    store_append pre post (by simp [stored, filled_size, headerSize]), joined]

end Middle

/-- Storing an entry does what writing it does, and never leaves the buffer. -/
theorem storeEntry_of_ok {image out name data : Bytes} {offset stop : Nat}
    (wide : data.length + 1023 < UInt64.size)
    (h : writeEntry image offset name data = .ok (out, stop)) :
    storeEntry offset name data image = some (.ok stop, out) := by
  rw [storeEntry, InPlace.get_bind]
  unfold writeEntry at h
  split at h
  · cases h
  next long =>
  split at h
  · cases h
  next room =>
  cases h
  have inside := le_entryLength wide
  obtain ⟨pre, middle, post, rfl, rfl, length⟩ := exists_middle image
    (show offset + headerSize ≤ image.length by omega)
  have short : name.length < nameField := by omega
  have stamped_length := length_stamp middle name data.length length short
  have stamped : (pre ++ middle ++ post).splice pre.length (stamp middle name data.length) =
      pre ++ stamp middle name data.length ++ post := by
    simp [Bytes.splice, stamped_length, length]
  have fits : pre.length + headerSize + data.length ≤
      (pre ++ stamp middle name data.length ++ post).length := by
    simp only [List.length_append, length, stamped_length] at room ⊢
    omega
  have body : store (pre.length + headerSize) data (pre ++ stamp middle name data.length ++ post) =
      some ((), _) := if_pos fits
  rw [if_neg long, if_neg room, range_middle pre post length, stamped,
    InPlace.bind_of_some (storeHeader_append pre post data.length length short),
    InPlace.bind_of_some body]
  rfl

/-- Storing a list of entries does what writing it does. -/
theorem storeAll_eq {entries : List Entry} {image out : Bytes} {offset : Nat}
    {answer : Except StoreError Nat} (wide : ∀ e ∈ entries, e.data.length + 1023 < UInt64.size)
    (h : writeAll entries image offset = (out, answer)) :
    storeAll entries offset image = some (answer, out) := by
  induction entries generalizing image offset with
  | nil =>
    cases h
    rfl
  | cons e rest ih =>
    unfold writeAll at h
    rw [storeAll]
    split at h
    next refused =>
      cases h
      rw [InPlace.bind_of_some (storeEntry_of_error refused)]
      rfl
    next written =>
      rw [InPlace.bind_of_some (storeEntry_of_ok (wide e List.mem_cons_self) written)]
      exact ih (fun e he => wide e (List.mem_cons_of_mem _ he)) h

end Archive

end PocketKernel
