import PocketKernel.Align
import PocketKernel.Archive.Octal
import PocketKernel.Fault

/-!
# Archive entries

An archive is a sequence of entries: a header of 512 bytes, then the data, padded to a multiple of
512 bytes. A header whose first byte is zero ends the archive, and so does the end of the image.
The header carries the name, the size in octal, the mark `ustar` and a checksum of itself in which
the checksum field counts as spaces.
-/
namespace PocketKernel.Archive

def headerSize : Nat := 512
def nameField : Nat := 100
def magic : Bytes := Bytes.ofAscii "ustar"
def mode : Bytes := Bytes.ofAscii "000644"
def version : Bytes := Bytes.ofAscii "00"
def regularFile : Bytes := Bytes.ofAscii "0"

/-- The room that an entry with `size` bytes of data takes. -/
def entryLength (size : Nat) : Nat := alignUp (headerSize + size) headerSize

theorem entryLength_eq (size : Nat) (h : size + 1023 < UInt64.size) :
    entryLength size = (size + 1023) / 512 * 512 := by
  have rounded := alignUp_one_shiftLeft (512 + size) 9 (by decide) (by simp at h ⊢; omega)
  rw [Nat.shiftLeft_eq, Nat.shiftRight_eq_div_pow] at rounded
  rw [entryLength, headerSize]
  exact rounded.trans (by simp; omega)

/-- The sum of the header's bytes with the checksum field read as spaces. -/
def checksum (header : Bytes) : UInt32 :=
  (header.splice 148 (List.replicate 8 32)).foldl (fun acc b => acc + b.toUInt32) 0

structure Entry where
  name : Bytes
  data : Bytes
  deriving DecidableEq, Repr

/-- The entry at `offset` and the offset of the next one; none at the end of the archive. -/
def readEntry (image : Bytes) (offset : Nat) : Except StoreError (Option (Entry × Nat)) :=
  match image.slice? offset headerSize with
  | none => .ok none
  | some header =>
    if header.headD 0 == 0 then
      .ok none
    else if (header.drop 257).take 5 != magic then
      .error (.badMagic offset)
    else if Octal.parse ((header.drop 148).take 8) != checksum header then
      .error (.badChecksum offset)
    else
      let size := (Octal.parse ((header.drop 124).take 12)).toNat
      match image.slice? (offset + headerSize) size with
      | none => .error (.truncated offset)
      | some data =>
        .ok (some (⟨(header.take nameField).takeWhile (· != 0), data⟩, offset + entryLength size))

/-- The header of an entry, written over the bytes that are there. -/
def stamp (header name : Bytes) (size : Nat) : Bytes :=
  let filled := header.splice 0 name |>.splice 100 mode |>.splice 257 magic |>.splice 263 version
    |>.splice 156 regularFile |>.splice 124 (Octal.field 12 (size % UInt32.size))
  filled.splice 148 (Octal.field 7 (checksum filled).toNat ++ [32])

theorem length_stamp (header name : Bytes) (size : Nat) (h : header.length = headerSize)
    (hn : name.length < nameField) : (stamp header name size).length = headerSize := by
  simp only [headerSize, nameField] at h hn ⊢
  unfold stamp
  have hn : 0 + name.length ≤ 512 := by omega
  refine Bytes.length_splice_eq ?_ (by simp [Octal.field])
  refine Bytes.length_splice_eq ?_ (by simp [Octal.field])
  refine Bytes.length_splice_eq ?_ (by decide)
  refine Bytes.length_splice_eq ?_ (by decide)
  refine Bytes.length_splice_eq ?_ (by decide)
  refine Bytes.length_splice_eq ?_ (by decide)
  exact Bytes.length_splice_eq h hn

/-- The image with an entry written at `offset`, and the offset after the entry. Bytes of the range
that the entry does not use are left as they are. -/
def writeEntry (image : Bytes) (offset : Nat) (name data : Bytes) :
    Except StoreError (Bytes × Nat) :=
  if nameField ≤ name.length then
    .error (.nameTooLong name.length)
  else if image.length < offset + entryLength data.length then
    .error (.truncated offset)
  else
    let header := stamp ((image.drop offset).take headerSize) name data.length
    .ok ((image.splice offset header).splice (offset + headerSize) data,
      offset + entryLength data.length)

theorem length_of_writeEntry {image out name data : Bytes} {offset stop : Nat}
    (h : writeEntry image offset name data = .ok (out, stop))
    (hd : data.length + 1023 < UInt64.size) :
    out.length = image.length := by
  unfold writeEntry at h
  have room : headerSize + data.length ≤ entryLength data.length := by
    rw [entryLength_eq _ hd, headerSize]; omega
  simp only [headerSize] at room
  split at h
  · cases h
  · split at h
    · cases h
    · next hn hs =>
      cases h
      have header := length_stamp ((image.drop offset).take headerSize) name data.length
        (by simp [headerSize]; omega) (by omega)
      simp only [headerSize] at header ⊢
      rw [Bytes.length_splice, Bytes.length_splice]
      · rw [header]; omega
      · rw [Bytes.length_splice] <;> omega

end PocketKernel.Archive
