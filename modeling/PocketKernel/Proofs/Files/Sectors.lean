import Mathlib
import PocketKernel.Proofs.Action
import PocketKernel.Proofs.Files.Image

/-!
# The file table on the plain device

A mount sees the bytes of the first sectors, `Disk.front`, and a flush replaces exactly these by the
image of the table. Main statements: `mount_disk` and `flush_disk`.
-/
namespace PocketKernel

namespace Disk

def bytesFrom (d : Disk) (start count : Nat) : Bytes :=
  ((d.sectors.toList.drop start).take count).flatMap Sector.toBytes

/-- The bytes that hold the file table. -/
def front (d : Disk) : Bytes := d.bytesFrom 0 FileStore.sectorCount

theorem bytesFrom_succ (d : Disk) {start : Nat} (count : Nat) (h : start < d.sectors.size) :
    d.bytesFrom start (count + 1) = d.sectors[start].toBytes ++ d.bytesFrom (start + 1) count := by
  have room : start < d.sectors.toList.length := by simpa using h
  rw [bytesFrom, List.drop_eq_getElem_cons room, List.take_succ_cons, List.flatMap_cons,
    Array.getElem_toList, bytesFrom]

def replace (d : Disk) (start : Nat) (sectors : List Sector) : Disk where
  sectors := (d.sectors.toList.take start ++ sectors ++
    d.sectors.toList.drop (start + sectors.length)).toArray
  reads := d.reads
  writes := d.writes + sectors.length

/-- Sectors are replaced one after the other. -/
theorem replace_cons (d : Disk) {start : Nat} (s : Sector) (rest : List Sector)
    (h : start < d.sectors.size) :
    d.replace start (s :: rest) =
      { d with
        sectors := d.sectors.setIfInBounds start s
        writes := d.writes + 1 : Disk }.replace (start + 1) rest := by
  have room : start < d.sectors.toList.length := by simpa using h
  have taken :
      (d.sectors.toList.set start s).take (start + 1) = d.sectors.toList.take start ++ [s] := by
    rw [List.take_set, List.take_succ_eq_append_getElem room, List.set_append_right _ _ (by simp)]
    simp [Nat.min_eq_left h.le]
  have dropped : (d.sectors.toList.set start s).drop (start + 1 + rest.length) =
      d.sectors.toList.drop (start + (rest.length + 1)) := by
    rw [List.drop_set_of_lt (by omega)]
    congr 1
    omega
  simp only [replace, Array.toList_setIfInBounds, taken, dropped, List.length_cons, mk.injEq]
  refine ⟨by simp, trivial, by omega⟩

theorem size_replace (d : Disk) (start : Nat) (sectors : List Sector)
    (h : start + sectors.length ≤ d.sectors.size) :
    (d.replace start sectors).sectors.size = d.sectors.size := by
  simp [replace]
  omega

/-- Replacing all sectors of the front replaces its bytes. -/
theorem front_replace (d : Disk) (sectors : List Sector)
    (h : sectors.length = FileStore.sectorCount) :
    (d.replace 0 sectors).front = sectors.flatMap Sector.toBytes := by
  simp [front, bytesFrom, replace, ← h]

/-- What lies behind the replaced sectors stays. -/
theorem getElem?_replace_of_le (d : Disk) {sectors : List Sector} {i : Nat}
    (h : sectors.length ≤ i) : (d.replace 0 sectors).sectors[i]? = d.sectors[i]? := by
  have back : sectors.length + (i - sectors.length) = i := by omega
  simp [replace, List.getElem?_append_right h, back]

/-- The second of two replacements of the same sectors wins. -/
theorem sectors_replace_replace (d : Disk) {old new : List Sector} (h : new.length = old.length) :
    ((d.replace 0 old).replace 0 new).sectors = (d.replace 0 new).sectors := by
  simp [replace, h]

end Disk

namespace FileStore

theorem readSector_disk (d : Disk) (sector : UInt32) (buffer : Sector)
    (h : sector.toNat < d.sectors.size) :
    BlockDevice.readSector sector buffer d =
      .ok d.sectors[sector.toNat] { d with reads := d.reads + 1 } := by
  simp only [BlockDevice.readSector]
  have current : (get : Action Disk Disk) d = .ok d d := rfl
  rw [Action.bind_of_ok current]
  simp only [Array.getElem?_eq_getElem h]
  rfl

theorem writeSector_disk (d : Disk) (sector : UInt32) (data : Sector)
    (h : sector.toNat < d.sectors.size) :
    BlockDevice.writeSector sector data d = .ok ()
      { d with sectors := d.sectors.setIfInBounds sector.toNat data, writes := d.writes + 1 } := by
  change (if sector.toNat < d.sectors.size then _ else _ : Action Disk Unit) d = _
  rw [if_pos h]
  rfl

/-- Reading sectors that exist gives their bytes, whatever the buffer held. -/
theorem readImage_disk (d : Disk) (count : Nat) (sector : UInt32) (buffer : Sector)
    (h : sector.toNat + count ≤ d.sectors.size) (narrow : sector.toNat + count < UInt32.size) :
    ∃ image : { image : Bytes // image.length = 512 * count },
      readImage count sector buffer d = .ok image { d with reads := d.reads + count } ∧
        image.1 = d.bytesFrom sector.toNat count := by
  induction count generalizing d sector buffer with
  | zero => exact ⟨⟨[], rfl⟩, rfl, by simp [Disk.bytesFrom]⟩
  | succ count ih =>
    have next : (sector + 1).toNat = sector.toNat + 1 := by
      rw [UInt32.toNat_add, show (1 : UInt32).toNat = 1 from rfl]
      exact Nat.mod_eq_of_lt (lt_of_le_of_lt (by omega) narrow)
    have inside : sector.toNat < d.sectors.size := by omega
    have first := readSector_disk d sector buffer inside
    obtain ⟨rest, read, bytes⟩ := ih { d with reads := d.reads + 1 } (sector + 1)
      d.sectors[sector.toNat] (by simp only [next]; omega) (by omega)
    refine ⟨⟨d.sectors[sector.toNat].toBytes ++ rest.1, by simp [rest.2]; omega⟩, ?_, ?_⟩
    · unfold readImage
      rw [Action.bind_of_ok first, Action.bind_of_ok read]
      simp only [Nat.add_assoc, Nat.add_comm 1 count]
      rfl
    · change d.sectors[sector.toNat].toBytes ++ rest.1 = _
      rw [Disk.bytesFrom_succ d count inside, bytes, next]
      rfl

/-- Pieces of whole sectors replace the sectors from the first one on. -/
theorem writeImage_disk (d : Disk) (pieces : List Bytes) (sector : UInt32)
    (h : sector.toNat + pieces.length ≤ d.sectors.size)
    (narrow : sector.toNat + pieces.length < UInt32.size) :
    writeImage sector pieces d = .ok () (d.replace sector.toNat (pieces.map Sector.ofBytes)) := by
  induction pieces generalizing d sector with
  | nil => simp [writeImage, Disk.replace]; rfl
  | cons piece rest ih =>
    rw [List.length_cons] at h narrow
    have next : (sector + 1).toNat = sector.toNat + 1 := by
      rw [UInt32.toNat_add, show (1 : UInt32).toNat = 1 from rfl]
      exact Nat.mod_eq_of_lt (lt_of_le_of_lt (by omega) narrow)
    have inside : sector.toNat < d.sectors.size := by omega
    have first := writeSector_disk d sector (Sector.ofBytes piece) inside
    have others := ih { d with
      sectors := d.sectors.setIfInBounds sector.toNat (Sector.ofBytes piece)
      writes := d.writes + 1 } (sector + 1) (by simp [next]; omega) (by omega)
    unfold writeImage
    rw [Action.bind_of_ok first, others, List.map_cons, Disk.replace_cons d _ _ inside, next]

/-- A mount loads the front of the device. -/
theorem mount_disk (s : FileStore) (d : Disk) (h : sectorCount ≤ d.sectors.size) :
    ∃ t : FileStore, s.mount d = .ok (t, (s.load d.front).2) { d with reads := d.reads + 6 } ∧
      t.files = (s.load d.front).1.files := by
  obtain ⟨image, read, bytes⟩ := readImage_disk d sectorCount 0 Sector.blank
    (by simpa using h) (by decide)
  have front : image.1 = d.front := bytes
  refine ⟨(FileStore.load { s with
    scratch := image.1, scratch_length := image.2.trans sectorCount_eq } image.1).1, ?_, ?_⟩
  · unfold mount
    rw [Action.bind_of_ok read, ← front]
    rfl
  · rw [← front]
    rfl

def imageSectors (s : FileStore) : List Sector := (Bytes.chunks 511 s.image).map Sector.ofBytes

theorem pieces_image (s : FileStore) : (Bytes.chunks 511 s.image).length = sectorCount ∧
    ∀ piece ∈ Bytes.chunks 511 s.image, piece.length = 512 :=
  Bytes.length_of_mem_chunks (s.length_image.trans (by decide))

@[simp] theorem length_imageSectors (s : FileStore) : s.imageSectors.length = sectorCount := by
  simp [imageSectors, s.pieces_image.1]

theorem flatMap_imageSectors (s : FileStore) : s.imageSectors.flatMap Sector.toBytes = s.image := by
  rw [imageSectors, List.flatMap_map, List.flatMap_def, List.map_congr_left fun piece hp =>
    Sector.toBytes_ofBytes piece (s.pieces_image.2 piece hp), List.map_id', Bytes.flatten_chunks]

/-- The table after a flush: the image is in the scratch buffer. -/
def flushed (s : FileStore) : FileStore :=
  { s with scratch := s.image, scratch_length := s.length_image }

@[simp] theorem files_flushed (s : FileStore) : s.flushed.files = s.files := rfl

/-- A flush writes the pieces of the image. -/
theorem flush_of_writeImage {D : Type} [BlockDevice D] (s : FileStore) {d d' : D}
    (done : writeImage 0 (Bytes.chunks 511 s.image) d = .ok () d') :
    s.flush d = .ok s.flushed d' := by
  unfold flush
  simp only [s.encode_eq s.scratch_length]
  rw [Action.bind_of_ok done]
  rfl

theorem writeImage_image (s : FileStore) (d : Disk) (h : sectorCount ≤ d.sectors.size) :
    writeImage 0 (Bytes.chunks 511 s.image) d = .ok () (d.replace 0 s.imageSectors) := by
  have count := s.pieces_image.1
  exact writeImage_disk d _ 0 (by simpa [count] using h) (by rw [count]; decide)

/-- A flush never fails. It writes the sectors of the table's image over the front of the device. -/
theorem flush_disk (s : FileStore) (d : Disk) (h : sectorCount ≤ d.sectors.size) :
    s.flush d = .ok s.flushed (d.replace 0 s.imageSectors) :=
  s.flush_of_writeImage (s.writeImage_image d h)

end FileStore

end PocketKernel
