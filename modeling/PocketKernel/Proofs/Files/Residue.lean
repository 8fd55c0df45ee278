import Mathlib
import PocketKernel.Proofs.Archive.InPlace
import PocketKernel.Proofs.Files.Slots
import PocketKernel.Proofs.Files.Tables

/-!
# What a flush leaves behind

A slot keeps the bytes of longer contents that it once had, the slots that are not in use keep what
they like, and the scratch buffer keeps the image of the last mount or flush. None of this reaches a
disk. A table is encoded into a cleared buffer, one entry behind the other, so the bytes come from
the names and contents of the files alone. Main statement: whatever led to two tables with the same
files, their flushes leave the same disk (`flush_eq_of_entries_eq`).
-/
namespace PocketKernel

namespace FileSlot

def entry (s : FileSlot) : Archive.Entry := ⟨s.fileName, s.data.take s.size⟩

theorem Shows.entry_eq {s : FileSlot} {f : File} (h : s.Shows f) : s.entry = f.entry := by
  simp only [entry, File.entry, File.contents, h.name, h.data, h.size]

end FileSlot

namespace SlotTable

/-- Clears the buffer and stores the entries of the slots in use, one behind the other. -/
def encode (t : SlotTable) : Archive.InPlace (Except StoreError Nat) := do
  let image ← get
  Archive.store 0 (Bytes.zeros image.length)
  Archive.storeAll (t.used.map FileSlot.entry) 0

/-- The entries are those of the files: no byte behind a content, and no slot that is free. -/
theorem Represents.map_entry {t : SlotTable} {files : List File} (h : Represents t files) :
    t.used.map FileSlot.entry = files.map File.entry := by
  induction h with
  | free free => simp [SlotTable.used, List.filter_eq_nil_iff.2 (by simpa using free)]
  | used head _ ih =>
    simp only [SlotTable.used, List.filter_cons_of_pos head.inUse, List.map_cons, head.entry_eq]
    exact congrArg _ ih

end SlotTable

namespace FileStore

/-- Slots that hold the files of a table are encoded as the table is, into any buffer of the size of
the image and without a store past its end. -/
theorem encode_of_stores {t : SlotTable} {s : FileStore} (h : t.Stores s) {buffer : Bytes}
    (size : buffer.length = diskSize) :
    t.encode buffer = some (.ok (Archive.records s.entries).length, s.image) := by
  have entries : t.used.map FileSlot.entry = s.entries := h.represents.map_entry
  have cleared : Archive.store 0 (Bytes.zeros buffer.length) buffer =
      some ((), Bytes.zeros buffer.length) := by
    simp [Archive.store, Bytes.splice]
  have written := s.encode_eq size
  rw [SlotTable.encode, Archive.InPlace.get_bind, Archive.InPlace.bind_of_some cleared, entries]
  exact Archive.storeAll_eq (fun _ => wide_of_mem_entries) written

/-- What a flush leaves on a disk is the front that the entries make, and the sectors behind it. -/
theorem sectors_replace_image (s : FileStore) (d : Disk) :
    (d.replace 0 s.imageSectors).sectors.toList =
      s.imageSectors ++ d.sectors.toList.drop sectorCount := by
  simp [Disk.replace]

/-- Disks that agree from a sector on have the same rest there. -/
theorem drop_eq_of_getElem?_eq {d e : Disk} {start : Nat}
    (beyond : ∀ i, start ≤ i → d.sectors[i]? = e.sectors[i]?) :
    d.sectors.toList.drop start = e.sectors.toList.drop start := by
  apply List.ext_getElem?
  intro i
  simpa using beyond (start + i) (Nat.le_add_right start i)

/-- Two tables with the same files, whatever led to them, flush to the same disk if the disks agree
behind the front. The front is then the records of the files and zeros. This is what the tables are
encoded to in any buffer of that size, and what every slot table with these files is encoded to,
whatever the buffer and the rest of the slots held. -/
theorem flush_eq_of_entries_eq (s t : FileStore) (same : s.entries = t.entries) (d e : Disk)
    (roomd : sectorCount ≤ d.sectors.size) (roome : sectorCount ≤ e.sectors.size)
    (beyond : ∀ i, sectorCount ≤ i → d.sectors[i]? = e.sectors[i]?) :
    ∃ d' e' : Disk, s.flush d = .ok s.flushed d' ∧ t.flush e = .ok t.flushed e' ∧
      d'.sectors = e'.sectors ∧
      (∀ i, sectorCount ≤ i → d'.sectors[i]? = d.sectors[i]?) ∧
      d'.front = Archive.records s.entries ++
        Bytes.zeros (diskSize - (Archive.records s.entries).length) ∧
      ∀ buffer : Bytes, buffer.length = diskSize →
        s.encode buffer = (d'.front, .ok (Archive.records s.entries).length) ∧
        t.encode buffer = s.encode buffer ∧
        ∀ slots : SlotTable, slots.Stores s ∨ slots.Stores t →
          slots.encode buffer = some (.ok (Archive.records s.entries).length, d'.front) := by
  have image : t.image = s.image := by simp only [FileStore.image, same]
  have front : (d.replace 0 s.imageSectors).front = s.image :=
    (d.front_replace _ s.length_imageSectors).trans s.flatMap_imageSectors
  refine ⟨_, _, s.flush_disk d roomd, t.flush_disk e roome, ?_, ?_, front, ?_⟩
  · apply Array.toList_inj.1
    rw [sectors_replace_image, sectors_replace_image, imageSectors_congr same,
      drop_eq_of_getElem?_eq beyond]
  · intro i behind
    exact d.getElem?_replace_of_le (s.length_imageSectors.trans_le behind)
  · intro buffer size
    rw [front, s.encode_eq size, t.encode_eq size, image, same]
    refine ⟨rfl, rfl, ?_⟩
    rintro slots (stores | stores)
    · rw [encode_of_stores stores size, same]
    · rw [encode_of_stores stores size, image]

def longFile : FileStore := (FileTable.run [.insert [0x61] [1, 2, 3]] FileStore.empty).2

def shortened : FileStore := (FileTable.run [.overwrite [0x61] [9]] longFile.flushed).2

def shortFile : FileStore := (FileTable.run [.insert [0x61] [9]] FileStore.empty).2

/-- The bytes behind a shortened content do not reach a disk, nor do those of an earlier flush. -/
theorem flush_eq_of_entries_eq_shortened :
    shortened.files.map (·.buffer) ≠ shortFile.files.map (·.buffer) ∧
    ∃ d' e' : Disk, shortened.flush (Disk.blank 8) = .ok shortened.flushed d' ∧
      shortFile.flush ((Disk.blank 8).replace 0 longFile.imageSectors) =
        .ok shortFile.flushed e' ∧
      d'.sectors = e'.sectors := by
  have same : shortened.entries = shortFile.entries := by decide +kernel
  have old : longFile.imageSectors.length = sectorCount := length_imageSectors _
  have size := (Disk.blank 8).size_replace 0 longFile.imageSectors (by rw [old]; decide)
  obtain ⟨d', e', left, right, equal, -⟩ := flush_eq_of_entries_eq shortened shortFile same
    (Disk.blank 8) ((Disk.blank 8).replace 0 longFile.imageSectors) (by decide)
    (size.symm ▸ by decide)
    fun i behind => ((Disk.blank 8).getElem?_replace_of_le (old.trans_le behind)).symm
  exact ⟨by decide +kernel, d', e', left, right, equal⟩

end FileStore

end PocketKernel
