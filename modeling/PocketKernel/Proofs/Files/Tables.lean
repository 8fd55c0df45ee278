import Mathlib
import PocketKernel.Proofs.Files.Sectors

/-!
# Flushed tables are mounted again

A table that came about by inserts under proper names, overwrites, loads and mounts is sound,
whatever the images held. A flush of it writes each sector of the front of a disk once and no other,
as the record of a `Recorded` device shows, and a mount gives the table back. Main statement:
`mount_flush`.
-/
namespace PocketKernel

/-- A device with the sectors that were written to it, in order. -/
structure Recorded (D : Type) where
  device : D
  written : List UInt32

namespace Recorded
variable {D : Type} [BlockDevice D]

def lift {α : Type} (x : Action D α) : Action (Recorded D) α :=
  x.within device fun device r => { r with device }

instance : BlockDevice (Recorded D) where
  capacity r := BlockDevice.capacity r.device
  readSector sector buffer := lift (BlockDevice.readSector sector buffer)
  writeSector sector data := do
    lift (BlockDevice.writeSector sector data)
    modify fun r => { r with written := r.written ++ [sector] }

theorem writeSector_of_ok {r : Recorded D} {sector : UInt32} {data : Sector} {d : D}
    (done : BlockDevice.writeSector sector data r.device = .ok () d) :
    BlockDevice.writeSector sector data r = .ok () ⟨d, r.written ++ [sector]⟩ := by
  have lifted : lift (BlockDevice.writeSector sector data) r = .ok () { r with device := d } :=
    Action.within_of_ok done
  exact Action.bind_of_ok lifted

/-- The pieces go to sectors that follow each other. -/
theorem writeImage_of_ok {pieces : List Bytes} {sector : UInt32} {r : Recorded D} {d : D}
    (done : FileStore.writeImage sector pieces r.device = .ok () d) :
    FileStore.writeImage sector pieces r = .ok ()
      ⟨d, r.written ++ (List.range pieces.length).map fun i => sector + UInt32.ofNat i⟩ := by
  induction pieces generalizing sector r with
  | nil =>
    cases done
    simp [FileStore.writeImage]
    rfl
  | cons piece rest ih =>
    obtain ⟨⟨⟩, d₁, first, others⟩ := Action.bind_eq_ok.1 done
    have next := writeSector_of_ok first
    have := ih (r := ⟨d₁, r.written ++ [sector]⟩) others
    rw [FileStore.writeImage, Action.bind_of_ok next, this]
    simp [List.range_succ_eq_map, UInt32.ofNat_add, UInt32.add_assoc, UInt32.add_comm]

end Recorded

namespace FileStore

inductive Change : FileStore → FileStore → Prop where
  | insert {s t : FileStore} {name data : Bytes} (live : name ≠ []) (plain : (0 : UInt8) ∉ name)
      (done : s.insert name data = .ok t) : Change s t
  | overwrite {s t : FileStore} {name data : Bytes}
      (done : s.overwrite name data = some (.ok t)) : Change s t
  | load (s : FileStore) (image : Bytes) : Change s (s.load image).1
  | mount {D : Type} [BlockDevice D] {s t : FileStore} {d d' : D} {result : Except StoreError Nat}
      (done : s.mount d = .ok (t, result) d') : Change s t

theorem sound_of_mount {D : Type} [BlockDevice D] {s t : FileStore} {d d' : D}
    {result : Except StoreError Nat} (done : s.mount d = .ok (t, result) d') : t.Sound := by
  obtain ⟨image, d₁, -, loaded⟩ := Action.bind_eq_ok.1 done
  cases loaded
  exact sound_load _ image.1

theorem Change.sound {s t : FileStore} (change : Change s t) (h : s.Sound) : t.Sound := by
  cases change with
  | insert live plain done => exact h.insert live plain done
  | overwrite done => exact h.overwrite done
  | load => exact sound_load s _
  | mount done => exact sound_of_mount done

theorem sound_of_changes {s : FileStore} (run : Relation.ReflTransGen Change .empty s) :
    s.Sound := by
  induction run with
  | refl => exact sound_empty
  | tail _ change ih => exact change.sound ih

theorem imageSectors_congr {s t : FileStore} (same : t.entries = s.entries) :
    t.imageSectors = s.imageSectors := by
  simp only [imageSectors, image, same]

/-- A flush writes the sectors of the front in order, and nothing else. -/
theorem flush_recorded (s : FileStore) (d : Disk) (room : sectorCount ≤ d.sectors.size) :
    s.flush (⟨d, []⟩ : Recorded Disk) = .ok s.flushed
      ⟨d.replace 0 s.imageSectors, (List.range sectorCount).map UInt32.ofNat⟩ := by
  apply s.flush_of_writeImage
  have written := Recorded.writeImage_of_ok (r := ⟨d, []⟩) (s.writeImage_image d room)
  simpa [s.pieces_image.1] using written

/-- A flush of any table that changes can lead to writes each sector of the front once and no
other. A mount then gives the same files, and a flush of what was mounted leaves the sectors as they
are. -/
theorem mount_flush {s : FileStore} (run : Relation.ReflTransGen Change .empty s) (d : Disk)
    (room : sectorCount ≤ d.sectors.size) :
    ∃ (t fresh u : FileStore) (d₁ d₂ d₃ : Disk),
      s.flush d = .ok t d₁ ∧ t.files = s.files ∧
        s.flush (⟨d, []⟩ : Recorded Disk) =
          .ok t ⟨d₁, (List.range sectorCount).map UInt32.ofNat⟩ ∧
        d₁.sectors.size = d.sectors.size ∧
        (∀ i, sectorCount ≤ i → d₁.sectors[i]? = d.sectors[i]?) ∧
      FileStore.empty.mount d₁ = .ok (fresh, .ok s.files.length) d₂ ∧
        d₂.sectors = d₁.sectors ∧ fresh.entries = s.entries ∧
        fresh.files.map File.size = s.files.map File.size ∧
      fresh.flush d₂ = .ok u d₃ ∧ d₃.sectors = d₂.sectors := by
  have sound := sound_of_changes run
  have count := s.length_imageSectors
  have size := Disk.size_replace d 0 s.imageSectors (by omega)
  have front : (d.replace 0 s.imageSectors).front = s.image :=
    (d.front_replace _ count).trans s.flatMap_imageSectors
  obtain ⟨clean, same⟩ := load_image sound .empty
  obtain ⟨fresh, mounted, files⟩ := FileStore.empty.mount_disk (d.replace 0 s.imageSectors)
    (size ▸ room)
  rw [front] at mounted files
  rw [clean] at mounted
  have entries : fresh.entries = s.entries := by
    rw [← same, FileStore.entries, files, FileStore.entries]
  have whole : ∀ f ∈ fresh.files, f.Whole := files ▸ (sound_load .empty s.image).whole
  have again := fresh.flush_disk
    { d.replace 0 s.imageSectors with reads := (d.replace 0 s.imageSectors).reads + 6 }
    (size ▸ room)
  refine ⟨_, fresh, _, _, _, _, s.flush_disk d room, rfl, s.flush_recorded d room, size,
    fun i hi => ?_, mounted, rfl, entries, ?_, again, ?_⟩
  · exact d.getElem?_replace_of_le (count ▸ hi)
  · rw [map_size whole, map_size sound.whole, entries]
  · rw [imageSectors_congr entries]
    exact d.sectors_replace_replace rfl

/-- A load of bytes that are no archive fails, and a file is inserted after it. -/
theorem mount_flush_inserted :
    (FileStore.empty.load (List.replicate 512 1)).2.toOption = none ∧
    ∃ s : FileStore, (FileStore.empty.load (List.replicate 512 1)).1.insert [0x61] [1, 2] = .ok s ∧
      ∃ (t fresh : FileStore) (d₁ d₂ : Disk), s.flush (Disk.blank 8) = .ok t d₁ ∧
        FileStore.empty.mount d₁ = .ok (fresh, .ok s.files.length) d₂ ∧
        fresh.entries = [⟨[0x61], [1, 2]⟩] := by
  have accepted :
      ((FileStore.empty.load (List.replicate 512 1)).1.insert [0x61] [1, 2]).isOk = true := by
    decide +kernel
  cases inserted : (FileStore.empty.load (List.replicate 512 1)).1.insert [0x61] [1, 2] with
  | error cause => rw [inserted] at accepted; cases accepted
  | ok s =>
  obtain ⟨t, fresh, -, d₁, d₂, -, flushed, -, -, -, -, mounted, -, entries, -⟩ :=
    mount_flush (.head (.load .empty _) (.single (.insert (by decide) (by decide) inserted)))
      (Disk.blank 8) (by decide)
  refine ⟨by decide +kernel, s, rfl, t, fresh, d₁, d₂, flushed, mounted, ?_⟩
  rw [entries, entries_of_insert inserted]
  decide +kernel

end FileStore

end PocketKernel
