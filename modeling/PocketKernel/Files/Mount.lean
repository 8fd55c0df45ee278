import PocketKernel.Disk
import PocketKernel.Files.Store

/-!
# The file table on a disk

A mount reads the first sectors of a device and loads the archive in them. A flush encodes the
table and writes the same sectors. One sector buffer serves all reads of a mount, so a read that
the device leaves unfilled sees the sector before it.
-/
namespace PocketKernel.FileStore
variable {D : Type} [BlockDevice D]

/-- The bytes of `count` sectors from `sector` on. -/
def readImage : (count : Nat) → (sector : UInt32) → (buffer : Sector) →
    Action D { image : Bytes // image.length = 512 * count }
  | 0, _, _ => pure ⟨[], rfl⟩
  | count + 1, sector, buffer => do
    let filled ← BlockDevice.readSector sector buffer
    let rest ← readImage count (sector + 1) filled
    pure ⟨filled.toBytes ++ rest.1, by simp [rest.2]; omega⟩

/-- The sectors that hold the table. -/
def sectorCount : Nat := 6

theorem sectorCount_eq : 512 * sectorCount = diskSize := by decide

def mount (s : FileStore) : Action D (FileStore × Except StoreError Nat) := do
  let image ← readImage sectorCount 0 Sector.blank
  let s := { s with scratch := image.1, scratch_length := image.2.trans sectorCount_eq }
  pure (s.load image.1)

/-- Writes the pieces to the sectors from `sector` on. -/
def writeImage : (sector : UInt32) → List Bytes → Action D Unit
  | _, [] => pure ()
  | sector, piece :: rest => do
    BlockDevice.writeSector sector (Sector.ofBytes piece)
    writeImage (sector + 1) rest

/-- Encodes the table into the scratch buffer and writes that to the device. -/
def flush (s : FileStore) : Action D FileStore := do
  let encoded := s.encode s.scratch
  match encoded.2 with
  | .error e => throw (.flushFailed e)
  | .ok _ =>
    writeImage 0 (encoded.1.chunks 511)
    pure { s with
      scratch := encoded.1
      scratch_length := (s.length_encode s.scratch).trans s.scratch_length }

end PocketKernel.FileStore
