import PocketKernel.Bytes
import PocketKernel.Fault

/-!
# Sector devices

A block device moves whole sectors of 512 bytes. A read names the buffer it would fill, so that a
device may leave it as it was. `Disk` is the plain device: an array of sectors that counts its
calls.
-/
namespace PocketKernel

def sectorSize : Nat := 512

abbrev Sector := Vector UInt8 512

namespace Sector

def ofBytes (bytes : Bytes) : Sector := ⟨(bytes.fit 512).toArray, by simp⟩

def toBytes (s : Sector) : Bytes := s.toList

@[simp] theorem length_toBytes (s : Sector) : s.toBytes.length = 512 := by simp [toBytes]

@[simp] theorem toBytes_ofBytes (bytes : Bytes) (h : bytes.length = 512) :
    (ofBytes bytes).toBytes = bytes := by
  have all : bytes.take 512 = bytes := List.take_of_length_le (by omega)
  simp [toBytes, ofBytes, Bytes.fit, Bytes.zeros, h, all]

@[simp] theorem ofBytes_toBytes (s : Sector) : ofBytes s.toBytes = s :=
  Vector.toList_inj.1 (toBytes_ofBytes _ s.length_toBytes)

def blank : Sector := Vector.replicate 512 0

end Sector

class BlockDevice (D : Type) where
  /-- The number of sectors. -/
  capacity : D → Nat
  /-- The content of a sector, or of the buffer if the device did not fill it. -/
  readSector : (sector : UInt32) → (buffer : Sector) → Action D Sector
  writeSector : (sector : UInt32) → (data : Sector) → Action D Unit

structure Disk where
  sectors : Array Sector
  reads : Nat
  writes : Nat

namespace Disk

def blank (count : Nat) : Disk := ⟨Array.replicate count Sector.blank, 0, 0⟩

/-- The sectors of an image, the last one filled up with zeros. -/
def ofImage (image : Bytes) : Disk := ⟨((image.chunks 511).map Sector.ofBytes).toArray, 0, 0⟩

def image (d : Disk) : Bytes := (d.sectors.toList.map Sector.toBytes).flatten

instance : BlockDevice Disk where
  capacity d := d.sectors.size
  readSector sector _ := do
    let d ← get
    match d.sectors[sector.toNat]? with
    | none => throw (.sectorOutOfRange sector d.sectors.size)
    | some s =>
      set { d with reads := d.reads + 1 }
      pure s
  writeSector sector data := do
    let d ← get
    if sector.toNat < d.sectors.size then
      set { d with sectors := d.sectors.setIfInBounds sector.toNat data, writes := d.writes + 1 }
    else
      throw (.sectorOutOfRange sector d.sectors.size)

end Disk

end PocketKernel
