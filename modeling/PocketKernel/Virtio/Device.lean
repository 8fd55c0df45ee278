import PocketKernel.Transcript
import PocketKernel.Virtio.Queue

/-!
# The block device

The device has a window of 32-bit registers and a disk. When the queue is notified it serves every
request that was published since it last looked: it follows the chain of descriptors, reads the
header where the first one says, moves the sector to or from the part that the second one names,
stores a status byte in the part of the third and advances the used index. Which status it stores is
a function of the number of requests answered before, so that a device may fail whenever it likes;
the sector is moved in any case. It goes no further at a chain whose lengths or flags are not those
of a request.
-/
namespace PocketKernel

/-- A window of 32-bit device registers. -/
class RegisterWindow (R : Type) where
  readRegister : (offset : Nat) → Action R UInt32
  writeRegister : (offset : Nat) → (value : UInt32) → Action R Unit

/-- Two neighbouring registers as one number, the low word first. -/
def RegisterWindow.readLong {R : Type} [RegisterWindow R] (offset : Nat) : Action R UInt64 := do
  let low ← readRegister offset
  let high ← readRegister (offset + 4)
  pure (low.toUInt64 + high.toUInt64 * 0x100000000)

namespace Virtio

namespace Register

def magic : Nat := 0x00
def version : Nat := 0x04
def deviceKind : Nat := 0x08
def queueSelect : Nat := 0x30
def queueSize : Nat := 0x38
def queueAlign : Nat := 0x3c
def queueFrame : Nat := 0x40
def queueNotify : Nat := 0x50
def status : Nat := 0x70
def config : Nat := 0x100

end Register

def magicValue : UInt32 := 0x74726976
def legacyVersion : UInt32 := 1
def blockKind : UInt32 := 2

/-- A request as the device found it, with its chain. -/
structure Served where
  head : UInt16
  kind : UInt32
  reserved : UInt32
  sector : UInt64
  chain : Descriptor × Descriptor × Descriptor
  deriving DecidableEq

structure Device where
  magic : UInt32
  version : UInt32
  kind : UInt32
  status : UInt32
  /-- The number of sectors that the device reports. -/
  capacity : UInt64
  disk : Disk
  /-- The status byte stored for each request, by the number of requests answered before it. -/
  statusOf : Nat → UInt8
  answered : Nat
  /-- The counter of the available ring up to which requests were served. -/
  seen : UInt16
  last : Option Served
  /-- Every register write but notifications. -/
  writes : Transcript (Nat × UInt32)

namespace Device

/-- A valid device with that disk, which reports the disk's size and never fails. -/
def ofDisk (disk : Disk) : Device where
  magic := magicValue
  version := legacyVersion
  kind := blockKind
  status := 0
  capacity := UInt64.ofNat disk.sectors.size
  disk := disk
  statusOf := fun _ => 0
  answered := 0
  seen := 0
  last := none
  writes := .empty

/-- Registers without a meaning read zero. -/
def register (d : Device) (offset : Nat) : UInt32 :=
  if offset = Register.magic then d.magic
  else if offset = Register.version then d.version
  else if offset = Register.deviceKind then d.kind
  else if offset = Register.status then d.status
  else if offset = Register.config then d.capacity.toUInt32
  else if offset = Register.config + 4 then (d.capacity / 0x100000000).toUInt32
  else 0

end Device

/-- The descriptor names a part of that length in the memory of the request. -/
def Descriptor.names (d : Descriptor) (length : Nat) : Bool :=
  d.length.toNat == length && decide (d.addr.toNat + length ≤ Request.size)

/-- The device with the memory that it shares with its driver. -/
structure Link where
  device : Device
  queue : Queue
  request : Request

namespace Link

def ofDevice (device : Device) : Link := ⟨device, Queue.blank, Request.blank⟩

def onDisk {α : Type} (x : Action Disk α) : Action Link α :=
  x.within (·.device.disk) fun disk l => { l with device := { l.device with disk } }

/-- The request at a head: its chain is followed and its header is read. The header is not written,
the status is, and the sector is when the kind is to read. -/
def requestAt (l : Link) (head : UInt16) : Option Served := do
  let (header, data, status) ← l.queue.chainFrom head
  guard (header.names Request.headerLength && !header.isWritten)
  let bytes := (l.request.load header.addr.toNat Request.headerLength).toList
  let kind := UInt32.ofNat (Bytes.leNat (bytes.take 4))
  let reserved := UInt32.ofNat (Bytes.leNat ((bytes.drop 4).take 4))
  let sector := UInt64.ofNat (Bytes.leNat (bytes.drop 8))
  guard (data.names sectorSize && data.isWritten == (kind == Request.readKind))
  guard (status.names 1 && status.isWritten)
  return ⟨head, kind, reserved, sector, (header, data, status)⟩

/-- Moves the sector between the disk and the part that the chain names. A disk that reads fills the
whole part. -/
def transfer (found : Served) : Action Link Unit := do
  let place := found.chain.2.1.addr.toNat
  let sector := found.sector.toUInt32
  if found.kind == Request.readKind then
    let filled ← onDisk (BlockDevice.readSector sector Sector.blank)
    modify fun l => { l with request := l.request.store place filled.toArray }
  else
    let bytes := (← get).request.load place sectorSize
    onDisk (BlockDevice.writeSector sector (Sector.ofBytes bytes.toList))

/-- Serves the request at the counter `seen`, if the chain there is that of a request. -/
def serveOne : Action Link Unit := do
  let l ← get
  match l.requestAt l.queue.ring[entryOf l.device.seen] with
  | none => pure ()
  | some found =>
    modify fun l => { l with device := { l.device with last := some found } }
    transfer found
    modify fun l => { l with
      request := l.request.store found.chain.2.2.addr.toNat #[l.device.statusOf l.device.answered]
      queue := { l.queue with used := l.queue.used + 1 }
      device := { l.device with
        answered := l.device.answered + 1
        seen := l.device.seen + 1 } }

def serve : (count : Nat) → Action Link Unit
  | 0 => pure ()
  | count + 1 => do
    serveOne
    serve count

/-- Serves what was published since the device last looked. -/
def notice : Action Link Unit := do
  let l ← get
  serve (l.queue.available - l.device.seen).toNat

instance : RegisterWindow Link where
  readRegister offset := do return (← get).device.register offset
  writeRegister offset value := do
    if offset = Register.queueNotify then
      notice
    else
      modify fun l => { l with
        device := { l.device with
          writes := l.device.writes.push (offset, value)
          status := if offset = Register.status then value else l.device.status } }

end Link

end Virtio

end PocketKernel
