import PocketKernel.Notice
import PocketKernel.Virtio.Device

/-!
# The block driver

`bringUp` checks a device and hands it the request queue. After that one request is in flight at a
time: the driver fills the request, publishes its chain, notifies the device and waits for the used
index to advance. A device that leaves the index behind is never waited for; that is a fault here.
A request that ends with a status other than zero is reported and leaves the buffer as it was.
-/
namespace PocketKernel.Virtio

section BringUp
open RegisterWindow
variable {R : Type} [RegisterWindow R]

/-- Adds a bit to the status register. -/
def raiseStatus (bit : UInt32) : Action R Unit := do
  let status ← readRegister Register.status
  writeRegister Register.status (status ||| bit)

def acknowledged : UInt32 := 1
def driverKnown : UInt32 := 2
def driverReady : UInt32 := 4
def featuresChosen : UInt32 := 8

/-- Checks the device, announces the driver and the queue, and reads the capacity in bytes. -/
def bringUp (queueAddr : UInt32) : Action R UInt64 := do
  if (← readRegister Register.magic) != magicValue then
    throw .deviceMagic
  if (← readRegister Register.version) != legacyVersion then
    throw .deviceVersion
  if (← readRegister Register.deviceKind) != blockKind then
    throw .deviceKind
  writeRegister Register.status 0
  raiseStatus acknowledged
  raiseStatus driverKnown
  raiseStatus featuresChosen
  writeRegister Register.queueSelect 0
  writeRegister Register.queueSize (UInt32.ofNat queueLength)
  writeRegister Register.queueAlign 0
  writeRegister Register.queueFrame queueAddr
  writeRegister Register.status driverReady
  return (← readLong Register.config) * 512

end BringUp

/-- The driver, its device and what it has reported. -/
structure BlockDriver where
  link : Link
  lastUsed : UInt16
  /-- The size of the device in bytes. -/
  capacity : UInt64
  log : Log

namespace BlockDriver

/-- The driver of a device whose queue is at `queueAddr`. -/
def start (queueAddr : UInt32) (link : Link) (log : Log) : Except Fault BlockDriver :=
  match bringUp queueAddr link with
  | .ok capacity link => .ok ⟨link, 0, capacity, log.add (.deviceFound capacity)⟩
  | .error e _ => .error e

def sectors (b : BlockDriver) : Nat := b.capacity.toNat / sectorSize

def onLink {α : Type} (x : Action Link α) : Action BlockDriver α :=
  x.within link fun l b => { b with link := l }

/-- The request for a sector, and its chain in the descriptor table, published. -/
def publish (sector : UInt32) (data : Option Sector) : Action Link Unit :=
  modify fun l =>
    let (header, body, status) := chain data.isSome
    { l with
      request := l.request.ask sector.toUInt64 data
      queue :=
        { l.queue with
          descriptors := ((l.queue.descriptors.setIfInBounds 0 header).setIfInBounds 1
            body).setIfInBounds 2 status }.publish 0 }

/-- Performs one request. A sector beyond the device is refused before anything is published. The
answer is the request's data when it succeeded. -/
def perform (sector : UInt32) (data : Option Sector) : Action BlockDriver (Option Sector) := do
  let b ← get
  if b.sectors ≤ sector.toNat then
    throw (.sectorBeyondDevice sector b.sectors)
  onLink (publish sector data)
  onLink (RegisterWindow.writeRegister Register.queueNotify 0)
  modify fun b => { b with lastUsed := b.lastUsed + 1 }
  let b ← get
  if b.link.queue.used != b.lastUsed then
    throw .deviceSilent
  if b.link.request.status == 0 then
    pure (some b.link.request.data)
  else
    set { b with log := b.log.add (.requestFailed sector b.link.request.status) }
    pure none

instance : BlockDevice BlockDriver where
  capacity := sectors
  readSector sector buffer := do return (← perform sector none).getD buffer
  writeSector sector data := do
    let _ ← perform sector (some data)

end BlockDriver

end PocketKernel.Virtio
