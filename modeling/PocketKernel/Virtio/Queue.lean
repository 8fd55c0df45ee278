import PocketKernel.Disk

/-!
# Request queues

The driver and the device share a table of sixteen descriptors, two rings and the memory of one
request. The driver publishes the head of a chain of descriptors in the available ring, and the
device advances the used index when it has served the chain. Both indices are 16-bit counters that
wrap, and the entry of a counter is its remainder by sixteen. A descriptor names a part of the
memory by its address, which counts from the start of the request, and by its length; its flags say
whether the chain goes on and whether the device writes the part.
-/
namespace PocketKernel.Virtio

def queueLength : Nat := 16

/-- In memory the descriptors come first, sixteen bytes each, then the available ring; the used ring
begins a page of its own. -/
def availableOffset : Nat := 16 * queueLength
def usedOffset : Nat := 4096
def queueBytes : Nat := 2 * 4096

/-- A descriptor goes on with the one named in `next`. -/
def chained : UInt16 := 1

/-- The device writes the part that a descriptor names. -/
def deviceWrites : UInt16 := 2

structure Descriptor where
  addr : UInt64
  length : UInt32
  flags : UInt16
  next : UInt16
  deriving DecidableEq, Repr

namespace Descriptor

def blank : Descriptor := ⟨0, 0, 0, 0⟩

def goesOn (d : Descriptor) : Bool := d.flags &&& chained != 0

def isWritten (d : Descriptor) : Bool := d.flags &&& deviceWrites != 0

end Descriptor

structure Queue where
  descriptors : Vector Descriptor 16
  available : UInt16
  ring : Vector UInt16 16
  used : UInt16

/-- The entry of a ring that a counter stands for. -/
def entryOf (counter : UInt16) : Fin 16 := ⟨counter.toNat % 16, Nat.mod_lt _ (by decide)⟩

namespace Queue

def blank : Queue := ⟨Vector.replicate 16 .blank, 0, Vector.replicate 16 0, 0⟩

/-- A chain of exactly three descriptors, followed from its head. -/
def chainFrom (q : Queue) (head : UInt16) : Option (Descriptor × Descriptor × Descriptor) := do
  let header ← q.descriptors[head.toNat]?
  guard header.goesOn
  let data ← q.descriptors[header.next.toNat]?
  guard data.goesOn
  let status ← q.descriptors[data.next.toNat]?
  guard !status.goesOn
  return (header, data, status)

/-- Puts the head of a chain into the available ring and counts it. -/
def publish (q : Queue) (head : UInt16) : Queue :=
  { q with
    ring := q.ring.set (entryOf q.available) head
    available := q.available + 1 }

end Queue

namespace Request

/-- Kind zero reads a sector, any other kind writes one. -/
def readKind : UInt32 := 0
def writeKind : UInt32 := 1

def headerLength : Nat := 16
def dataOffset : Nat := headerLength
def statusOffset : Nat := dataOffset + sectorSize
def size : Nat := statusOffset + 1

end Request

/-- The memory of a request: its header, its sector and its status byte. -/
structure Request where
  bytes : Array UInt8
  size_bytes : bytes.size = Request.size

namespace Request

def blank : Request := ⟨Array.replicate size 0, Array.size_replicate⟩

/-- The bytes of a part. -/
def load (r : Request) (addr count : Nat) : Array UInt8 := r.bytes.extract addr (addr + count)

theorem size_load (r : Request) {addr count : Nat} (fits : addr + count ≤ size) :
    (r.load addr count).size = count := by
  rw [load, Array.size_extract, r.size_bytes]
  omega

/-- The memory with a part overwritten; nothing is written beyond its end. -/
def store (r : Request) (addr : Nat) (xs : Array UInt8) : Request :=
  if fits : addr + xs.size ≤ size then
    { bytes := r.bytes.extract 0 addr ++ xs ++ r.bytes.extract (addr + xs.size) size
      size_bytes := by simp [r.size_bytes]; omega }
  else r

/-- A header in memory. -/
def header (kind reserved : UInt32) (sector : UInt64) : Bytes :=
  Bytes.ofLE 4 kind.toNat ++ Bytes.ofLE 4 reserved.toNat ++ Bytes.ofLE 8 sector.toNat

def data (r : Request) : Sector where
  toArray := r.load dataOffset sectorSize
  size_toArray := r.size_load (by decide)

@[simp] theorem toArray_data (r : Request) : r.data.toArray = r.load dataOffset sectorSize := by
  simp only [data]

def status (r : Request) : UInt8 := r.bytes.getD statusOffset 0

/-- The request for a sector, without a status. A read leaves the data that are there. -/
def ask (r : Request) (sector : UInt64) (data : Option Sector) : Request :=
  let kind := if data.isSome then writeKind else readKind
  let asked := (r.store 0 (header kind 0 sector).toArray).store statusOffset #[0]
  match data with
  | none => asked
  | some written => asked.store dataOffset written.toArray

end Request

/-- The chain of one request: its header, its data and its status. -/
def chain (isWrite : Bool) : Descriptor × Descriptor × Descriptor :=
  (⟨0, UInt32.ofNat Request.headerLength, chained, 1⟩,
   ⟨UInt64.ofNat Request.dataOffset, UInt32.ofNat sectorSize,
    chained + (if isWrite then 0 else deviceWrites), 2⟩,
   ⟨UInt64.ofNat Request.statusOffset, 1, deviceWrites, 0⟩)

end PocketKernel.Virtio
