import Mathlib
import PocketKernel.Proofs.Files.Sectors
import PocketKernel.Virtio.Driver

/-!
# What the device does with a request

A request that the driver publishes names its own parts, so that the device finds it (`Published`).
The service of such a request is the call on the plain disk: `serveOne_of_published`.
-/
namespace PocketKernel

/-- A call on a device of sectors, with the buffer of the caller. -/
inductive SectorCall where
  | read (sector : UInt32) (buffer : Sector)
  | write (sector : UInt32) (data : Sector)

namespace SectorCall

def sector : SectorCall → UInt32
  | read sector _ => sector
  | write sector _ => sector

def buffer : SectorCall → Sector
  | read _ buffer => buffer
  | write _ data => data

def data : SectorCall → Option Sector
  | read _ _ => none
  | write _ data => some data

def run {D : Type} [BlockDevice D] : SectorCall → Action D Sector
  | read sector buffer => BlockDevice.readSector sector buffer
  | write sector data => do
    BlockDevice.writeSector sector data
    pure data

def runs {D : Type} [BlockDevice D] : List SectorCall → Action D Unit
  | [] => pure ()
  | c :: rest => do
    let _ ← c.run
    runs rest

/-- The plain disk does every call on one of its sectors. -/
theorem exists_run_disk (c : SectorCall) (d : Disk) (inside : c.sector.toNat < d.sectors.size) :
    ∃ filled d', c.run d = .ok filled d' ∧ d'.sectors.size = d.sectors.size := by
  cases c with
  | read sector buffer => exact ⟨_, _, FileStore.readSector_disk d sector buffer inside, rfl⟩
  | write sector data =>
    exact ⟨data, _, Action.bind_of_ok (FileStore.writeSector_disk d sector data inside),
      Array.size_setIfInBounds⟩

end SectorCall

namespace Virtio

def kindOf : SectorCall → UInt32
  | .read _ _ => Request.readKind
  | .write _ _ => Request.writeKind

/-! ## The memory of a request -/

namespace Request
variable {r : Request} {addr : Nat} {xs : Array UInt8}

theorem toList_load (r : Request) (addr count : Nat) :
    (r.load addr count).toList = (r.bytes.toList.drop addr).take count := by
  simp [load, List.take_drop]

theorem toList_store (fits : addr + xs.size ≤ size) :
    (r.store addr xs).bytes.toList = Bytes.splice r.bytes.toList addr xs.toList := by
  have rest : (r.bytes.toList.drop (addr + xs.size)).take (size - (addr + xs.size)) =
      r.bytes.toList.drop (addr + xs.size) :=
    List.take_of_length_le (by simp [r.size_bytes])
  rw [store, dif_pos fits]
  simp [Bytes.splice, rest]

theorem fits_bytes (fits : addr + xs.size ≤ size) :
    addr + xs.toList.length ≤ r.bytes.toList.length := by
  simpa [r.size_bytes] using fits

/-- A part that was stored is loaded again. -/
theorem load_store (fits : addr + xs.size ≤ size) {count : Nat} (whole : count = xs.size) :
    (r.store addr xs).load addr count = xs := by
  apply Array.toList_inj.1
  rw [toList_load, toList_store fits, whole, ← Array.length_toList]
  exact Bytes.range_splice _ _ _ (fits_bytes fits)

/-- Other parts are as they were. -/
theorem load_store_of_disjoint (fits : addr + xs.size ≤ size) {other count : Nat}
    (apart : other + count ≤ addr ∨ addr + xs.size ≤ other) :
    (r.store addr xs).load other count = r.load other count := by
  apply Array.toList_inj.1
  rw [toList_load, toList_load, toList_store fits]
  exact Bytes.range_splice_of_disjoint _ _ (fits_bytes fits) apart

theorem fits_status (status : UInt8) : statusOffset + #[status].size ≤ size := le_rfl

@[simp] theorem status_store (r : Request) (status : UInt8) :
    (r.store statusOffset #[status]).status = status := by
  have inside (r : Request) : r.status = (r.load statusOffset 1).getD 0 0 := by
    have : statusOffset < r.bytes.size := r.size_bytes.symm ▸ by decide
    simp [Request.status, load, this]
  have stored : (r.store statusOffset #[status]).load statusOffset 1 = #[status] :=
    load_store (fits_status status) rfl
  rw [inside, stored]
  rfl

theorem fits_sector (s : Sector) : dataOffset + s.toArray.size ≤ size := by
  rw [s.size_toArray]
  decide

theorem ofNat_leNat32 (word : UInt32) :
    UInt32.ofNat (Bytes.leNat (Bytes.ofLE 4 word.toNat)) = word := by
  have small : word.toNat < 1 <<< (8 * 4) := word.toNat_lt
  rw [Bytes.leNat_ofLE, Nat.mod_eq_of_lt small, UInt32.ofNat_toNat]

theorem ofNat_leNat64 (word : UInt64) :
    UInt64.ofNat (Bytes.leNat (Bytes.ofLE 8 word.toNat)) = word := by
  have small : word.toNat < 1 <<< (8 * 8) := word.toNat_lt
  rw [Bytes.leNat_ofLE, Nat.mod_eq_of_lt small, UInt64.ofNat_toNat]

section
variable (kind reserved : UInt32) (sector : UInt64)

theorem size_header : (header kind reserved sector).toArray.size = headerLength := by
  simp [header, headerLength]

theorem kind_header : (header kind reserved sector).take 4 = Bytes.ofLE 4 kind.toNat := by
  simp [header]

theorem reserved_header :
    ((header kind reserved sector).drop 4).take 4 = Bytes.ofLE 4 reserved.toNat := by
  simp [header]

theorem sector_header : (header kind reserved sector).drop 8 = Bytes.ofLE 8 sector.toNat := by
  simp [header, List.drop_append]

end

theorem header_ask (r : Request) (sector : UInt64) (data : Option Sector) :
    (r.ask sector data).load 0 headerLength =
      (header (if data.isSome then writeKind else readKind) 0 sector).toArray := by
  have asked (kind : UInt32) :
      ((r.store 0 (header kind 0 sector).toArray).store statusOffset #[0]).load 0 headerLength =
        (header kind 0 sector).toArray := by
    rw [load_store_of_disjoint (by decide) (.inl (by decide)),
      load_store (by rw [size_header]; decide) (size_header kind 0 sector).symm]
  cases data with
  | none => exact asked readKind
  | some written =>
    unfold ask
    rw [load_store_of_disjoint (fits_sector written) (.inl (by decide))]
    exact asked writeKind

theorem data_ask (r : Request) (sector : UInt64) (written : Sector) :
    (r.ask sector (some written)).load dataOffset sectorSize = written.toArray :=
  load_store (fits_sector written) written.size_toArray.symm

end Request

/-! ## A published request -/

namespace Link
variable {l : Link} {c : SectorCall} {filled : Sector} {d : Disk}

/-- The request of the call and its chain are where the device looks next. -/
structure Published (l : Link) (c : SectorCall) : Prop where
  head : l.queue.ring.get (entryOf l.device.seen) = 0
  chain : l.queue.chainFrom 0 = some (chain c.data.isSome)
  header : l.request.load 0 Request.headerLength =
    (Request.header (kindOf c) 0 c.sector.toUInt64).toArray
  data : ∀ data, c.data = some data → l.request.load Request.dataOffset sectorSize = data.toArray

theorem requestAt_of_published (published : l.Published c) :
    l.requestAt 0 = some ⟨0, kindOf c, 0, c.sector.toUInt64, chain c.data.isSome⟩ := by
  have chained := published.chain
  have bytes := published.header
  have kind : (kindOf c == Request.readKind) = !c.data.isSome := by cases c <;> rfl
  revert chained kind
  generalize c.data.isSome = isWrite
  intro chained kind
  have header : ((Virtio.chain isWrite).1.names Request.headerLength &&
      !(Virtio.chain isWrite).1.isWritten) = true := by
    cases isWrite <;> decide
  have data : ((Virtio.chain isWrite).2.1.names sectorSize &&
      (Virtio.chain isWrite).2.1.isWritten == !isWrite) = true := by
    cases isWrite <;> decide
  have status : ((Virtio.chain isWrite).2.2.names 1 &&
      (Virtio.chain isWrite).2.2.isWritten) = true := by
    cases isWrite <;> decide
  unfold requestAt
  rw [chained]
  have addr : (Virtio.chain isWrite).1.addr.toNat = 0 := rfl
  simp only [Option.bind_eq_bind, Option.bind_some, addr, bytes, Request.kind_header,
    Request.reserved_header, Request.sector_header, Request.ofNat_leNat32, Request.ofNat_leNat64,
    header, data, status, kind]
  simp [guard]

def moved (l : Link) (c : SectorCall) (filled : Sector) : Request :=
  match c with
  | .read _ _ => l.request.store Request.dataOffset filled.toArray
  | .write _ _ => l.request

theorem transfer_of_run
    (data : ∀ data, c.data = some data →
      l.request.load Request.dataOffset sectorSize = data.toArray)
    (run : c.run l.device.disk = .ok filled d) :
    transfer ⟨0, kindOf c, 0, c.sector.toUInt64, Virtio.chain c.data.isSome⟩ l =
      .ok () { l with
        device := { l.device with disk := d }
        request := l.moved c filled } := by
  have sector : c.sector.toUInt64.toUInt32 = c.sector := UInt32.toUInt32_toUInt64 _
  unfold transfer
  simp only [sector]
  cases c with
  | read s buffer =>
    have read : onDisk (BlockDevice.readSector s Sector.blank) l =
        .ok filled { l with device := { l.device with disk := d } } :=
      Action.within_of_ok run
    exact Action.bind_of_ok read
  | write s written =>
    obtain ⟨⟨⟩, d₁, done, same⟩ := Action.bind_eq_ok.1 run
    cases same
    have held : Sector.ofBytes (l.request.load Request.dataOffset sectorSize).toList = filled := by
      rw [data filled rfl]
      exact Sector.ofBytes_toBytes filled
    have written : onDisk (BlockDevice.writeSector s filled) l =
        .ok () { l with device := { l.device with disk := d } } :=
      Action.within_of_ok done
    rw [← held] at written
    exact written

def served (l : Link) (c : SectorCall) (filled : Sector) (d : Disk) : Link where
  device := { l.device with
    disk := d
    answered := l.device.answered + 1
    seen := l.device.seen + 1
    last := some ⟨0, kindOf c, 0, c.sector.toUInt64, chain c.data.isSome⟩ }
  queue := { l.queue with used := l.queue.used + 1 }
  request := (l.moved c filled).store Request.statusOffset
    #[l.device.statusOf l.device.answered]

/-- The service of a published request is the call on the plain disk. -/
theorem serveOne_of_published (published : l.Published c)
    (run : c.run l.device.disk = .ok filled d) : serveOne l = .ok () (l.served c filled d) := by
  let found : Served := ⟨0, kindOf c, 0, c.sector.toUInt64, Virtio.chain c.data.isSome⟩
  let noted : Link := { l with device := { l.device with last := some found } }
  have moved : transfer found noted = .ok () { noted with
      device := { noted.device with disk := d }
      request := noted.moved c filled } := transfer_of_run published.data run
  have head : l.queue.ring[entryOf l.device.seen] = 0 := published.head
  unfold serveOne
  rw [Action.get_bind, head, requestAt_of_published published]
  refine (Action.modify_bind _ _ _).trans ?_
  exact (Action.bind_of_ok moved).trans rfl

/-- The status of the answer is the one that the device stored. -/
theorem status_served : (l.served c filled d).request.status =
    l.device.statusOf l.device.answered :=
  Request.status_store _ _

/-- The data of the answer are those of the disk, or those that were written to it. -/
theorem data_served (published : l.Published c) (run : c.run l.device.disk = .ok filled d) :
    (l.served c filled d).request.data = filled := by
  have kept : (l.served c filled d).request.load Request.dataOffset sectorSize =
      (l.moved c filled).load Request.dataOffset sectorSize :=
    Request.load_store_of_disjoint (Request.fits_status _) (.inl (by decide))
  apply Vector.toArray_inj.1
  rw [Request.toArray_data, kept]
  cases c with
  | read s buffer => exact Request.load_store (Request.fits_sector filled) filled.size_toArray.symm
  | write s written =>
    obtain ⟨⟨⟩, d₁, -, same⟩ := Action.bind_eq_ok.1 run
    cases same
    exact published.data filled rfl

/-! ## The driver's side -/

theorem chainFrom_chain {q : Queue} {isWrite : Bool}
    (header : q.descriptors[0]? = some (Virtio.chain isWrite).1)
    (data : q.descriptors[1]? = some (Virtio.chain isWrite).2.1)
    (status : q.descriptors[2]? = some (Virtio.chain isWrite).2.2) :
    q.chainFrom 0 = some (Virtio.chain isWrite) := by
  have first : q.descriptors[0] = (Virtio.chain isWrite).1 := by simpa using header
  have second : q.descriptors[1] = (Virtio.chain isWrite).2.1 := by simpa using data
  have third : q.descriptors[2] = (Virtio.chain isWrite).2.2 := by simpa using status
  have headerNext : (Virtio.chain isWrite).1.next.toNat = 1 := rfl
  have dataNext : (Virtio.chain isWrite).2.1.next.toNat = 2 := rfl
  have headerGoesOn : (Virtio.chain isWrite).1.goesOn = true := by cases isWrite <;> decide
  have dataGoesOn : (Virtio.chain isWrite).2.1.goesOn = true := by cases isWrite <;> decide
  have statusEnds : (Virtio.chain isWrite).2.2.goesOn = false := by cases isWrite <;> decide
  simp [Queue.chainFrom, first, second, third, headerNext, dataNext, headerGoesOn, dataGoesOn,
    statusEnds, guard]

def publishing (l : Link) (c : SectorCall) : Link :=
  (BlockDriver.publish c.sector c.data).finalState l

theorem publish_eq (l : Link) (c : SectorCall) :
    BlockDriver.publish c.sector c.data l = .ok () (l.publishing c) := rfl

/-- What is published while nothing else waits is what the device looks at next. -/
theorem published_publishing (idle : l.queue.available = l.device.seen) (c : SectorCall) :
    (l.publishing c).Published c where
  head := by
    change (l.queue.ring.set (entryOf l.queue.available) 0)[entryOf l.device.seen] = 0
    have same : (entryOf l.queue.available).val = (entryOf l.device.seen).val := by rw [idle]
    exact (Vector.getElem_set _ _).trans (if_pos same)
  chain := by
    have stored : (l.publishing c).queue.descriptors =
        ((l.queue.descriptors.setIfInBounds 0 (Virtio.chain c.data.isSome).1).setIfInBounds 1
          (Virtio.chain c.data.isSome).2.1).setIfInBounds 2 (Virtio.chain c.data.isSome).2.2 := by
      cases c <;> rfl
    apply chainFrom_chain <;> simp [stored]
  header := by
    have kind : kindOf c = if c.data.isSome then Request.writeKind else Request.readKind := by
      cases c <;> rfl
    rw [kind]
    exact Request.header_ask l.request c.sector.toUInt64 c.data
  data written same := by
    have asked : (l.publishing c).request = l.request.ask c.sector.toUInt64 (some written) :=
      same ▸ rfl
    rw [asked]
    exact Request.data_ask l.request c.sector.toUInt64 written

/-- The device serves this one request when it is notified. -/
theorem notice_publishing (idle : l.queue.available = l.device.seen)
    (run : c.run l.device.disk = .ok filled d) :
    notice (l.publishing c) = .ok () ((l.publishing c).served c filled d) := by
  have one : ((l.publishing c).queue.available - (l.publishing c).device.seen).toNat = 1 := by
    change (l.queue.available + 1 - l.device.seen).toNat = 1
    rw [idle, UInt16.add_comm, UInt16.add_sub_cancel]
    rfl
  unfold notice
  rw [Action.get_bind, one]
  exact Action.bind_of_ok (serveOne_of_published (published_publishing idle c) run)

end Link

end Virtio

end PocketKernel
