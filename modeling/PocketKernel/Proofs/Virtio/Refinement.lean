import Mathlib
import PocketKernel.Proofs.Virtio.Service

/-!
# The driver is a plain disk

Between two calls the driver and its device agree on how many requests there were, and all of their
counters are that number, wrapped (`Synced`). Each call publishes one request and keeps this. Main
statement: `disk_of_driver`, which holds for any number of calls and for any status bytes.
-/
namespace PocketKernel.Virtio
open BlockDriver
variable {b b' : BlockDriver} {c : SectorCall} {d d' : Disk} {n : Nat} {filled : Sector}

/-- A valid device with that disk, which has not answered anything yet. What it stores as the status
of its answers is open, and so is what was done with its registers before. The bytes of the disk can
be counted in 64 bits. -/
structure Serves (device : Device) (disk : Disk) : Prop where
  magic : device.magic = magicValue
  version : device.version = legacyVersion
  kind : device.kind = blockKind
  holds : device.disk = disk
  capacity : device.capacity = UInt64.ofNat disk.sectors.size
  fits : disk.sectors.size * sectorSize < UInt64.size
  answered : device.answered = 0
  seen : device.seen = 0

structure Synced (statusOf : Nat → UInt8) (n : Nat) (d : Disk) (b : BlockDriver) : Prop where
  disk : b.link.device.disk = d
  statusOf : b.link.device.statusOf = statusOf
  answered : b.link.device.answered = n
  available : b.link.queue.available = UInt16.ofNat n
  used : b.link.queue.used = UInt16.ofNat n
  lastUsed : b.lastUsed = UInt16.ofNat n
  seen : b.link.device.seen = UInt16.ofNat n
  sectors : b.sectors = d.sectors.size

/-- The chain of a call as a device must find it: a header, a sector that it writes when the call is
to read, and a status byte that it writes. The first two go on. -/
structure IsChain (c : SectorCall) (header data status : Descriptor) : Prop where
  lengths : header.length = 16 ∧ data.length = 512 ∧ status.length = 1
  headerFlags : header.flags = chained
  dataFlags : data.flags = if c.data.isSome then chained else chained + deviceWrites
  statusFlags : status.flags = deviceWrites
  apart : header.addr.toNat + 16 ≤ data.addr.toNat ∧ data.addr.toNat + 512 ≤ status.addr.toNat

theorem isChain_chain (c : SectorCall) :
    IsChain c (chain c.data.isSome).1 (chain c.data.isSome).2.1 (chain c.data.isSome).2.2 := by
  cases c <;> exact ⟨⟨rfl, rfl, rfl⟩, rfl, rfl, rfl, le_rfl, le_rfl⟩

/-- What one call has done: the device has followed one chain and found the request of the call. -/
structure Performed (c : SectorCall) (b b' : BlockDriver) : Prop where
  once : b'.link.device.answered = b.link.device.answered + 1
  served : ∃ head header data status, IsChain c header data status ∧
    b'.link.device.last =
      some ⟨head, kindOf c, 0, c.sector.toUInt64, header, data, status⟩
  counters : b'.link.queue.available = b'.link.queue.used ∧ b'.link.queue.used = b'.lastUsed

def afterStatus (log : Log) (sector : UInt32) (status : UInt8) : Log :=
  if status = 0 then log else log.add (.requestFailed sector status)

/-- Below the capacity a request is performed; its answer depends on the status. -/
theorem perform_of_synced {statusOf : Nat → UInt8} (h : Synced statusOf n d b)
    (inside : c.sector.toNat < d.sectors.size) (run : c.run d = .ok filled d')
    (same : d'.sectors.size = d.sectors.size) :
    ∃ b', perform c.sector c.data b = .ok (if statusOf n = 0 then some filled else none) b' ∧
      Synced statusOf (n + 1) d' b' ∧ Performed c b b' ∧
      b'.log = afterStatus b.log c.sector (statusOf n) := by
  have idle : b.link.queue.available = b.link.device.seen := h.available.trans h.seen.symm
  have next (counter : UInt16) (now : counter = UInt16.ofNat n) :
      counter + 1 = UInt16.ofNat (n + 1) := by rw [now, UInt16.ofNat_add]; rfl
  rw [← h.disk] at run
  let l := (b.link.publishing c).served c filled d'
  have published : onLink (publish c.sector c.data) b =
      .ok () { b with link := b.link.publishing c } :=
    Action.within_of_ok (Link.publish_eq b.link c)
  have notified : onLink (RegisterWindow.writeRegister Register.queueNotify 0)
      { b with link := b.link.publishing c } = .ok () { b with link := l } :=
    Action.within_of_ok (Link.notice_publishing idle run)
  have used : (l.queue.used != b.lastUsed + 1) = false := by
    have equal : b.link.queue.used + 1 = b.lastUsed + 1 := by rw [h.used, h.lastUsed]
    rw [bne_eq_false_iff_eq]
    exact equal
  have status : l.request.status = statusOf n := by
    rw [Link.status_served]
    change b.link.device.statusOf b.link.device.answered = _
    rw [h.statusOf, h.answered]
  have held : l.request.data = filled :=
    Link.data_served (Link.published_publishing idle c) run
  have done (log : Log) : Synced statusOf (n + 1) d' ⟨l, b.lastUsed + 1, b.capacity, log⟩ ∧
      Performed c b ⟨l, b.lastUsed + 1, b.capacity, log⟩ := by
    refine ⟨⟨rfl, h.statusOf, congrArg (· + 1) h.answered, next _ h.available, next _ h.used,
      next _ h.lastUsed, next _ h.seen, h.sectors.trans same.symm⟩, rfl,
      ⟨0, _, _, _, isChain_chain c, rfl⟩, ?_, ?_⟩
    · exact (next _ h.available).trans (next _ h.used).symm
    · exact (next _ h.used).trans (next _ h.lastUsed).symm
  unfold perform
  rw [Action.get_bind, if_neg (by rw [h.sectors]; omega)]
  simp only [Action.bind_of_ok published, Action.bind_of_ok notified, Action.modify_bind,
    Action.get_bind, used, status, held, Bool.false_eq_true, if_false, beq_iff_eq]
  unfold afterStatus
  by_cases success : statusOf n = 0
  · simp only [if_pos success]
    exact ⟨_, rfl, (done b.log).1, (done b.log).2, rfl⟩
  · simp only [if_neg success]
    exact ⟨_, rfl, (done _).1, (done _).2, rfl⟩

/-- Below the capacity a call does what it does on the plain disk, but that the buffer is filled
only with the status zero. -/
theorem run_of_synced {statusOf : Nat → UInt8} (h : Synced statusOf n d b)
    (inside : c.sector.toNat < d.sectors.size) :
    ∃ filled d' b', c.run d = .ok filled d' ∧ d'.sectors.size = d.sectors.size ∧
      c.run b = .ok (if statusOf n = 0 then filled else c.buffer) b' ∧
      Synced statusOf (n + 1) d' b' ∧ Performed c b b' ∧
      b'.log = afterStatus b.log c.sector (statusOf n) := by
  obtain ⟨filled, d', plain, same⟩ := c.exists_run_disk d inside
  obtain ⟨b', performed, after⟩ := perform_of_synced h inside plain same
  refine ⟨filled, d', b', plain, same, ?_, after⟩
  cases c with
  | read sector buffer =>
    refine (Action.bind_of_ok performed).trans ?_
    by_cases success : statusOf n = 0
    · rw [if_pos success, if_pos success]
      rfl
    · rw [if_neg success, if_neg success]
      rfl
  | write sector data =>
    have written : BlockDevice.writeSector sector data b = .ok () b' := Action.bind_of_ok performed
    obtain ⟨⟨⟩, d₁, -, unchanged⟩ := Action.bind_eq_ok.1 plain
    cases unchanged
    refine (Action.bind_of_ok written).trans ?_
    by_cases success : statusOf n = 0
    · rw [if_pos success]
      rfl
    · rw [if_neg success]
      rfl

theorem runs_of_synced {statusOf : Nat → UInt8} {calls : List SectorCall}
    (h : Synced statusOf n d b) (inside : ∀ c ∈ calls, c.sector.toNat < d.sectors.size) :
    ∃ d' b', SectorCall.runs calls d = .ok () d' ∧ d'.sectors.size = d.sectors.size ∧
      SectorCall.runs calls b = .ok () b' ∧ Synced statusOf (n + calls.length) d' b' := by
  induction calls generalizing n d b with
  | nil => exact ⟨d, b, rfl, rfl, rfl, h⟩
  | cons c rest ih =>
    obtain ⟨first, others⟩ := List.forall_mem_cons.1 inside
    obtain ⟨filled, d₁, b₁, plain, same, ran, synced, -⟩ := run_of_synced h first
    obtain ⟨d', b', plains, sames, rans, synced'⟩ := ih synced (same ▸ others)
    refine ⟨d', b', (Action.bind_of_ok plain).trans plains, sames.trans same,
      (Action.bind_of_ok ran).trans rans, ?_⟩
    rw [List.length_cons, Nat.add_comm rest.length, ← Nat.add_assoc]
    exact synced'

/-- A sector that the device does not have is refused before anything is done. -/
theorem run_of_beyond {statusOf : Nat → UInt8} (h : Synced statusOf n d b)
    (beyond : d.sectors.size ≤ c.sector.toNat) :
    c.run b = .error (.sectorBeyondDevice c.sector d.sectors.size) b := by
  have refused : perform c.sector c.data b =
      .error (.sectorBeyondDevice c.sector d.sectors.size) b := by
    unfold perform
    rw [Action.get_bind, h.sectors, if_pos beyond]
    rfl
  cases c with
  | read => exact Action.bind_of_error refused
  | write =>
    exact Action.bind_of_error (Action.bind_of_error refused)

/-! ## The start -/

theorem readLong_config (l : Link) :
    RegisterWindow.readLong Register.config l = .ok l.device.capacity l := by
  have joined : l.device.capacity.toUInt32.toUInt64 +
      (l.device.capacity / 0x100000000).toUInt32.toUInt64 * 0x100000000 = l.device.capacity := by
    have := l.device.capacity.toNat_lt
    rw [← UInt64.toNat_inj]
    simp
    omega
  exact congrArg (EStateM.Result.ok · l) joined

/-- Bringing up a valid device changes nothing but its registers. -/
theorem bringUp_of_serves {device : Device} {disk : Disk} (serves : Serves device disk)
    (queueAddr : UInt32) :
    ∃ status writes, bringUp queueAddr (Link.ofDevice device) =
      .ok (device.capacity * 512) (.ofDevice { device with status, writes }) := by
  obtain ⟨magic, version, kind, status, capacity, disk, statusOf, answered, seen, last, writes⟩ :=
    device
  obtain rfl : magic = magicValue := serves.magic
  obtain rfl : version = legacyVersion := serves.version
  obtain rfl : kind = blockKind := serves.kind
  let writes' := ((((((((writes.push (Register.status, 0)).push
    (Register.status, 0 ||| acknowledged)).push
    (Register.status, 0 ||| acknowledged ||| driverKnown)).push
    (Register.status, 0 ||| acknowledged ||| driverKnown ||| featuresChosen)).push
    (Register.queueSelect, 0)).push (Register.queueSize, UInt32.ofNat queueLength)).push
    (Register.queueAlign, 0)).push (Register.queueFrame, queueAddr)).push
    (Register.status, driverReady)
  let l : Link := .ofDevice ⟨magicValue, legacyVersion, blockKind, driverReady, capacity, disk,
    statusOf, answered, seen, last, writes'⟩
  have inBytes :
      (do return (← RegisterWindow.readLong Register.config) * 512 : Action Link UInt64) l =
        .ok (capacity * 512) l := Action.bind_of_ok (readLong_config l)
  exact ⟨driverReady, writes', inBytes⟩

theorem synced_of_start {device : Device} {disk : Disk} (serves : Serves device disk)
    (queueAddr : UInt32) (log : Log) :
    ∃ b, start queueAddr (.ofDevice device) log = .ok b ∧ Synced device.statusOf 0 disk b := by
  obtain ⟨status, writes, up⟩ := bringUp_of_serves serves queueAddr
  let link : Link := .ofDevice { device with status, writes }
  let capacity := device.capacity * 512
  let b : BlockDriver := ⟨link, 0, capacity, log.add (.deviceFound capacity)⟩
  have started : start queueAddr (.ofDevice device) log = .ok b := by
    unfold start
    rw [up]
  have bytes : capacity.toNat = disk.sectors.size * 512 := by
    have fits := serves.fits
    rw [sectorSize] at fits
    change (device.capacity * 512).toNat = _
    rw [serves.capacity, UInt64.toNat_mul, UInt64.toNat_ofNat']
    have small : disk.sectors.size < UInt64.size := by omega
    rw [Nat.mod_eq_of_lt small]
    exact Nat.mod_eq_of_lt fits
  refine ⟨b, started, serves.holds, rfl, serves.answered, rfl, rfl, rfl, serves.seen, ?_⟩
  change capacity.toNat / 512 = _
  rw [bytes, Nat.mul_div_cancel _ (by decide)]

/-- The driver of a device that serves a disk is that disk, for any number of calls and whatever
status the device stores. Each call is answered, and the device serves one request for it, that of
the call; disk and driver do the same but that a read which ended with a status other than zero
leaves the buffer as it was. A sector beyond the device is refused, and nothing is done. -/
theorem disk_of_driver {device : Device} {disk : Disk} (serves : Serves device disk)
    (queueAddr : UInt32) (log : Log) :
    ∃ b₀, start queueAddr (.ofDevice device) log = .ok b₀ ∧
      BlockDevice.capacity b₀ = disk.sectors.size ∧
      b₀.link.queue.available = b₀.link.queue.used ∧ b₀.link.queue.used = b₀.lastUsed ∧
      ∀ calls : List SectorCall, (∀ c ∈ calls, c.sector.toNat < disk.sectors.size) →
        ∃ b d, SectorCall.runs calls b₀ = .ok () b ∧ SectorCall.runs calls disk = .ok () d ∧
          b.link.device.disk = d ∧ b.link.device.answered = calls.length ∧
          ∀ c : SectorCall,
            (c.sector.toNat < disk.sectors.size →
              ∃ filled b' d', c.run d = .ok filled d' ∧
                c.run b = .ok (if device.statusOf calls.length = 0 then filled else c.buffer) b' ∧
                b'.link.device.disk = d' ∧ Performed c b b') ∧
            (disk.sectors.size ≤ c.sector.toNat →
              c.run b = .error (.sectorBeyondDevice c.sector disk.sectors.size) b) := by
  obtain ⟨b₀, started, synced₀⟩ := synced_of_start serves queueAddr log
  refine ⟨b₀, started, synced₀.sectors, synced₀.available.trans synced₀.used.symm,
    synced₀.used.trans synced₀.lastUsed.symm, fun calls inside => ?_⟩
  obtain ⟨d, b, plain, same, ran, synced⟩ := runs_of_synced synced₀ inside
  rw [Nat.zero_add] at synced
  refine ⟨b, d, ran, plain, synced.disk, synced.answered, fun c =>
    ⟨fun below => ?_, fun beyond => ?_⟩⟩
  · rw [← same] at below
    obtain ⟨filled, d', b', plain', -, ran', synced', performed, -⟩ := run_of_synced synced below
    exact ⟨filled, b', d', plain', ran', synced'.disk, performed⟩
  · rw [← same] at beyond ⊢
    exact run_of_beyond synced beyond

/-- A device of two sectors that fails at every second request. -/
def flakyDevice : Device :=
  { Device.ofDisk (Disk.blank 2) with statusOf := fun n => if n % 2 = 0 then 0 else 1 }

/-- A sector is written and read back, but the buffer stays as it was. -/
theorem disk_of_driver_flakyDevice :
    ∃ b₀ b b', Serves flakyDevice (Disk.blank 2) ∧
      start 0 (.ofDevice flakyDevice) .empty = .ok b₀ ∧
      SectorCall.runs [.write 1 (Vector.replicate 512 2)] b₀ = .ok () b ∧
      (SectorCall.read 1 Sector.blank).run b = .ok Sector.blank b' ∧
      Performed (.read 1 Sector.blank) b b' := by
  have serves : Serves flakyDevice (Disk.blank 2) := by
    refine ⟨rfl, rfl, rfl, rfl, rfl, ?_, rfl, rfl⟩
    decide
  obtain ⟨b₀, started, -, -, -, calls⟩ := disk_of_driver serves 0 .empty
  have inside : (1 : UInt32).toNat < (Disk.blank 2).sectors.size := by decide
  obtain ⟨b, _, ran, -, -, -, call⟩ :=
    calls [.write 1 (Vector.replicate 512 2)] (List.forall_mem_singleton.2 inside)
  obtain ⟨_, b', _, -, read, -, performed⟩ := (call (.read 1 Sector.blank)).1 inside
  exact ⟨b₀, b, b', serves, started, ran, read, performed⟩

end PocketKernel.Virtio
