import Mathlib
import PocketKernel.Proofs.Files.Reach
import PocketKernel.Proofs.Virtio.Refinement

/-!
# Mounting over a device that may fail

The driver has no way to refuse a read: it reports a request that failed and leaves the buffer as it
was. A mount has one buffer for all sectors, so in place of a sector that could not be read it sees
the one before it, or zeros (`seen`). Main statement: a mount over a driver is the mount of the disk
with these sectors through a driver whose requests all succeed, and the files are those of the disk
itself when the sectors up to the end of its archive are seen as they are (`mount_of_driver`).
-/
namespace PocketKernel

namespace FileStore

theorem length_sectorImage (image : { image : Bytes // image.length = 512 * sectorCount }) :
    image.1.length = diskSize := image.2.trans sectorCount_eq

def loaded (s : FileStore) (image : { image : Bytes // image.length = 512 * sectorCount }) :
    FileStore × Except StoreError Nat :=
  FileStore.load { s with scratch := image.1, scratch_length := length_sectorImage image } image.1

theorem mount_of_readImage {D : Type} [BlockDevice D] {d d' : D}
    {image : { image : Bytes // image.length = 512 * sectorCount }} (s : FileStore)
    (read : readImage sectorCount 0 Sector.blank d = .ok image d') :
    s.mount d = .ok (s.loaded image) d' := Action.bind_of_ok read

theorem loaded_eq (s : FileStore)
    (image : { image : Bytes // image.length = 512 * sectorCount }) :
    (s.loaded image).2 = (s.load image.1).2 ∧
      (s.loaded image).1.entries = (s.load image.1).1.entries := ⟨rfl, rfl⟩

end FileStore

namespace Virtio
open BlockDriver FileStore
variable {statusOf : Nat → UInt8} {n : Nat} {d : Disk} {b : BlockDriver}

/-- What the buffer holds after each of the reads of these sectors: the sector, or after a failed
request what it held before. -/
def seen (statusOf : Nat → UInt8) : (n : Nat) → (buffer : Sector) → List Sector → List Sector
  | _, _, [] => []
  | n, buffer, s :: rest =>
    let held := if statusOf n = 0 then s else buffer
    held :: seen statusOf (n + 1) held rest

@[simp] theorem length_seen (buffer : Sector) (sectors : List Sector) :
    (seen statusOf n buffer sectors).length = sectors.length := by
  induction sectors generalizing n buffer with
  | nil => rfl
  | cons s rest ih => simp [seen, ih]

/-- A sector whose request succeeds is seen as it is. -/
theorem getElem?_seen {i : Nat} (success : statusOf (n + i) = 0) (buffer : Sector)
    (sectors : List Sector) : (seen statusOf n buffer sectors)[i]? = sectors[i]? := by
  induction sectors generalizing n i buffer with
  | nil => rfl
  | cons s rest ih =>
    cases i with
    | zero => simp [seen, show statusOf n = 0 from success]
    | succ i => exact ih (by rwa [Nat.add_right_comm]) _

theorem seen_of_success (success : ∀ i, statusOf i = 0) (buffer : Sector)
    (sectors : List Sector) : seen statusOf n buffer sectors = sectors :=
  List.ext_getElem? fun i => getElem?_seen (success (n + i)) buffer sectors

def failures (statusOf : Nat → UInt8) : (n : Nat) → (sector : UInt32) → (count : Nat) → List Notice
  | _, _, 0 => []
  | n, sector, count + 1 =>
    let rest := failures statusOf (n + 1) (sector + 1) count
    if statusOf n = 0 then rest else .requestFailed sector (statusOf n) :: rest

def frontSectors (d : Disk) : List Sector := d.sectors.toList.take sectorCount

theorem front_eq (d : Disk) : d.front = (frontSectors d).flatMap Sector.toBytes := rfl

theorem length_frontSectors (room : sectorCount ≤ d.sectors.size) :
    (frontSectors d).length = sectorCount := by
  simpa [frontSectors] using room

theorem length_front (room : sectorCount ≤ d.sectors.size) :
    d.front.length = 512 * sectorCount := by
  rw [front_eq, ← length_frontSectors room]
  generalize frontSectors d = sectors
  induction sectors with
  | nil => rfl
  | cons s rest ih =>
    simp only [List.flatMap_cons, List.length_append, Sector.length_toBytes, ih, List.length_cons]
    omega

/-- The disk as a mount sees it whose first request is the one after `n` others. -/
def seenDisk (statusOf : Nat → UInt8) (n : Nat) (d : Disk) : Disk :=
  d.replace 0 (seen statusOf n Sector.blank (frontSectors d))

theorem getElem?_seenDisk {i : Nat} (room : sectorCount ≤ d.sectors.size) (front : i < sectorCount)
    (success : statusOf (n + i) = 0) : (seenDisk statusOf n d).sectors[i]? = d.sectors[i]? := by
  have inside : i < (seen statusOf n Sector.blank (frontSectors d)).length := by
    rwa [length_seen, length_frontSectors room]
  calc (seenDisk statusOf n d).sectors[i]?
      = (seen statusOf n Sector.blank (frontSectors d))[i]? := by
        simp [seenDisk, Disk.replace, List.getElem?_append_left inside]
    _ = (frontSectors d)[i]? := getElem?_seen success _ _
    _ = d.sectors[i]? := by simp [frontSectors, List.getElem?_take_of_lt front]

/-- Reading goes on after a failed request, with the buffer as it was. -/
theorem readImage_of_synced (h : Synced statusOf n d b) (count : Nat) (sector : UInt32)
    (buffer : Sector) (inside : sector.toNat + count ≤ d.sectors.size)
    (narrow : sector.toNat + count < UInt32.size) :
    ∃ (image : { image : Bytes // image.length = 512 * count }) (b' : BlockDriver),
      readImage count sector buffer b = .ok image b' ∧
      image.1 = (seen statusOf n buffer ((d.sectors.toList.drop sector.toNat).take count)).flatMap
        Sector.toBytes ∧
      Synced statusOf (n + count) { d with reads := d.reads + count } b' ∧
      b'.log = (failures statusOf n sector count).foldl Log.add b.log := by
  induction count generalizing n d b sector buffer with
  | zero => exact ⟨⟨[], rfl⟩, b, rfl, by simp [seen], h, rfl⟩
  | succ count ih =>
    have next : (sector + 1).toNat = sector.toNat + 1 := by
      rw [UInt32.toNat_add, show (1 : UInt32).toNat = 1 from rfl]
      exact Nat.mod_eq_of_lt (lt_of_le_of_lt (by omega) narrow)
    have below : sector.toNat < d.sectors.size := by omega
    obtain ⟨filled, d₁, b₁, plain, -, ran, synced, -, logged⟩ :=
      run_of_synced (c := .read sector buffer) h below
    obtain ⟨rfl, rfl⟩ := Action.eq_of_ok plain (readSector_disk d sector buffer below)
    obtain ⟨image, b', read, bytes, synced', logged'⟩ := ih synced (sector + 1)
      (if statusOf n = 0 then d.sectors[sector.toNat] else buffer)
      (by simp only [next]; omega) (by omega)
    refine ⟨⟨(if statusOf n = 0 then d.sectors[sector.toNat] else buffer).toBytes ++ image.1,
      by simp [image.2]; omega⟩, b', ?_, ?_, ?_, ?_⟩
    · exact (Action.bind_of_ok ran).trans (Action.bind_of_ok read)
    · have cut : (d.sectors.toList.drop sector.toNat).take (count + 1) =
          d.sectors[sector.toNat] :: (d.sectors.toList.drop (sector + 1).toNat).take count := by
        rw [next, List.drop_eq_getElem_cons (by simpa using below), List.take_succ_cons,
          Array.getElem_toList]
      simp only [cut, seen, List.flatMap_cons, bytes]
    · simpa only [Nat.add_assoc, Nat.add_comm 1 count] using synced'
    · rw [logged', logged, failures, afterStatus]
      split <;> rfl

/-- A mount over a driver always answers. It loads what it sees, leaves the sectors as they are and
reports each request that failed. -/
theorem mount_of_synced (h : Synced statusOf n d b) (room : sectorCount ≤ d.sectors.size)
    (s : FileStore) :
    ∃ (image : { image : Bytes // image.length = 512 * sectorCount }) (b' : BlockDriver),
      s.mount b = .ok (s.loaded image) b' ∧ image.1 = (seenDisk statusOf n d).front ∧
      b'.link.device.disk.sectors = d.sectors ∧
      b'.log = (failures statusOf n 0 sectorCount).foldl Log.add b.log := by
  obtain ⟨image, b', read, bytes, synced, logged⟩ := readImage_of_synced h sectorCount 0
    Sector.blank (by simpa using room) (by decide)
  have whole : (seen statusOf n Sector.blank (frontSectors d)).length = sectorCount := by
    rw [length_seen, length_frontSectors room]
  refine ⟨image, b', s.mount_of_readImage read, ?_, by rw [synced.disk], logged⟩
  rw [bytes, seenDisk, Disk.front_replace _ _ whole]
  rfl

/-- The answer of a mount of that disk through a new driver whose requests end with these
statuses. -/
def MountsWith (statusOf : Nat → UInt8) (s : FileStore) (d : Disk)
    (answer : FileStore × Except StoreError Nat) : Prop :=
  ∃ b b', start 0 (.ofDevice { Device.ofDisk d with statusOf }) .empty = .ok b ∧
    s.mount b = .ok answer b'

def MountsTo (s : FileStore) (d : Disk) (answer : FileStore × Except StoreError Nat) : Prop :=
  MountsWith (fun _ => 0) s d answer

section
variable {s : FileStore} (image : { image : Bytes // image.length = 512 * sectorCount })

theorem mountsWith_loaded (fits : d.sectors.size * sectorSize < UInt64.size)
    (room : sectorCount ≤ d.sectors.size) (bytes : image.1 = (seenDisk statusOf 0 d).front) :
    MountsWith statusOf s d (s.loaded image) := by
  have serves : Serves { Device.ofDisk d with statusOf } d :=
    ⟨rfl, rfl, rfl, rfl, rfl, fits, rfl, rfl⟩
  obtain ⟨b, started, synced⟩ := synced_of_start serves 0 .empty
  obtain ⟨found, b', mounted, front, -⟩ := mount_of_synced synced room s
  have same : found = image := Subtype.ext (front.trans bytes.symm)
  exact ⟨b, b', started, same ▸ mounted⟩

/-- Without failures a mount loads the front of the disk. -/
theorem mountsTo_loaded (fits : d.sectors.size * sectorSize < UInt64.size)
    (room : sectorCount ≤ d.sectors.size) (bytes : image.1 = d.front) :
    MountsTo s d (s.loaded image) := by
  apply mountsWith_loaded image fits room
  rw [bytes, seenDisk, seen_of_success (fun _ => rfl),
    Disk.front_replace _ _ (length_frontSectors room), front_eq]

end

/-- The first bytes of whole sectors are those of the sectors that begin before. -/
theorem take_flatMap_toBytes (sectors : List Sector) {stop k : Nat} (h : stop ≤ 512 * k) :
    (sectors.flatMap Sector.toBytes).take stop =
      ((sectors.take k).flatMap Sector.toBytes).take stop := by
  induction sectors generalizing stop k with
  | nil => simp
  | cons s rest ih =>
    cases k with
    | zero => simp [show stop = 0 by omega]
    | succ k =>
      rw [List.take_succ_cons, List.flatMap_cons, List.flatMap_cons, List.take_append,
        List.take_append, ih (k := k) (by rw [Sector.length_toBytes]; omega)]

/-- Disks whose sectors agree up to a byte of the front agree in the bytes before it. -/
theorem agree_front {e : Disk} {stop : Nat} (roomd : sectorCount ≤ d.sectors.size)
    (roome : sectorCount ≤ e.sectors.size)
    (same : ∀ i < sectorCount, 512 * i < stop → e.sectors[i]? = d.sectors[i]?) :
    Bytes.Agree stop d.front e.front := by
  have pieces : (frontSectors e).take ((stop + 511) / 512) =
      (frontSectors d).take ((stop + 511) / 512) := by
    apply List.ext_getElem?
    intro i
    simp only [frontSectors, List.take_take, List.getElem?_take]
    split
    next inside => simpa using same i (by omega) (by omega)
    next => rfl
  have cover : stop ≤ 512 * ((stop + 511) / 512) := by omega
  refine ⟨(length_front roome).trans (length_front roomd).symm, ?_⟩
  rw [front_eq, front_eq, take_flatMap_toBytes _ cover, pieces, ← take_flatMap_toBytes _ cover]

/-- A mount through the driver of a device that serves a disk, after any calls. It answers whatever
status the requests end with, leaves the sectors as they are and reports the requests that failed.
The answer is that of a mount without failures of the disk as it was seen. It is the result and the
files of a mount without failures of the disk itself, if every sector that begins before the end of
what this one reads was read, or is what the buffer held. -/
theorem mount_of_driver {device : Device} {disk : Disk} (serves : Serves device disk)
    (queueAddr : UInt32) (log : Log) (room : sectorCount ≤ disk.sectors.size)
    (calls : List SectorCall) (inside : ∀ c ∈ calls, c.sector.toNat < disk.sectors.size)
    (s : FileStore) :
    ∃ (b₀ b : BlockDriver) (d : Disk), start queueAddr (.ofDevice device) log = .ok b₀ ∧
      SectorCall.runs calls b₀ = .ok () b ∧ SectorCall.runs calls disk = .ok () d ∧
      ∃ (answer : FileStore × Except StoreError Nat) (b' : BlockDriver),
        s.mount b = .ok answer b' ∧ b'.link.device.disk.sectors = d.sectors ∧
        b'.log = (failures device.statusOf calls.length 0 sectorCount).foldl Log.add b.log ∧
        MountsTo s (seenDisk device.statusOf calls.length d) answer ∧
        ∃ whole : FileStore × Except StoreError Nat, MountsTo s d whole ∧
          ((∀ i < sectorCount, 512 * i < Archive.reach d.front filesMax 0 →
              device.statusOf (calls.length + i) = 0 ∨
              (seenDisk device.statusOf calls.length d).sectors[i]? = d.sectors[i]?) →
            answer.2 = whole.2 ∧ answer.1.files = whole.1.files) := by
  obtain ⟨b₀, started, synced₀⟩ := synced_of_start serves queueAddr log
  obtain ⟨d, b, plain, same, ran, synced⟩ := runs_of_synced synced₀ inside
  rw [Nat.zero_add] at synced
  have roomd : sectorCount ≤ d.sectors.size := same ▸ room
  have fits : d.sectors.size * sectorSize < UInt64.size := same ▸ serves.fits
  obtain ⟨image, b', mounted, bytes, kept, logged⟩ := mount_of_synced synced roomd s
  have size : (seenDisk device.statusOf calls.length d).sectors.size = d.sectors.size :=
    d.size_replace 0 _ (by simp [frontSectors])
  have whole : d.front.length = 512 * sectorCount := length_front roomd
  refine ⟨b₀, b, d, started, ran, plain, s.loaded image, b', mounted, kept, logged,
    mountsTo_loaded _ (size ▸ fits) (size ▸ roomd) bytes, s.loaded ⟨d.front, whole⟩,
    mountsTo_loaded _ fits roomd rfl, fun seen_before => ?_⟩
  have agree : Bytes.Agree (Archive.reach d.front filesMax 0) d.front image.1 := by
    rw [bytes]
    refine agree_front roomd (size ▸ roomd) fun i front before => ?_
    rcases seen_before i front before with success | seen
    · exact getElem?_seenDisk roomd front success
    · exact seen
  have found : readArchive image.1 filesMax 0 = readArchive d.front filesMax 0 :=
    readArchive_congr agree
  simp only [FileStore.loaded, FileStore.load, found, and_self]

def singleFile : Disk := Disk.ofImage (Archive.records [⟨[0x61], [1]⟩] ++ Bytes.zeros 2048)

/-- Three sectors are needed for the file and the end of the archive; the later reads fail. -/
theorem mount_of_driver_singleFile : ∃ (b b' : BlockDriver)
    (answer whole : FileStore × Except StoreError Nat),
    start 0 (.ofDevice { Device.ofDisk singleFile with
      statusOf := fun n => if n < 3 then 0 else 1 }) .empty = .ok b ∧
    FileStore.empty.mount b = .ok answer b' ∧ MountsTo .empty singleFile whole ∧
    answer.2 = whole.2 ∧ answer.1.files = whole.1.files := by
  have serves : Serves { Device.ofDisk singleFile with
      statusOf := fun n => if n < 3 then 0 else 1 } singleFile := by
    refine ⟨rfl, rfl, rfl, rfl, rfl, ?_, rfl, rfl⟩
    decide +kernel
  obtain ⟨b, _, _, started, ran, plain, answer, b', mounted, -, -, -, whole, mounts, same⟩ :=
    mount_of_driver serves 0 .empty (by decide +kernel) [] nofun .empty
  cases ran
  cases plain
  refine ⟨b, b', answer, whole, started, mounted, mounts, same fun i _ before => .inl ?_⟩
  have reach : Archive.reach singleFile.front filesMax 0 = 1536 := by decide +kernel
  rw [reach] at before
  exact if_pos (show 0 + i < 3 by omega)

/-- Reads that fail are taken for data. When all fail the file is gone, and when the second one
fails the file has a byte of its own header for its content. -/
theorem mount_takes_failed_reads : ∃ whole blind stale : FileStore × Except StoreError Nat,
    MountsTo .empty singleFile whole ∧ whole.2 = .ok 1 ∧
      whole.1.entries = [⟨[0x61], [1]⟩] ∧
    MountsWith (fun _ => 1) .empty singleFile blind ∧ blind.2 = .ok 0 ∧ blind.1.entries = [] ∧
    MountsWith (fun n => if n = 1 then 1 else 0) .empty singleFile stale ∧ stale.2 = .ok 1 ∧
      stale.1.entries = [⟨[0x61], [0x61]⟩] := by
  have room : sectorCount ≤ singleFile.sectors.size := by decide +kernel
  have fits : singleFile.sectors.size * sectorSize < UInt64.size := by decide +kernel
  have length (statusOf : Nat → UInt8) :
      (seenDisk statusOf 0 singleFile).front.length = 512 * sectorCount := by
    apply length_front
    rw [seenDisk, Disk.size_replace _ _ _ (by simp [frontSectors])]
    exact room
  refine ⟨_, _, _, mountsTo_loaded ⟨_, length_front room⟩ fits room rfl, ?_, ?_,
    mountsWith_loaded ⟨_, length _⟩ fits room rfl, ?_, ?_,
    mountsWith_loaded ⟨_, length _⟩ fits room rfl, ?_, ?_⟩ <;>
    simp only [loaded_eq] <;> decide +kernel

end Virtio

end PocketKernel
