import Mathlib
import PocketKernel.Proofs.Files.Sectors
import PocketKernel.Proofs.Kernel.Reading

/-!
# Writing a file

A write takes its file by the string at one address and its new contents from another. It is all or
nothing: the bytes come into a buffer of the kernel first, and only a whole copy reaches the table,
which then goes to the disk at once. Main statement: `records_of_handleTrap`.
-/
namespace PocketKernel

namespace FileStore
variable {s t : FileStore} {file : File} {data : Bytes}

def Rewrites (s : FileStore) (file : File) (data : Bytes) (t : FileStore) : Prop :=
  ∃ before behind new, s.files = before ++ file :: behind ∧
    (∀ f ∈ before, f.name ≠ file.name) ∧ t.files = before ++ new :: behind ∧
      new.name = file.name ∧ new.size = data.length ∧ new.contents = data

theorem name_of_find? {name : Bytes} (found : s.find? name = some file) : file.name = name := by
  have same := List.find?_some found
  exact beq_iff_eq.1 same

theorem replaceFirst_append {name : Bytes} {new : File} {before behind : List File}
    (first : ∀ f ∈ before, f.name ≠ name) (here : file.name = name) :
    replaceFirst name new (before ++ file :: behind) = before ++ new :: behind := by
  induction before with
  | nil => exact if_pos (beq_iff_eq.2 here)
  | cons f rest ih =>
    obtain ⟨other, later⟩ := List.forall_mem_cons.1 first
    rw [List.cons_append, replaceFirst, if_neg (by simpa using other), ih later, List.cons_append]

/-- A file that is found takes all data that are not too large. -/
theorem rewrites_of_overwrite (found : s.find? file.name = some file)
    (small : data.length ≤ fileDataMax) :
    ∃ t, s.overwrite file.name data = some (.ok t) ∧ s.Rewrites file data t := by
  obtain ⟨new, written⟩ : ∃ new, file.overwrite data = .ok new := ⟨_, dif_pos small⟩
  have size : new.size = data.length := by
    unfold File.overwrite at written
    rw [dif_pos small] at written
    cases written
    rfl
  obtain ⟨-, before, behind, split, first⟩ := List.find?_eq_some_iff_append.1 found
  have first' : ∀ f ∈ before, f.name ≠ file.name := fun f hf => by simpa using first f hf
  unfold overwrite
  simp only [found, written]
  refine ⟨_, rfl, before, behind, new, split, first', ?_, File.name_of_overwrite written, size,
    File.contents_of_overwrite written⟩
  change replaceFirst file.name new s.files = _
  rw [split]
  exact replaceFirst_append first' rfl

/-- The front of the disk is the encoding of the table, whatever buffer it is made in, and the rest
of the disk is that of `d`. -/
structure OnDisk (s : FileStore) (d d' : Disk) : Prop where
  front : ∀ buffer : Bytes, buffer.length = diskSize →
    ∃ length, s.encode buffer = (d'.front, .ok length)
  size : d'.sectors.size = d.sectors.size
  rest : ∀ i, sectorCount ≤ i → d'.sectors[i]? = d.sectors[i]?

theorem onDisk_of_flush (s : FileStore) {d : Disk} (room : sectorCount ≤ d.sectors.size) :
    ∃ t d', s.flush d = .ok t d' ∧ t.files = s.files ∧ t.OnDisk d d' := by
  have count : s.imageSectors.length = sectorCount := s.length_imageSectors
  refine ⟨s.flushed, _, s.flush_disk d room, rfl, fun buffer length => ?_, ?_, fun i hi => ?_⟩
  · rw [s.flushed.encode_eq length, Disk.front_replace d _ count, flatMap_imageSectors]
    exact ⟨_, rfl⟩
  · exact d.size_replace 0 _ (by omega)
  · exact d.getElem?_replace_of_le (by omega)

end FileStore

namespace Kernel
open Memory
variable {frame : RegisterFile} {cause : TrapCause} {k k' : Kernel} {file : File} {word : UInt32}

/-- A write takes what it has copied into the table and flushes it, or fails with its copy. -/
theorem writeFile_of_some (backed : NameBacked k (frame .a0))
    (named : k.namedBy frame = some file) {mapped : Bool} {data : Bytes}
    (copied : k.memory.readUser k.procs.running.pageTable (frame .a1)
      (Bytes.zeros (transferLength .writeFile (frame .a2) file.size)) = .ok (mapped, data))
    {files flushed : FileStore} {disk : Disk}
    (written : k.files.overwrite file.name data = some (.ok files))
    (done : files.flush k.disk = .ok flushed disk) :
    ∃ log, writeFile (frame .a0) (frame .a1) (frame .a2) k =
      if mapped then
        .ok (UInt32.ofNat (transferLength .writeFile (frame .a2) file.size))
          { k with log, files := flushed, disk }
      else .ok Syscall.failed { k with log } := by
  obtain ⟨log, found⟩ := namedFile_of_backed backed .writeFile
  rw [named] at found
  unfold writeFile
  rw [Action.get_bind, Action.bind_of_ok found]
  dsimp only
  have asked : Action.ask (fun k' : Kernel => k'.memory.readUser k.procs.running.pageTable
      (frame .a1) (Bytes.zeros (transferLength .writeFile (frame .a2) file.size)))
        { k with log } = .ok (mapped, data) { k with log } := Action.ask_of_ok copied
  rw [Action.bind_of_ok asked]
  cases mapped with
  | false => exact ⟨_, rfl⟩
  | true =>
    dsimp only
    rw [if_neg (show ¬ (!true) = true by decide), Action.get_bind, written]
    dsimp only
    have put : onDisk files.flush { k with log, files } =
        .ok flushed { k with log, files, disk } := Action.within_of_ok done
    rw [Action.modify_bind, Action.bind_of_ok put]
    exact ⟨_, rfl⟩

/-! ## All or nothing -/

/-- A write moves no more than was asked for and no more than a file can hold. -/
theorem transferLength_writeFile_le (length : UInt32) (file : File) :
    transferLength .writeFile length file.size ≤ length.toNat ∧
      transferLength .writeFile length file.size ≤ fileDataMax := by
  have := file.size_le
  unfold transferLength
  dsimp only
  split <;> omega

structure Records (k : Kernel) (buffer length : UInt32) (file : File) (n : Nat) (word : UInt32)
    (files : FileStore) (disk : Disk) : Prop where
  count : n = if fileDataMax < length.toNat then file.size else length.toNat
  asked : n ≤ length.toNat
  /-- With the whole buffer mapped the file has its bytes, and the disk has the table. -/
  whole : (∀ i < n, k.memory.Mapped k.procs.running.pageTable (buffer + UInt32.ofNat i)) →
    word.toNat = n ∧ files.OnDisk k.disk disk ∧ ∃ data : Bytes, data.length = n ∧
      k.memory.BytesAt k.procs.running.pageTable buffer data ∧ k.files.Rewrites file data files
  /-- Otherwise nothing has changed. -/
  nothing : (∃ i < n, ¬ k.memory.Mapped k.procs.running.pageTable (buffer + UInt32.ofNat i)) →
    word = Syscall.failed ∧ files = k.files ∧ disk = k.disk

/-- A write to a stored file returns, and the file is written as a whole or not at all. -/
theorem records_of_writeFile (room : FileStore.sectorCount ≤ k.disk.sectors.size)
    (name : NameBacked k (frame .a0)) (named : k.namedBy frame = some file)
    (buffer : k.memory.BackedWhile k.procs.running.pageTable (frame .a1)
      (transferLength .writeFile (frame .a2) file.size)
      (k.memory.Mapped k.procs.running.pageTable)) :
    ∃ word log files disk, writeFile (frame .a0) (frame .a1) (frame .a2) k =
        .ok word { k with log, files, disk } ∧
      Records k (frame .a1) (frame .a2) file (transferLength .writeFile (frame .a2) file.size) word
        files disk := by
  obtain ⟨n, count⟩ : ∃ n, n = transferLength .writeFile (frame .a2) file.size := ⟨_, rfl⟩
  obtain ⟨asked, fits⟩ := count ▸ transferLength_writeFile_le (frame .a2) file
  obtain ⟨data, front, bytes, copied⟩ := readUser_of_backed <|
    (Bytes.length_zeros (transferLength .writeFile (frame .a2) file.size)).symm ▸ buffer
  rw [Bytes.length_zeros, ← count] at front
  have stored : k.files.find? file.name = some file := by
    obtain ⟨_, -, -, found⟩ := (named_iff name).2 named
    rwa [FileStore.name_of_find? found]
  -- The buffer of the kernel is full in any case, so that the table would take it.
  have filled : (data ++ (Bytes.zeros n).drop data.length).length = n := by
    have le := front.le
    rw [List.length_append, List.length_drop, Bytes.length_zeros]
    omega
  obtain ⟨files, written, rewrites⟩ :=
    FileStore.rewrites_of_overwrite stored (filled.le.trans fits)
  obtain ⟨flushed, disk, done, same, onDisk⟩ := files.onDisk_of_flush room
  obtain ⟨log, ran⟩ := writeFile_of_some name named copied (count ▸ written) done
  rw [Bytes.length_zeros, ← count] at ran
  rw [← count]
  by_cases full : data.length = n
  · rw [if_pos (decide_eq_true full)] at ran
    refine ⟨_, log, flushed, disk, ran, count, asked,
      fun _ => ⟨?_, onDisk, data, full, bytes, ?_⟩, fun unmapped => ?_⟩
    · have small := (frame .a2).toNat_lt
      exact UInt32.toNat_ofNat_of_lt' (asked.trans_lt small)
    · rw [List.drop_of_length_le (by rw [Bytes.length_zeros, full]), List.append_nil] at rewrites
      unfold FileStore.Rewrites
      rw [same]
      exact rewrites
    · obtain ⟨i, hi, missing⟩ := unmapped
      exact absurd (front.mapped i (full ▸ hi)) missing
  · rw [if_neg (by simpa using full)] at ran
    have short : data.length < n := lt_of_le_of_ne front.le full
    refine ⟨_, log, k.files, k.disk, ran, count, asked, fun mapped => ?_, fun _ => ⟨rfl, rfl, rfl⟩⟩
    exact absurd (mapped data.length short) (front.ends short)

/-- Every write returns, and it leaves memory, the processes, the console and the registers other
than `a0`. Without a stored file under the name, or with an address of the buffer that is not
mapped, it leaves the files and the disk as well. Otherwise the first file of the name has the bytes
of the buffer for its contents, all other files stay, and the disk holds the new table. The length
is the stored size when more is asked for than a file can hold. -/
theorem records_of_handleTrap (call : cause.scause = TrapCause.environmentCall)
    (asks : frame .a3 = Syscall.writeFile) (room : FileStore.sectorCount ≤ k.disk.sectors.size)
    (name : NameBacked k (frame .a0))
    (buffer : ∀ file, Named k (frame .a0) file →
      k.memory.BackedWhile k.procs.running.pageTable (frame .a1)
        (transferLength .writeFile (frame .a2) file.size)
        (k.memory.Mapped k.procs.running.pageTable)) :
    ∃ word log files disk,
      handleTrap frame cause k =
        .ok (frame.set .a0 word, cause.sepc + TrapCause.callLength) { k with log, files, disk } ∧
      ((¬ ∃ file, Named k (frame .a0) file) →
        word = Syscall.failed ∧ files = k.files ∧ disk = k.disk) ∧
      ∀ file, Named k (frame .a0) file →
        ∃ n, Records k (frame .a1) (frame .a2) file n word files disk := by
  cases found : k.namedBy frame with
  | none =>
    obtain ⟨log, ran⟩ := fileCall_of_none name found .writeFile
    have unnamed (file : File) : ¬ Named k (frame .a0) file := by
      simp [named_iff name, found]
    refine ⟨_, log, k.files, k.disk, handleTrap_of_fileCall .writeFile call asks ran,
      fun _ => ⟨rfl, rfl, rfl⟩, fun file named => absurd named (unnamed file)⟩
  | some file =>
    have named := (named_iff name).2 found
    obtain ⟨word, log, files, disk, ran, records⟩ :=
      records_of_writeFile room name found (buffer file named)
    refine ⟨word, log, files, disk, handleTrap_of_fileCall .writeFile call asks ran,
      fun missing => absurd ⟨file, named⟩ missing, fun other named' => ?_⟩
    cases found.symm.trans ((named_iff name).1 named')
    exact ⟨_, records⟩

/-- Where processes are separate, a buffer in pages of user code will do. -/
theorem Separate.backed_buffer (h : Separate k) (running : k.procs.Used k.procs.current)
    {call : FileCall} (buffer : UserBuffer call frame k) (named : k.namedBy frame = some file) :
    k.memory.BackedWhile k.procs.running.pageTable (frame .a1)
      (transferLength call (frame .a2) file.size)
      (k.memory.Mapped k.procs.running.pageTable) := by
  rw [← bufferLength_of_namedBy named]
  exact h.memory.backedWhile (root_mem_roots running) buffer _

/-- The process writes the first two bytes of its page to the file. -/
theorem records_of_handleTrap_inReader :
    ∃ file log files disk, Named inReader userBase file ∧
      handleTrap (writeFrom userBase) ⟨TrapCause.environmentCall, 0, 0⟩ inReader =
        .ok ((writeFrom userBase).set .a0 2, 4) { inReader with log, files, disk } ∧
      Records inReader userBase 2 file 2 2 files disk := by
  have name : NameBacked inReader (writeFrom userBase .a0) := nameBacked_inReader
  have buffer : UserBuffer .writeFile (writeFrom userBase) inReader := by
    unfold UserBuffer
    decide +kernel
  have asks : writeFrom userBase .a3 = Syscall.writeFile := rfl
  have call : (⟨TrapCause.environmentCall, 0, 0⟩ : TrapCause).scause =
      TrapCause.environmentCall := rfl
  have room : FileStore.sectorCount ≤ inReader.disk.sectors.size := by decide +kernel
  obtain ⟨word, log, files, disk, done, -, records⟩ := records_of_handleTrap call asks room name
    fun file named =>
      separate_inReader.backed_buffer used_inReader buffer ((named_iff name).1 named)
  have stored : (inReader.namedBy (writeFrom userBase)).map File.size = some 2 := by
    decide +kernel
  obtain ⟨file, found, size⟩ := Option.map_eq_some_iff.1 stored
  have named := (named_iff name).2 found
  obtain ⟨n, recorded⟩ := records file named
  obtain rfl : n = 2 := by
    rw [recorded.count]
    rfl
  have mapped : ∀ i < 2, inReader.memory.Mapped inReader.procs.running.pageTable
      (userBase + UInt32.ofNat i) := by decide +kernel
  obtain rfl : word = 2 := UInt32.toNat_inj.1 (recorded.whole mapped).1
  exact ⟨file, log, files, disk, named, done, recorded⟩

end Kernel

end PocketKernel
