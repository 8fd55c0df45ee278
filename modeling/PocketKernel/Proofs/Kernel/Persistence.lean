import Mathlib
import PocketKernel.Proofs.Files.Sectors
import PocketKernel.Proofs.Kernel.FileCalls

/-!
# The disk mirrors the file table

`Mirrors` says that mounting the disk would give the files that the kernel has. A mount establishes
it, whatever the disk held: damaged entries stop the mount, and entries beyond the room of the table
or of equal names are read the same way again. A write of a file rewrites the whole front of the
disk, and nothing else touches files or disk. Main statement: `mount_after_run`.
-/
namespace PocketKernel.Kernel

/-- Mounting the disk gives the files that the kernel has. -/
structure Mirrors (k : Kernel) : Prop where
  room : FileStore.sectorCount ≤ k.disk.sectors.size
  sound : k.files.Sound
  clean : (FileStore.empty.load k.disk.front).2 = .ok k.files.files.length
  same : (FileStore.empty.load k.disk.front).1.entries = k.files.entries

theorem Mirrors.congr {k k' : Kernel} (h : Mirrors k) (files : k'.files = k.files)
    (disk : k'.disk = k.disk) : Mirrors k' := by
  constructor
  · rw [disk]
    exact h.room
  · rw [files]
    exact h.sound
  · rw [disk, files]
    exact h.clean
  · rw [disk, files]
    exact h.same

/-- A mount takes over what loading the disk gives, and is fatal if that failed. -/
theorem mountFiles_eq {k : Kernel} (h : FileStore.sectorCount ≤ k.disk.sectors.size) :
    ∃ (t : FileStore) (log : Log), t.files = (k.files.load k.disk.front).1.files ∧
      mountFiles k =
        match (k.files.load k.disk.front).2 with
        | .error cause =>
          .error (.mountFailed cause)
            { k with files := t, disk := { k.disk with reads := k.disk.reads + 6 } }
        | .ok _ =>
          .ok () { k with files := t, disk := { k.disk with reads := k.disk.reads + 6 }, log } := by
  obtain ⟨t, loaded, files⟩ := FileStore.mount_disk k.files k.disk h
  have step : onDisk k.files.mount k =
      .ok (t, (k.files.load k.disk.front).2)
        { k with disk := { k.disk with reads := k.disk.reads + 6 } } :=
    Action.within_of_ok loaded
  refine ⟨t, t.files.foldl (fun log f => log.add (.fileMounted f.name f.size)) k.log, files, ?_⟩
  unfold mountFiles
  rw [Action.get_bind, Action.bind_of_ok step]
  dsimp only
  rw [Action.modify_bind]
  cases (k.files.load k.disk.front).2 with
  | error cause => rfl
  | ok count => rfl

/-- A mount that succeeds has loaded what the disk mirrors. -/
theorem mirrors_of_mountFiles {k k' : Kernel} (h : FileStore.sectorCount ≤ k.disk.sectors.size)
    (mounted : mountFiles k = .ok () k') : Mirrors k' := by
  obtain ⟨t, log, files, outcome⟩ := mountFiles_eq h
  rw [outcome] at mounted
  cases clean : (k.files.load k.disk.front).2 with
  | error cause => rw [clean] at mounted; cases mounted
  | ok count =>
    rw [clean] at mounted
    cases mounted
    have sound := FileStore.sound_load k.files k.disk.front
    refine ⟨h, ⟨files ▸ sound.entry, files ▸ sound.whole⟩, ?_, ?_⟩
    · have number : count = t.files.length := by
        rw [files]
        unfold FileStore.load at clean ⊢
        dsimp only at clean ⊢
        split at clean
        · cases clean
        · exact (Except.ok.inj clean).symm
      rw [← number]
      exact clean
    · simp only [FileStore.entries, files]
      rfl

/-- A flush leaves a disk that mirrors the flushed table. -/
theorem mirrors_of_flush {k : Kernel} {files flushed : FileStore} {disk : Disk}
    (h : Mirrors k) (sound : files.Sound) (done : files.flush k.disk = .ok flushed disk) :
    Mirrors { k with files := flushed, disk := disk } := by
  obtain ⟨rfl, rfl⟩ := Action.eq_of_ok (files.flush_disk k.disk h.room) done
  have count := files.length_imageSectors
  have front : (k.disk.replace 0 files.imageSectors).front = files.image :=
    (Disk.front_replace k.disk _ count).trans files.flatMap_imageSectors
  obtain ⟨clean, entries⟩ := FileStore.load_image sound FileStore.empty
  have room : (k.disk.replace 0 files.imageSectors).sectors.size = k.disk.sectors.size :=
    Disk.size_replace k.disk 0 _ (by rw [count, Nat.zero_add]; exact h.room)
  refine ⟨room ▸ h.room, ⟨sound.entry, sound.whole⟩, ?_, ?_⟩
  · simp only [front, clean, FileStore.files_flushed]
  · simp only [front, entries]
    simp only [FileStore.entries, FileStore.files_flushed]

theorem Mirrors.readFile {frame : RegisterFile} {k : Kernel} (h : Mirrors k) :
    Mirrors ((readFile (frame .a0) (frame .a1) (frame .a2)).finalState k) := by
  obtain ⟨log, data, -, ended⟩ := finalState_readFile frame k
  rw [ended]
  exact h.congr rfl rfl

/-- Between the update of the table and the flush the disk lags behind, but a flush never fails. -/
theorem Mirrors.writeFile {frame : RegisterFile} {k : Kernel} (h : Mirrors k) :
    Mirrors ((writeFile (frame .a0) (frame .a1) (frame .a2)).finalState k) := by
  rcases finalState_writeFile frame k with ⟨log, ended⟩ | ⟨_, _, files, log, -, written, flush⟩
  · rw [ended]
    exact h.congr rfl rfl
  rcases flush with ⟨flushed, disk, done, ended⟩ | ⟨fault, disk, failed, -⟩
  · rw [ended]
    exact (mirrors_of_flush h (h.sound.overwrite written) done).congr rfl rfl
  · rw [files.flush_disk k.disk h.room] at failed
    cases failed

/-! ## Runs -/

/-- One step of a run: an operation that goes on, or anything that leaves the file table and the
disk alone, as user code and the arrival of input do. -/
inductive FileStep : Kernel → Kernel → Prop where
  | operation {k k' : Kernel} (op : Operation) (next : op.next k = some k') : FileStep k k'
  | elsewhere {k k' : Kernel} (files : k'.files = k.files) (disk : k'.disk = k.disk) :
      FileStep k k'

theorem mirrors_indifferent : Indifferent Mirrors where
  log _ _ h := h.congr rfl rfl
  console _ _ h := h.congr rfl rfl
  switch _ := Action.preserves_modify fun _ h => h.congr rfl rfl

theorem Operation.mirrors_next {op : Operation} {k k' : Kernel} (h : Mirrors k)
    (next : op.next k = some k') : Mirrors k' := by
  have ended := finalState_of_next next
  cases op with
  | mountFiles =>
    -- a failed mount leaves the table it read so far, so it matters that it is fatal
    exact mirrors_of_mountFiles h.room (run_of_next rfl next)
  | spawnIdle =>
    obtain ⟨pid, spawned⟩ := spawnIdle_of_next next
    obtain ⟨_, _, _, _, -, -, -, rfl⟩ := spawnIdle_eq_ok spawned
    exact h.congr rfl rfl
  | createProcess image =>
    obtain ⟨pid, made⟩ := createProcess_of_next next
    obtain ⟨_, _, _, _, _, -, -, -, -, rfl⟩ := createProcess_eq_ok made
    exact h.congr rfl rfl
  | yieldNow =>
    rw [← ended]
    exact yieldNow_preserves mirrors_indifferent.switch k h
  | exitCurrent =>
    rw [← ended]
    exact mirrors_indifferent.exitCurrent (h.congr rfl rfl)
  | handleTrap frame cause =>
    rw [← ended, run, Action.finalState_bind_pure]
    exact mirrors_indifferent.handleTrap h (fun _ => h.congr rfl rfl) (fun _ => h.readFile)
      (fun _ => h.writeFile) cause

theorem FileStep.mirrors {k k' : Kernel} (step : FileStep k k') (h : Mirrors k) : Mirrors k' := by
  cases step with
  | operation op next => exact op.mirrors_next h next
  | elsewhere files disk => exact h.congr files disk

theorem mirrors_of_run {k k' : Kernel} (run : Relation.ReflTransGen FileStep k k')
    (h : Mirrors k) : Mirrors k' := by
  induction run with
  | refl => exact h
  | tail _ step ih => exact step.mirrors ih

/-- After any run from a mount that succeeded, mounting the disk anew succeeds and gives the names,
sizes and contents of the kernel's files in their order. -/
theorem mount_after_run {k k₀ k₁ : Kernel} (room : FileStore.sectorCount ≤ k.disk.sectors.size)
    (mounted : mountFiles k = .ok () k₀) (run : Relation.ReflTransGen FileStep k₀ k₁) :
    ∃ (fresh : FileStore) (disk : Disk),
      FileStore.empty.mount k₁.disk = .ok (fresh, .ok k₁.files.files.length) disk ∧
        disk.sectors = k₁.disk.sectors ∧ fresh.entries = k₁.files.entries ∧
        fresh.files.map File.size = k₁.files.files.map File.size := by
  have h := mirrors_of_run run (mirrors_of_mountFiles room mounted)
  obtain ⟨fresh, loaded, files⟩ := FileStore.mount_disk .empty k₁.disk h.room
  rw [h.clean] at loaded
  have same : fresh.entries = k₁.files.entries := by
    rw [← h.same]
    simp only [FileStore.entries, files]
  have whole : ∀ f ∈ fresh.files, f.Whole := by
    rw [files]
    exact (FileStore.sound_load _ _).whole
  refine ⟨fresh, _, loaded, rfl, same, ?_⟩
  rw [FileStore.map_size whole, FileStore.map_size h.sound.whole, same]

def oneFile : Disk where
  sectors := #[Sector.ofBytes (Archive.header [0x61] 2), Sector.ofBytes [1, 2], Sector.blank,
    Sector.blank, Sector.blank, Sector.blank]
  reads := 0
  writes := 0

def smallLayout : Layout := ⟨0x80200000, 0x80200000, 0x80208000⟩

def mountedKernel : Kernel := Action.finalState mountFiles (start smallLayout oneFile 0)

def mountedIdle : Kernel := Action.finalState spawnIdle mountedKernel

/-- The image of the process is the name of the file. -/
def withReader : Kernel := Action.finalState (createProcess [0x61, 0]) mountedIdle

def inReader : Kernel := Action.finalState yieldNow withReader

def readTo (buffer : UInt32) : RegisterFile :=
  (((RegisterFile.zero.set .a3 Syscall.readFile).set .a0 userBase).set .a1 buffer).set .a2 2

def writeFrom (buffer : UInt32) : RegisterFile := (readTo buffer).set .a3 Syscall.writeFile

theorem next_inReader : mountFiles (start smallLayout oneFile 0) = .ok () mountedKernel ∧
    Operation.spawnIdle.next mountedKernel = some mountedIdle ∧
    (Operation.createProcess [0x61, 0]).next mountedIdle = some withReader ∧
    Operation.yieldNow.next withReader = some inReader := by
  obtain ⟨⟨⟩, mounted⟩ : ∃ u, mountFiles (start smallLayout oneFile 0) = .ok u mountedKernel :=
    Action.exists_ok_of_answers (by decide +kernel)
  obtain ⟨_, spawned⟩ : ∃ pid, spawnIdle mountedKernel = .ok pid mountedIdle :=
    Action.exists_ok_of_answers (by decide +kernel)
  obtain ⟨_, made⟩ : ∃ pid, createProcess [0x61, 0] mountedIdle = .ok pid withReader :=
    Action.exists_ok_of_answers (by decide +kernel)
  obtain ⟨_, gave⟩ : ∃ u, yieldNow withReader = .ok u inReader :=
    Action.exists_ok_of_answers (by decide +kernel)
  exact ⟨mounted, Operation.next_of_run (Action.bind_of_ok spawned),
    Operation.next_of_run (Action.bind_of_ok made), Operation.next_of_run gave⟩

/-- The kernel mounts the disk with one file, and a process replaces the content of the file by the
first two bytes of its page. -/
theorem mount_after_run_oneFile :
    ∃ k₁ : Kernel, (start smallLayout oneFile 0).disk = oneFile ∧
      mountFiles (start smallLayout oneFile 0) = .ok () mountedKernel ∧
      Relation.ReflTransGen FileStep mountedKernel k₁ ∧
      k₁.files.entries = [⟨[0x61], [0x61, 0]⟩] ∧
      ∃ (fresh : FileStore) (disk : Disk),
        FileStore.empty.mount k₁.disk = .ok (fresh, .ok k₁.files.files.length) disk ∧
          disk.sectors = k₁.disk.sectors ∧ fresh.entries = k₁.files.entries ∧
          fresh.files.map File.size = k₁.files.files.map File.size := by
  have room : FileStore.sectorCount ≤ (start smallLayout oneFile 0).disk.sectors.size := by decide
  obtain ⟨mounted, spawned, made, gave⟩ := next_inReader
  let write := handleTrap (writeFrom userBase) ⟨TrapCause.environmentCall, 0, 0⟩
  obtain ⟨_, written⟩ : ∃ u, write inReader = .ok u (write.finalState inReader) :=
    Action.exists_ok_of_answers (by decide +kernel)
  have before : Relation.ReflTransGen FileStep mountedKernel inReader :=
    ((Relation.ReflTransGen.single (.operation _ spawned)).tail (.operation _ made)).tail
      (.operation _ gave)
  have run : Relation.ReflTransGen FileStep mountedKernel (write.finalState inReader) :=
    before.tail (.operation (.handleTrap (writeFrom userBase) ⟨TrapCause.environmentCall, 0, 0⟩)
      (Operation.next_of_run (Action.bind_of_ok written)))
  exact ⟨_, rfl, mounted, run, by decide +kernel, mount_after_run room mounted run⟩

end PocketKernel.Kernel
