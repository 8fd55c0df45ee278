import Mathlib
import PocketKernel.Proofs.Kernel.Isolation
import PocketKernel.Proofs.Memory.UserBytes

/-!
# Reading a file

A read takes its file by the string at one address and fills a buffer at another. With all memory
there on its way it returns, whatever the addresses and the length are. Main statement:
`delivers_of_handleTrap`.
-/
namespace PocketKernel.Kernel
open Memory Paging
variable {frame : RegisterFile} {cause : TrapCause} {k k' : Kernel} {file : File} {word : UInt32}

/-- The string at an address, if it is short enough to be a name, names the stored file. -/
def Named (k : Kernel) (addr : UInt32) (file : File) : Prop :=
  ∃ name, k.memory.StringAt k.procs.running.pageTable addr name ∧ name.length < fileNameMax ∧
    k.files.find? name = some file

def NameBacked (k : Kernel) (addr : UInt32) : Prop :=
  k.memory.BackedWhile k.procs.running.pageTable addr fileNameMax
    (k.memory.TextAt k.procs.running.pageTable)

theorem named_iff (backed : NameBacked k (frame .a0)) :
    Named k (frame .a0) file ↔ k.namedBy frame = some file := by
  have scan (name : Bytes) : k.memory.scanString k.procs.running.pageTable (frame .a0) fileNameMax =
      .ok (name, .terminated) ↔ k.memory.StringAt k.procs.running.pageTable (frame .a0) name ∧
        name.length < fileNameMax := scanString_eq_terminated backed
  unfold Named namedBy
  split
  next name found =>
    constructor
    · rintro ⟨name', there, short, stored⟩
      cases found.symm.trans ((scan name').2 ⟨there, short⟩)
      exact stored
    · intro stored
      obtain ⟨there, short⟩ := (scan name).1 found
      exact ⟨name, there, short, stored⟩
  next other =>
    refine ⟨?_, nofun⟩
    rintro ⟨name, there, short, -⟩
    exact absurd ((scan name).2 ⟨there, short⟩) (other name)

theorem namedFile_of_backed (backed : NameBacked k (frame .a0)) (call : FileCall) :
    ∃ log, namedFile call k.procs.running.pageTable (frame .a0) k =
      .ok (k.namedBy frame) { k with log } := by
  rcases namedFile_cases call frame k with answer | ⟨fault, faulted, -⟩
  · exact answer
  · obtain ⟨answer, scan⟩ := exists_scanString backed
    cases scan.symm.trans faulted

/-- A call without a file fails. -/
theorem fileCall_of_none (backed : NameBacked k (frame .a0)) (missing : k.namedBy frame = none)
    (call : FileCall) : ∃ log, fileCall call frame k = .ok Syscall.failed { k with log } := by
  obtain ⟨log, found⟩ := namedFile_of_backed backed call
  rw [missing] at found
  refine ⟨log, ?_⟩
  cases call <;>
  · simp only [fileCall, readFile, writeFile]
    rw [Action.get_bind, Action.bind_of_ok found]
    rfl

/-- A read of a file answers with its count, or fails with its copy. -/
theorem readFile_of_some (backed : NameBacked k (frame .a0)) (named : k.namedBy frame = some file)
    {mapped : Bool} {m : Memory}
    (copied : writeUser k.procs.running.pageTable (frame .a1)
      (file.contents.take (transferLength .readFile (frame .a2) file.size)) k.memory =
        .ok mapped m) :
    ∃ log, readFile (frame .a0) (frame .a1) (frame .a2) k =
      .ok (if mapped then UInt32.ofNat (transferLength .readFile (frame .a2) file.size)
        else Syscall.failed) { k with log, memory := m } := by
  obtain ⟨log, found⟩ := namedFile_of_backed backed .readFile
  rw [named] at found
  unfold readFile
  rw [Action.get_bind, Action.bind_of_ok found]
  dsimp only
  have moved : onMemory (writeUser k.procs.running.pageTable (frame .a1)
      (file.contents.take (transferLength .readFile (frame .a2) file.size))) { k with log } =
        .ok mapped { k with log, memory := m } := Action.within_of_ok copied
  rw [Action.bind_of_ok moved]
  cases mapped <;> exact ⟨_, rfl⟩

/-- What a call on a file answers stands in `a0` afterwards. -/
theorem handleTrap_of_fileCall (call : FileCall)
    (trapped : cause.scause = TrapCause.environmentCall) (asks : frame .a3 = callNumber call)
    (done : fileCall call frame k = .ok word k') :
    handleTrap frame cause k =
      .ok (frame.set .a0 word, cause.sepc + TrapCause.callLength) k' := by
  have dispatched : dispatch frame k = .ok (frame.set .a0 word) k' := by
    rw [dispatch_of_asks asks]
    exact Action.bind_of_ok done
  unfold handleTrap
  rw [if_neg (not_not.2 trapped)]
  exact Action.bind_of_ok dispatched

/-- A read asks for no more than was asked for and no more than is stored. -/
theorem transferLength_readFile_le (length : UInt32) (file : File) :
    transferLength .readFile length file.size ≤ length.toNat ∧
      transferLength .readFile length file.size ≤ file.size := by
  have := file.size_le
  unfold transferLength
  split
  · omega
  · exact ⟨min_le_left _ _, min_le_right _ _⟩

structure Delivers (k : Kernel) (buffer length : UInt32) (file : File) (n : Nat) (word : UInt32)
    (memory : Memory) : Prop where
  count : n = if fileDataMax < length.toNat then file.size else min length.toNat file.size
  asked : n ≤ length.toNat
  stored : n ≤ file.contents.length
  /-- With the whole buffer mapped the bytes stand there, and nothing else has changed. -/
  whole : (∀ i < n, k.memory.Mapped k.procs.running.pageTable (buffer + UInt32.ofNat i)) →
    word.toNat = n ∧
      Copied k.memory k.procs.running.pageTable buffer (file.contents.take n) memory
  /-- Otherwise this is so up to the first address that is not mapped. -/
  partly : (∃ i < n, ¬ k.memory.Mapped k.procs.running.pageTable (buffer + UInt32.ofNat i)) →
    word = Syscall.failed ∧ ∃ stop < n, Front k.memory k.procs.running.pageTable buffer n stop ∧
      Copied k.memory k.procs.running.pageTable buffer (file.contents.take stop) memory

/-- A copy of the front of a file delivers it. -/
theorem Delivers.of_copied {k : Kernel} {buffer length : UInt32} {n stop : Nat} {memory : Memory}
    (count : n = transferLength .readFile length file.size)
    (size : file.contents.length = file.size)
    (front : Front k.memory k.procs.running.pageTable buffer n stop)
    (copied : Copied k.memory k.procs.running.pageTable buffer (file.contents.take stop) memory) :
    Delivers k buffer length file n (if stop = n then UInt32.ofNat n else Syscall.failed)
      memory := by
  obtain ⟨asked, within⟩ := count ▸ transferLength_readFile_le length file
  refine ⟨count, asked, by omega, fun mapped => ?_, fun unmapped => ?_⟩
  · have full : stop = n := by
      by_contra ne
      have short : stop < n := lt_of_le_of_ne front.le ne
      exact front.ends short (mapped stop short)
    subst full
    have small := length.toNat_lt
    rw [if_pos rfl, UInt32.toNat_ofNat_of_lt' (asked.trans_lt small)]
    exact ⟨rfl, copied⟩
  · have short : stop < n := by
      obtain ⟨i, hi, missing⟩ := unmapped
      refine lt_of_le_of_ne front.le ?_
      rintro rfl
      exact missing (front.mapped i hi)
    exact ⟨if_neg short.ne, stop, short, front, copied⟩

/-- Every read returns. It leaves the files, the disk, the processes, the console and the registers
other than `a0`, and without a stored file under the name also memory. A file's bytes go to the
buffer, the stored size when more is asked for than a file can hold and otherwise at most as many as
asked for and stored. The places of the buffer must not be words of the tables that lead to them. -/
theorem delivers_of_handleTrap (call : cause.scause = TrapCause.environmentCall)
    (asks : frame .a3 = Syscall.readFile) (whole : ∀ f ∈ k.files.files, f.Whole)
    (name : NameBacked k (frame .a0))
    (buffer : ∀ file, Named k (frame .a0) file →
      Fillable k.memory k.procs.running.pageTable (frame .a1)
        (transferLength .readFile (frame .a2) file.size)) :
    ∃ word log memory,
      handleTrap frame cause k =
        .ok (frame.set .a0 word, cause.sepc + TrapCause.callLength) { k with log, memory } ∧
      ((¬ ∃ file, Named k (frame .a0) file) → word = Syscall.failed ∧ memory = k.memory) ∧
      ∀ file, Named k (frame .a0) file →
        ∃ n, Delivers k (frame .a1) (frame .a2) file n word memory := by
  cases found : k.namedBy frame with
  | none =>
    obtain ⟨log, read⟩ := fileCall_of_none name found .readFile
    have unnamed (file : File) : ¬ Named k (frame .a0) file := by
      simp [named_iff name, found]
    refine ⟨_, log, k.memory, handleTrap_of_fileCall .readFile call asks read,
      fun _ => ⟨rfl, rfl⟩, ?_⟩
    exact fun file named => absurd named (unnamed file)
  | some file =>
    have named := (named_iff name).2 found
    have size : file.contents.length = file.size := by
      obtain ⟨_, -, -, stored⟩ := named
      exact (whole file (List.mem_of_find?_eq_some stored)).length_contents
    obtain ⟨n, count⟩ : ∃ n, n = transferLength .readFile (frame .a2) file.size := ⟨_, rfl⟩
    have within := (transferLength_readFile_le (frame .a2) file).2
    have length : (file.contents.take n).length = n := by
      rw [List.length_take]
      omega
    have fillable := buffer file named
    rw [← count, ← length] at fillable
    obtain ⟨stop, memory, front, moved, copied⟩ := copied_of_writeUser fillable
    rw [length] at front moved
    rw [List.take_take, min_eq_left front.le] at copied
    obtain ⟨log, read⟩ := readFile_of_some name found (count ▸ moved)
    rw [← count] at read
    refine ⟨_, log, memory, handleTrap_of_fileCall .readFile call asks read, ?_,
      fun other named' => ?_⟩
    · exact fun missing => absurd ⟨file, named⟩ missing
    · cases found.symm.trans ((named_iff name).1 named')
      simpa using ⟨n, Delivers.of_copied count size front copied⟩

/-- Where processes are separate, names and buffers in pages of user code will do. -/
theorem Separate.nameBacked (h : Separate k) (running : k.procs.Used k.procs.current)
    {addr : UInt32} (range : UserRange k.memory k.procs.running.pageTable addr fileNameMax) :
    NameBacked k addr :=
  h.memory.backedWhile (root_mem_roots running) range _

theorem Separate.fillable (h : Separate k) (running : k.procs.Used k.procs.current)
    (buffer : UserBuffer .readFile frame k) (named : k.namedBy frame = some file) :
    Fillable k.memory k.procs.running.pageTable (frame .a1)
      (transferLength .readFile (frame .a2) file.size) := by
  rw [← bufferLength_of_namedBy named]
  exact h.memory.fillable (root_mem_roots running) buffer

theorem separate_inReader : Separate inReader :=
  separate_of_run run_inReader (.start (by decide) oneFile 0)

/-- The process has a name in its page. -/
theorem nameBacked_inReader : NameBacked inReader userBase :=
  separate_inReader.nameBacked used_inReader (by decide +kernel)

/-- The process reads the two bytes of the file to its page. -/
theorem delivers_of_handleTrap_inReader :
    ∃ file log memory, Named inReader userBase file ∧
      handleTrap (readTo 0x1000008) ⟨TrapCause.environmentCall, 0, 0⟩ inReader =
        .ok ((readTo 0x1000008).set .a0 2, 4) { inReader with log, memory } ∧
      Delivers inReader 0x1000008 2 file 2 2 memory := by
  have whole : ∀ f ∈ inReader.files.files, f.Whole := by
    unfold File.Whole
    decide +kernel
  have name : NameBacked inReader (readTo 0x1000008 .a0) := nameBacked_inReader
  have buffer : UserBuffer .readFile (readTo 0x1000008) inReader := by
    unfold UserBuffer
    decide +kernel
  have asks : readTo 0x1000008 .a3 = Syscall.readFile := rfl
  have call : (⟨TrapCause.environmentCall, 0, 0⟩ : TrapCause).scause =
      TrapCause.environmentCall := rfl
  obtain ⟨word, log, memory, done, -, delivers⟩ := delivers_of_handleTrap call asks whole name
    fun file named => separate_inReader.fillable used_inReader buffer ((named_iff name).1 named)
  have stored : (inReader.namedBy (readTo 0x1000008)).map File.size = some 2 := by decide +kernel
  obtain ⟨file, found, size⟩ := Option.map_eq_some_iff.1 stored
  have named := (named_iff name).2 found
  obtain ⟨n, delivered⟩ := delivers file named
  obtain rfl : n = 2 := by
    rw [delivered.count, size]
    rfl
  have mapped : ∀ i < 2, inReader.memory.Mapped inReader.procs.running.pageTable
      (0x1000008 + UInt32.ofNat i) := by decide +kernel
  obtain rfl : word = 2 := UInt32.toNat_inj.1 (delivered.whole mapped).1
  exact ⟨file, log, memory, named, done, delivered⟩

end PocketKernel.Kernel
