import PocketKernel.Proofs.Kernel.Operation

/-!
# The calls on files

A call on a file looks up the name and then moves bytes between the file and the buffer. What it is
about is read off the frame and the state: `namedBy` is the file and `bufferLength` the number of
bytes. Main statements: `finalState_readFile` and `finalState_writeFile`.
-/
namespace PocketKernel.Kernel
open Memory

def namedBy (frame : RegisterFile) (k : Kernel) : Option File :=
  match k.memory.scanString k.procs.running.pageTable (frame .a0) fileNameMax with
  | .ok (name, .terminated) => k.files.find? name
  | _ => none

def bufferLength (call : FileCall) (frame : RegisterFile) (k : Kernel) : Nat :=
  (k.namedBy frame).elim 0 fun file => transferLength call (frame .a2) file.size

variable {frame : RegisterFile} {k : Kernel}

theorem bufferLength_of_namedBy {file : File} (named : k.namedBy frame = some file)
    (call : FileCall) : bufferLength call frame k = transferLength call (frame .a2) file.size := by
  rw [bufferLength, named, Option.elim]

/-- A name is looked up, or the scan of it faults. Only the log changes. -/
theorem namedFile_cases (call : FileCall) (frame : RegisterFile) (k : Kernel) :
    (∃ log, namedFile call k.procs.running.pageTable (frame .a0) k =
      .ok (k.namedBy frame) { k with log }) ∨
    ∃ fault, k.memory.scanString k.procs.running.pageTable (frame .a0) fileNameMax = .error fault ∧
      namedFile call k.procs.running.pageTable (frame .a0) k = .error fault k := by
  unfold namedFile namedBy
  rcases scan : k.memory.scanString k.procs.running.pageTable (frame .a0) fileNameMax with
    fault | ⟨name, stop⟩
  · have asked : Action.ask (fun k' : Kernel => k'.memory.scanString k.procs.running.pageTable
        (frame .a0) fileNameMax) k = .error fault k := Action.ask_of_error scan
    exact .inr ⟨fault, rfl, Action.bind_of_error asked⟩
  · have asked : Action.ask (fun k' : Kernel => k'.memory.scanString k.procs.running.pageTable
        (frame .a0) fileNameMax) k = .ok (name, stop) k := Action.ask_of_ok scan
    rw [Action.bind_of_ok asked]
    left
    cases stop with
    | terminated =>
      dsimp only
      rw [Action.get_bind]
      cases k.files.find? name with
      | none => exact ⟨_, rfl⟩
      | some file => exact ⟨_, rfl⟩
    | unmapped => exact ⟨_, rfl⟩
    | unterminated => exact ⟨_, rfl⟩

theorem finalState_onMemory {α : Type} (x : Action Memory α) (k : Kernel) :
    (onMemory x).finalState k = { k with memory := x.finalState k.memory } :=
  Action.finalState_within _ _ x k

/-- A read copies bytes to its buffer, at most as many as it should, and tells of it. -/
theorem finalState_readFile (frame : RegisterFile) (k : Kernel) :
    ∃ (log : Log) (data : Bytes), data.length ≤ bufferLength .readFile frame k ∧
      (readFile (frame .a0) (frame .a1) (frame .a2)).finalState k = { k with
        log
        memory := (writeUser k.procs.running.pageTable (frame .a1) data).finalState k.memory } := by
  have nothing : (writeUser k.procs.running.pageTable (frame .a1) []).finalState k.memory =
      k.memory := by
    rw [writeUser, userPieces, if_pos rfl]
    rfl
  unfold readFile
  rw [Action.finalState_get_bind]
  rcases namedFile_cases .readFile frame k with ⟨log, found⟩ | ⟨fault, -, stopped⟩
  swap
  · refine ⟨k.log, [], Nat.zero_le _, ?_⟩
    rw [Action.finalState_bind_of_error stopped, nothing]
  rw [Action.finalState_bind_of_ok found]
  cases named : k.namedBy frame with
  | none =>
    refine ⟨log, [], Nat.zero_le _, ?_⟩
    rw [nothing]
    rfl
  | some file =>
    dsimp only
    generalize data : file.contents.take (transferLength .readFile (frame .a2) file.size) = bytes
    have length : bytes.length ≤ bufferLength .readFile frame k := by
      rw [bufferLength_of_namedBy named, ← data]
      exact List.length_take_le _ _
    have copied :=
      finalState_onMemory (writeUser k.procs.running.pageTable (frame .a1) bytes) { k with log }
    rcases ran : onMemory (writeUser k.procs.running.pageTable (frame .a1) bytes)
      { k with log } with ⟨mapped, k₁⟩ | ⟨fault, k₁⟩
    · rw [Action.finalState_of_ok ran] at copied
      rw [Action.finalState_bind_of_ok ran, copied]
      cases mapped with
      | true => exact ⟨log, bytes, length, rfl⟩
      | false => exact ⟨_, bytes, length, rfl⟩
    · rw [Action.finalState_of_error ran] at copied
      rw [Action.finalState_bind_of_error ran, copied]
      exact ⟨log, bytes, length, rfl⟩

/-- A write changes the log only, or it takes what it read from its buffer into the file table,
which is then flushed. -/
theorem finalState_writeFile (frame : RegisterFile) (k : Kernel) :
    (∃ log, (writeFile (frame .a0) (frame .a1) (frame .a2)).finalState k = { k with log }) ∨
      ∃ file data files log,
        k.memory.readUser k.procs.running.pageTable (frame .a1)
          (Bytes.zeros (bufferLength .writeFile frame k)) = .ok (true, data) ∧
        k.files.overwrite file data = some (.ok files) ∧
        ((∃ flushed disk, files.flush k.disk = .ok flushed disk ∧
            (writeFile (frame .a0) (frame .a1) (frame .a2)).finalState k =
              { k with log, files := flushed, disk }) ∨
          ∃ fault disk, files.flush k.disk = .error fault disk ∧
            (writeFile (frame .a0) (frame .a1) (frame .a2)).finalState k =
              { k with log, files, disk }) := by
  unfold writeFile
  rw [Action.finalState_get_bind]
  rcases namedFile_cases .writeFile frame k with ⟨log, found⟩ | ⟨fault, -, stopped⟩
  swap
  · rw [Action.finalState_bind_of_error stopped]
    exact .inl ⟨k.log, rfl⟩
  rw [Action.finalState_bind_of_ok found]
  cases named : k.namedBy frame with
  | none => exact .inl ⟨log, rfl⟩
  | some file =>
    dsimp only
    rw [← bufferLength_of_namedBy named]
    rcases answer : k.memory.readUser k.procs.running.pageTable (frame .a1)
      (Bytes.zeros (bufferLength .writeFile frame k)) with fault | ⟨mapped, data⟩
    · have asked : Action.ask (fun k' : Kernel => k'.memory.readUser k.procs.running.pageTable
          (frame .a1) (Bytes.zeros (bufferLength .writeFile frame k))) { k with log } =
            .error fault { k with log } := Action.ask_of_error answer
      rw [Action.finalState_bind_of_error asked]
      exact .inl ⟨log, rfl⟩
    have asked : Action.ask (fun k' : Kernel => k'.memory.readUser k.procs.running.pageTable
        (frame .a1) (Bytes.zeros (bufferLength .writeFile frame k))) { k with log } =
          .ok (mapped, data) { k with log } := Action.ask_of_ok answer
    rw [Action.finalState_bind_of_ok asked]
    cases mapped with
    | false => exact .inl ⟨_, rfl⟩
    | true =>
      rw [if_neg (show ¬ (!true) = true by decide), Action.finalState_get_bind]
      rcases written : k.files.overwrite file.name data with _ | cause | files
      · exact .inl ⟨log, rfl⟩
      · exact .inl ⟨_, rfl⟩
      right
      dsimp only
      rw [Action.finalState_modify_bind]
      rcases flushing : files.flush k.disk with ⟨flushed, disk⟩ | ⟨fault, disk⟩
      · have done : onDisk files.flush { k with log, files } =
            .ok flushed { k with log, files, disk } := Action.within_of_ok flushing
        rw [Action.finalState_bind_of_ok done]
        exact ⟨file.name, data, files, _, rfl, written, .inl ⟨flushed, disk, flushing, rfl⟩⟩
      · have failed : onDisk files.flush { k with log, files } =
            .error fault { k with log, files, disk } := Action.within_of_error flushing
        rw [Action.finalState_bind_of_error failed]
        exact ⟨file.name, data, files, log, rfl, written, .inr ⟨fault, disk, flushing, rfl⟩⟩

/-- A flush leaves the files. -/
theorem files_of_flush {files flushed : FileStore} {disk disk' : Disk}
    (done : files.flush disk = .ok flushed disk') : flushed.files = files.files := by
  unfold FileStore.flush at done
  cases encoded : (files.encode files.scratch).2 with
  | error cause =>
    simp only [encoded] at done
    cases done
  | ok length =>
    simp only [encoded] at done
    obtain ⟨⟨⟩, d, -, ended⟩ := Action.bind_eq_ok.1 done
    cases ended
    rfl

end PocketKernel.Kernel
