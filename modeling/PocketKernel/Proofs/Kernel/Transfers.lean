import Mathlib
import PocketKernel.Proofs.Files.Image
import PocketKernel.Proofs.Kernel.FileCalls
import PocketKernel.Proofs.Memory.UserCopy

/-!
# Where the bytes of a file call go

Whatever the tables are, a read writes memory where the tables of the caller lead from the addresses
of its buffer, and a write takes the bytes from there. Neither call looks at the flags on the way.
Main statement: `throughTables_of_handleTrap`.
-/
namespace PocketKernel.Kernel
open Memory

def callNumber : FileCall → UInt32
  | .readFile => Syscall.readFile
  | .writeFile => Syscall.writeFile

def fileCall : FileCall → RegisterFile → Action Kernel UInt32
  | .readFile, frame => readFile (frame .a0) (frame .a1) (frame .a2)
  | .writeFile, frame => writeFile (frame .a0) (frame .a1) (frame .a2)

theorem dispatch_of_asks {call : FileCall} {frame : RegisterFile}
    (asks : frame .a3 = callNumber call) :
    dispatch frame = do return frame.set .a0 (← fileCall call frame) := by
  unfold dispatch
  rw [asks]
  cases call <;> rfl

/-- What a file call may do, whatever the tables of the caller are. -/
structure ThroughTables (call : FileCall) (frame : RegisterFile) (k k' : Kernel) : Prop where
  /-- Memory is written where the tables lead from the buffer, as they are at that moment. -/
  memory : Relation.ReflTransGen
    (CopyStep k.procs.running.pageTable (frame .a1) (bufferLength call frame k)) k.memory k'.memory
  still : call = .writeFile → k'.memory = k.memory
  stored : call = .readFile → k'.files = k.files ∧ k'.disk = k.disk
  /-- A file is given the bytes to which the tables lead from the buffer. -/
  files : ∀ f ∈ k'.files.files, f ∈ k.files.files ∨ call = .writeFile ∧
    ∃ old ∈ k.files.files, ∃ data, old.overwrite data = .ok f ∧
      data.length = bufferLength call frame k ∧ ∀ (i : Nat) (h : i < data.length),
        ∃ pa, k.memory.translate k.procs.running.pageTable (frame .a1 + UInt32.ofNat i) =
          .ok (some pa) ∧ data[i] = k.memory.ram.byteAt pa.toNat

theorem ThroughTables.refl (call : FileCall) (frame : RegisterFile) (k : Kernel) :
    ThroughTables call frame k k :=
  ⟨.refl, fun _ => rfl, fun _ => ⟨rfl, rfl⟩, fun _ => .inl⟩

theorem throughTables_of_readFile (frame : RegisterFile) (k : Kernel) :
    ThroughTables .readFile frame k
      ((readFile (frame .a0) (frame .a1) (frame .a2)).finalState k) := by
  obtain ⟨log, data, length, ended⟩ := finalState_readFile frame k
  rw [ended]
  refine ⟨?_, nofun, fun _ => ⟨rfl, rfl⟩, fun _ => .inl⟩
  have steps := steps_of_writeUser k.memory k.procs.running.pageTable (frame .a1) data
  exact steps.lift id fun m m' step => step.mono fun a inside => inside.front length

theorem throughTables_of_writeFile (frame : RegisterFile) (k : Kernel) :
    ThroughTables .writeFile frame k
      ((writeFile (frame .a0) (frame .a1) (frame .a2)).finalState k) := by
  rcases finalState_writeFile frame k with
    ⟨log, ended⟩ | ⟨_, data, files, log, copied, written, flush⟩
  · rw [ended]
    exact ⟨.refl, fun _ => rfl, nofun, fun _ => .inl⟩
  obtain ⟨length, bytes⟩ := readUser_eq_ok copied
  rw [Bytes.length_zeros] at length
  have given : ∀ f ∈ files.files, f ∈ k.files.files ∨ FileCall.writeFile = .writeFile ∧
      ∃ old ∈ k.files.files, ∃ data, old.overwrite data = .ok f ∧
        data.length = bufferLength .writeFile frame k ∧ ∀ (i : Nat) (h : i < data.length),
          ∃ pa, k.memory.translate k.procs.running.pageTable (frame .a1 + UInt32.ofNat i) =
            .ok (some pa) ∧ data[i] = k.memory.ram.byteAt pa.toNat := by
    intro f hf
    rcases FileStore.mem_overwrite written hf with old | ⟨old, stored, new⟩
    · exact .inl old
    · exact .inr ⟨rfl, old, stored, data, new, length, bytes⟩
  rcases flush with ⟨flushed, disk, done, ended⟩ | ⟨fault, disk, -, ended⟩
  · rw [ended]
    refine ⟨.refl, fun _ => rfl, nofun, ?_⟩
    rw [files_of_flush done]
    exact given
  · rw [ended]
    exact ⟨.refl, fun _ => rfl, nofun, given⟩

theorem throughTables_of_handleTrap {call : FileCall} {frame : RegisterFile}
    (asks : frame .a3 = callNumber call) (cause : TrapCause) (k : Kernel) :
    ThroughTables call frame k ((handleTrap frame cause).finalState k) := by
  rw [finalState_handleTrap]
  split
  swap
  · exact .refl call frame k
  rw [dispatch_of_asks asks, Action.finalState_bind_pure]
  cases call with
  | readFile => exact throughTables_of_readFile frame k
  | writeFile => exact throughTables_of_writeFile frame k

end PocketKernel.Kernel
