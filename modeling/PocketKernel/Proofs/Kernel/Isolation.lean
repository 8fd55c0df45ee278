import Mathlib
import PocketKernel.Proofs.Kernel.Persistence
import PocketKernel.Proofs.Kernel.Transfers
import PocketKernel.Proofs.Memory.Bounds
import PocketKernel.Proofs.Memory.Loading

/-!
# Processes are isolated

`Separate` says that every process has a root of its own and that the pages of user code under
these roots are isolated. User code and the operations of the kernel keep this, with one proviso:
the calls on files follow the tables of the caller through the kernel's window as well as through
the pages of user code, so a read must not be asked to fill a buffer in the window. Main statement:
`fileCall_confined`.
-/
namespace PocketKernel.Kernel
open Memory Paging TableView

def roots (k : Kernel) : Set UInt32 :=
  { r | ∃ slot, k.procs.Used slot ∧ (k.procs.process slot).pageTable = r }

theorem root_mem_roots {k : Kernel} {slot : Slot} (hs : k.procs.Used slot) :
    (k.procs.process slot).pageTable ∈ k.roots :=
  ⟨slot, hs, rfl⟩

/-- A kernel without processes. All free memory exists, whatever it holds. -/
structure Fresh (k : Kernel) : Prop where
  procs : k.procs = .empty
  frames : k.memory.frames = ⟨k.layout.freeRam, k.layout.freeRamEnd⟩
  base : k.memory.ram.base = k.layout.freeRam
  limit : k.memory.ram.limit = k.layout.freeRamEnd

theorem fresh_start (layout : Layout) (disk : Disk) (entry : UInt64) :
    Fresh (start layout disk entry) :=
  ⟨rfl, rfl, rfl, rfl⟩

structure Separate (k : Kernel) : Prop where
  memory : Isolated k.roots k.memory
  apart : ∀ slot slot', k.procs.Used slot → k.procs.Used slot' →
    (k.procs.process slot).pageTable = (k.procs.process slot').pageTable → slot = slot'
  begins : k.memory.Begins k.layout.freeRam

namespace Separate
variable {k k' : Kernel}

/-- Only the memory, its beginning and the roots matter. -/
theorem congr (h : Separate k) (used : ∀ slot, k'.procs.Used slot ↔ k.procs.Used slot)
    (tables : ∀ slot, (k'.procs.process slot).pageTable = (k.procs.process slot).pageTable)
    (memory : k'.memory = k.memory) (layout : k'.layout = k.layout) : Separate k' := by
  have same : k'.roots = k.roots := by
    ext r
    simp only [roots, used, tables]
  refine ⟨?_, fun slot slot' hs hs' => ?_, ?_⟩
  · rw [same, memory]
    exact h.memory
  · rw [tables, tables]
    exact h.apart slot slot' ((used slot).1 hs) ((used slot').1 hs')
  · rw [memory, layout]
    exact h.begins

theorem elsewhere (h : Separate k) (procs : k'.procs = k.procs) (memory : k'.memory = k.memory)
    (layout : k'.layout = k.layout) : Separate k' :=
  h.congr (fun _ => procs ▸ .rfl) (fun _ => procs ▸ rfl) memory layout

/-- A kernel without processes. -/
theorem of_fresh (fresh : Fresh k) (aligned : Vaddr.aligned k.layout.freeRam = true) :
    Separate k := by
  have unused (slot : Slot) : ¬ k.procs.Used slot := by
    rw [fresh.procs]
    exact ProcessTable.not_used_empty slot
  have none : k.roots = ∅ := by
    rw [Set.eq_empty_iff_forall_notMem]
    rintro r ⟨slot, used, -⟩
    exact unused slot used
  refine ⟨?_, fun slot _ used => absurd used (unused slot), fresh.base⟩
  rw [none]
  refine ⟨⟨⟨?_, ?_, ?_⟩, nofun, nofun, nofun⟩, nofun, nofun, nofun⟩
  · rw [fresh.frames]
    exact Vaddr.aligned_iff.1 aligned
  · rw [fresh.frames, fresh.base]
  · rw [fresh.frames, fresh.limit]

theorem start {layout : Layout} (aligned : Vaddr.aligned layout.freeRam = true) (disk : Disk)
    (entry : UInt64) : Separate (start layout disk entry) :=
  .of_fresh (fresh_start layout disk entry) aligned

/-- A new process with a root of its own. -/
theorem install (h : Separate k) {slot : Slot} (free : k.procs.freeSlot = some slot)
    {pid root : UInt32} {savedSp : Option StackPointer} (fresh : root ∉ k.roots)
    (memory : Isolated (insert root k.roots) k'.memory)
    (begins : k'.memory.Begins k'.layout.freeRam)
    (process : ∀ other, k'.procs.process other =
      (k.procs.install slot pid root savedSp).process other) : Separate k' := by
  simp only [ProcessTable.process_install] at process
  have unused := ProcessTable.not_used_of_freeSlot free
  have here : k'.procs.Used slot ∧ (k'.procs.process slot).pageTable = root := by
    rw [ProcessTable.Used, process, if_pos rfl]
    refine ⟨?_, rfl⟩
    intro same
    cases same
  have elsewhere {other : Slot} (ne : other ≠ slot) :
      k'.procs.process other = k.procs.process other := by
    rw [process, if_neg ne.symm]
  have same : k'.roots = insert root k.roots := by
    ext r
    constructor
    · rintro ⟨other, used, rfl⟩
      by_cases new : other = slot
      · subst new
        exact .inl here.2
      · rw [ProcessTable.Used, elsewhere new] at used
        exact .inr ⟨other, used, by rw [elsewhere new]⟩
    · rintro (rfl | ⟨other, used, rfl⟩)
      · exact ⟨slot, here⟩
      · have ne : other ≠ slot := fun same => unused (same ▸ used)
        refine ⟨other, ?_, by rw [elsewhere ne]⟩
        rwa [ProcessTable.Used, elsewhere ne]
  refine ⟨same ▸ memory, fun s s' hs hs' tables => ?_, begins⟩
  have older {other : Slot} (ne : other ≠ slot) (used : k'.procs.Used other) :
      k.procs.Used other ∧
        (k'.procs.process other).pageTable = (k.procs.process other).pageTable := by
    rw [elsewhere ne]
    rw [ProcessTable.Used, elsewhere ne] at used
    exact ⟨used, rfl⟩
  by_cases new : s = slot
  · by_cases new' : s' = slot
    · rw [new, new']
    · obtain ⟨used, table⟩ := older new' hs'
      rw [new, here.2, table] at tables
      exact absurd ⟨s', used, tables.symm⟩ fresh
  · obtain ⟨used, table⟩ := older new hs
    by_cases new' : s' = slot
    · rw [new', here.2, table] at tables
      exact absurd ⟨s, used, tables⟩ fresh
    · obtain ⟨used', table'⟩ := older new' hs'
      rw [table, table'] at tables
      exact h.apart s s' used used' tables

/-- What a new address space leaves in memory. -/
theorem newSpace (h : Separate k) {root : UInt32} {m : Memory}
    (built : newSpace k = .ok root { k with memory := m }) :
    Builds k.roots root k.layout.kernelBase (k.layout.freeRamEnd - k.layout.kernelBase) deviceBase
      k.memory m ∧ m.Begins k.layout.freeRam := by
  unfold Kernel.newSpace at built
  rw [Action.get_bind] at built
  obtain ⟨m', space, same⟩ := onMemory_eq_ok.1 built
  obtain rfl : m = m' := congrArg Kernel.memory same
  refine ⟨Builds.of_done h.memory space, ?_⟩
  have begins : (do
      let root ← Memory.allocPages 1
      Memory.identityMap root k.layout.kernelBase (k.layout.freeRamEnd - k.layout.kernelBase)
        .kernelRwx
      Memory.mapPage root deviceBase deviceBase .kernelRw
      pure root : Action Memory UInt32).Preserves (Begins k.layout.freeRam) := by
    refine Action.preserves_bind (takeFrames_preserves _ _) ?_
    intro root
    refine Action.preserves_bind (identityMap_preserves _ _ _ _) ?_
    intro _
    exact Action.preserves_bind (mapPage_preserves _ _ _ _) fun _ => Action.preserves_pure _
  exact begins.of_ok space h.begins

theorem spawnIdle (h : Separate k) {pid : UInt32} (done : spawnIdle k = .ok pid k') :
    Separate k' := by
  obtain ⟨slot, root, m, log, -, free, built, rfl⟩ := spawnIdle_eq_ok done
  obtain ⟨builds, begins⟩ := h.newSpace built
  exact h.install free builds.fresh builds.isolated begins fun _ => rfl

theorem createProcess (h : Separate k) {image : Bytes} {pid : UInt32}
    (done : createProcess image k = .ok pid k') : Separate k' := by
  obtain ⟨slot, root, m₁, m₂, log, free, built, loaded, -, rfl⟩ := createProcess_eq_ok done
  obtain ⟨builds, begins⟩ := h.newSpace built
  refine h.install free builds.fresh ?_ ?_ fun _ => rfl
  · exact (Loads.of_done builds.isolated (Set.mem_insert _ _) loaded).isolated
  · exact (loadPieces_preserves _ _ _ _).of_ok loaded begins

/-- Changes to bytes of the running process. -/
theorem ownBytes (h : Separate k) (running : k.procs.Used k.procs.current)
    (changes : ChangesOnly (UserByte k.memory k.procs.running.pageTable) k.memory k'.memory)
    (procs : k'.procs = k.procs) (layout : k'.layout = k.layout) : Separate k' := by
  have root := root_mem_roots running
  obtain ⟨isolated, -⟩ := h.memory.of_changesOnly changes fun _ => h.memory.not_tableByte root
  have same : k'.roots = k.roots := by rw [roots, roots, procs]
  refine ⟨same ▸ isolated, procs ▸ h.apart, ?_⟩
  rw [layout, Begins, changes.base]
  exact h.begins

end Separate

/-- What is left of the operations: an exit and the two calls on files. -/
theorem separate_indifferent : Indifferent Separate where
  log _ _ h := h.elsewhere rfl rfl rfl
  console _ _ h := h.elsewhere rfl rfl rfl
  switch slot := by
    refine Action.preserves_modify ?_
    intro k h
    let saved (p : Process) : Process := { p with savedSp := some (k.departed slot).sp }
    have used : ∀ other, (k.procs.update k.procs.current saved).Used other ↔ k.procs.Used other :=
      ProcessTable.used_update_iff .rfl
    have tables : ∀ other, ((k.procs.update k.procs.current saved).process other).pageTable =
        (k.procs.process other).pageTable := ProcessTable.pageTable_update rfl
    exact h.congr used tables rfl rfl

theorem Separate.exit {k : Kernel} (h : Separate k) (running : k.procs.Used k.procs.current) :
    Separate { k with procs := k.procs.exitCurrent } :=
  h.congr (ProcessTable.used_update_iff ⟨fun _ => running, fun _ => nofun⟩)
    (ProcessTable.pageTable_update rfl) rfl rfl

/-! ## Calls on files -/

/-- No page that the buffer of a call meets is mapped but not for user code. -/
def UserBuffer (call : FileCall) (frame : RegisterFile) (k : Kernel) : Prop :=
  UserRange k.memory k.procs.running.pageTable (frame .a1) (bufferLength call frame k)

def ReadsToUser (frame : RegisterFile) (k : Kernel) : Prop :=
  frame .a3 = Syscall.readFile → UserBuffer .readFile frame k

theorem Separate.readFile {frame : RegisterFile} {k : Kernel} (h : Separate k)
    (running : k.procs.Used k.procs.current) (buffer : UserBuffer .readFile frame k) :
    Separate ((readFile (frame .a0) (frame .a1) (frame .a2)).finalState k) := by
  have steps := (throughTables_of_readFile frame k).memory
  obtain ⟨changes, -⟩ := h.memory.changesOnly_of_steps (root_mem_roots running) buffer steps
  obtain ⟨log, data, -, ended⟩ := finalState_readFile frame k
  rw [ended] at changes ⊢
  exact h.ownBytes running changes rfl rfl

theorem Separate.writeFile {frame : RegisterFile} {k : Kernel} (h : Separate k) :
    Separate ((writeFile (frame .a0) (frame .a1) (frame .a2)).finalState k) := by
  rcases finalState_writeFile frame k with ⟨log, ended⟩ | ⟨_, _, _, log, -, -, flush⟩
  · rw [ended]
    exact separate_indifferent.log k log h
  · rcases flush with ⟨flushed, disk, -, ended⟩ | ⟨fault, disk, -, ended⟩ <;> rw [ended] <;>
      exact h.elsewhere rfl rfl rfl

theorem separate_mountFiles : mountFiles.Preserves Separate :=
  mountFiles_preserves separate_indifferent.log
    (fun _ _ h => h.elsewhere rfl rfl rfl)
    (fun _ _ h => h.elsewhere rfl rfl rfl)

theorem Separate.handleTrap {frame : RegisterFile} {k : Kernel} (h : Separate k)
    (running : k.procs.Used k.procs.current) (reads : ReadsToUser frame k) (cause : TrapCause) :
    Separate ((handleTrap frame cause).finalState k) :=
  separate_indifferent.handleTrap h (fun _ => h.exit running)
    (fun asks => h.readFile running (reads asks)) (fun _ => h.writeFile) cause

/-! ## Runs -/

/-- One step of a run of processes: an operation that the kernel does by itself, the exit or a call
of the process that runs, or anything that its code does in its own pages. The calls are those that
are `permitted`. -/
inductive ProcessStep (permitted : RegisterFile → Kernel → Prop) : Kernel → Kernel → Prop where
  | operation {k k' : Kernel} (op : Operation) (stays : op.mayExit = false)
      (next : op.next k = some k') : ProcessStep permitted k k'
  | exit {k k' : Kernel} (running : k.procs.Used k.procs.current)
      (next : Operation.exitCurrent.next k = some k') : ProcessStep permitted k k'
  | call {k k' : Kernel} (frame : RegisterFile) (cause : TrapCause)
      (running : k.procs.Used k.procs.current) (may : permitted frame k)
      (next : (Operation.handleTrap frame cause).next k = some k') : ProcessStep permitted k k'
  | userCode {k k' : Kernel} (running : k.procs.Used k.procs.current)
      (writes : ChangesOnly (UserByte k.memory k.procs.running.pageTable) k.memory k'.memory)
      (procs : k'.procs = k.procs) (layout : k'.layout = k.layout) : ProcessStep permitted k k'

abbrev Run (k k' : Kernel) : Prop := Relation.ReflTransGen (ProcessStep fun _ _ => True) k k'

abbrev UserRun (k k' : Kernel) : Prop := Relation.ReflTransGen (ProcessStep ReadsToUser) k k'

theorem Separate.operation {op : Operation} {k k' : Kernel} (h : Separate k)
    (stays : op.mayExit = false) (next : op.next k = some k') : Separate k' := by
  cases op with
  | mountFiles => exact separate_mountFiles.of_ok (Operation.run_of_next stays next) h
  | spawnIdle =>
    obtain ⟨pid, spawned⟩ := Operation.spawnIdle_of_next next
    exact h.spawnIdle spawned
  | createProcess image =>
    obtain ⟨pid, made⟩ := Operation.createProcess_of_next next
    exact h.createProcess made
  | yieldNow =>
    have switches := yieldNow_preserves separate_indifferent.switch
    exact switches.of_ok (Operation.run_of_next stays next) h
  | exitCurrent => cases stays
  | handleTrap frame cause => cases stays

theorem ProcessStep.separate {k k' : Kernel} (step : ProcessStep ReadsToUser k k')
    (h : Separate k) : Separate k' := by
  cases step with
  | operation op stays next => exact h.operation stays next
  | exit running next =>
    rw [← Operation.finalState_of_next next]
    exact separate_indifferent.exitCurrent (h.exit running)
  | call frame cause running reads next =>
    rw [← Operation.finalState_of_next next, Operation.run, Action.finalState_bind_pure]
    exact h.handleTrap running reads cause
  | userCode running writes procs layout => exact h.ownBytes running writes procs layout

theorem separate_of_run {k k' : Kernel} (run : UserRun k k') (h : Separate k) : Separate k' := by
  induction run with
  | refl => exact h
  | tail _ step ih => exact step.separate ih

/-- A file call concerns pages of the caller's user code only, and these are its own. -/
structure Confined (k k' : Kernel) : Prop where
  memory : ChangesOnly (UserByte k.memory k.procs.running.pageTable) k.memory k'.memory
  files : ∀ f ∈ k'.files.files, f ∈ k.files.files ∨ ∃ old ∈ k.files.files, ∃ data,
    old.overwrite data = .ok f ∧ ∀ (i : Nat) (h : i < data.length),
      ∃ a, UserByte k.memory k.procs.running.pageTable a ∧ data[i] = k.memory.ram.byteAt a
  noKernel : ∀ a, UserByte k.memory k.procs.running.pageTable a → k.layout.freeRam.toNat ≤ a
  noTable : ∀ a, UserByte k.memory k.procs.running.pageTable a → ¬ TableByte k.roots k.memory a
  noOther : ∀ a, UserByte k.memory k.procs.running.pageTable a → ∀ slot, k.procs.Used slot →
    slot ≠ k.procs.current → ¬ UserByte k.memory (k.procs.process slot).pageTable a

theorem Separate.confined {call : FileCall} {frame : RegisterFile} {k k' : Kernel} (h : Separate k)
    (running : k.procs.Used k.procs.current) (buffer : UserBuffer call frame k)
    (through : ThroughTables call frame k k') : Confined k k' := by
  have root := root_mem_roots running
  constructor
  · exact (h.memory.changesOnly_of_steps root buffer through.memory).1
  · intro f hf
    rcases through.files f hf with same | ⟨-, old, stored, data, written, length, bytes⟩
    · exact .inl same
    refine .inr ⟨old, stored, data, written, fun i hi => ?_⟩
    obtain ⟨pa, place, byte⟩ := bytes i hi
    exact ⟨pa.toNat, buffer.userByte ⟨i, length ▸ hi, pa, place, rfl⟩, byte⟩
  · intro a user
    obtain ⟨page, isUser, inPage⟩ := (h.memory.userByte_iff root).1 user
    have base := (h.memory.ready _ root page isUser).base
    rw [h.begins] at base
    exact base.trans inPage.1
  · exact fun a => h.memory.not_tableByte root
  · intro a user slot used other user'
    have same := h.memory.eq_of_userByte root (root_mem_roots used) user user'
    exact other (h.apart slot k.procs.current used running same.symm)

/-- In any state, a file call moves bytes where the tables of its caller lead from the buffer, and
it changes memory only when it reads and files only when it writes. After a run in which reads went
to buffers of user code, a call with such a buffer stays in the pages of its caller's user code,
which belong to no other process, hold no table and lie in no page of the kernel. -/
theorem fileCall_confined {call : FileCall} {frame : RegisterFile}
    (asks : frame .a3 = callNumber call) (cause : TrapCause) (k : Kernel) :
    ThroughTables call frame k ((handleTrap frame cause).finalState k) ∧
      ∀ (layout : Layout) (disk : Disk) (entry : UInt64), Vaddr.aligned layout.freeRam = true →
        UserRun (start layout disk entry) k → k.procs.Used k.procs.current →
          UserBuffer call frame k → Confined k ((handleTrap frame cause).finalState k) := by
  have through := throughTables_of_handleTrap asks cause k
  refine ⟨through, fun layout disk entry aligned run running buffer => ?_⟩
  have separate := separate_of_run run (.start aligned disk entry)
  exact separate.confined running buffer through

theorem run_inReader {permitted : RegisterFile → Kernel → Prop} :
    Relation.ReflTransGen (ProcessStep permitted) (start smallLayout oneFile 0) inReader := by
  obtain ⟨mounted, spawned, made, gave⟩ := next_inReader
  have mount : ProcessStep permitted (start smallLayout oneFile 0) mountedKernel :=
    .operation .mountFiles rfl (Operation.next_of_run mounted)
  have spawn : ProcessStep permitted mountedKernel mountedIdle := .operation .spawnIdle rfl spawned
  have create : ProcessStep permitted mountedIdle withReader := .operation _ rfl made
  have yield : ProcessStep permitted withReader inReader := .operation .yieldNow rfl gave
  exact (((Relation.ReflTransGen.single mount).tail spawn).tail create).tail yield

theorem used_inReader : inReader.procs.Used inReader.procs.current := by
  unfold ProcessTable.Used Process.Used
  decide +kernel

/-- The process reads the file to its page. -/
theorem fileCall_confined_inReader :
    ∃ k', (handleTrap (readTo 0x1000008) ⟨TrapCause.environmentCall, 0, 0⟩).finalState inReader =
        k' ∧ k'.memory.ram.bytes 0x80206008 2 = [1, 2] ∧
      ThroughTables .readFile (readTo 0x1000008) inReader k' ∧ Confined inReader k' := by
  have asks : readTo 0x1000008 .a3 = callNumber .readFile := rfl
  have buffer : UserBuffer .readFile (readTo 0x1000008) inReader := by
    unfold UserBuffer
    decide +kernel
  obtain ⟨through, confined⟩ := fileCall_confined asks ⟨TrapCause.environmentCall, 0, 0⟩ inReader
  refine ⟨_, rfl, by decide +kernel, through, ?_⟩
  exact confined smallLayout oneFile 0 (by decide) run_inReader used_inReader buffer

/-- A read to the kernel's window, which the process has mapped without the flag for user code,
changes the root of the idle process. -/
theorem readFile_overwrites_root :
    Run (start smallLayout oneFile 0) inReader ∧ inReader.procs.Used inReader.procs.current ∧
      readTo 0x80200000 .a3 = Syscall.readFile ∧
      ¬ ChangesOnly (UserByte inReader.memory inReader.procs.running.pageTable) inReader.memory
        ((handleTrap (readTo 0x80200000) ⟨TrapCause.environmentCall, 0, 0⟩).finalState
          inReader).memory ∧
      TableByte inReader.roots inReader.memory 0x80200000 := by
  have changed : ((handleTrap (readTo 0x80200000) ⟨TrapCause.environmentCall, 0, 0⟩).finalState
      inReader).memory.ram.byteAt 0x80200000 ≠ inReader.memory.ram.byteAt 0x80200000 := by
    decide +kernel
  have idle : inReader.procs.Used 0 ∧ (inReader.procs.process 0).pageTable = 0x80200000 := by
    unfold ProcessTable.Used Process.Used
    decide +kernel
  have table : TableByte inReader.roots inReader.memory 0x80200000 :=
    ⟨0x80200000, .inl ⟨0, idle⟩, by unfold InPage; decide⟩
  have separate := separate_of_run run_inReader (.start (by decide) oneFile 0)
  refine ⟨run_inReader, used_inReader, rfl, fun only => ?_, table⟩
  have user := only.bytes 0x80200000 (by decide) changed
  exact separate.memory.not_tableByte (root_mem_roots used_inReader) user table

end PocketKernel.Kernel
