import Mathlib
import PocketKernel.Proofs.Kernel.Isolation

/-!
# Creations of processes

The idle process and the processes with an image are made in the same way: a slot, an address space
of its own, and the pages of the image, of which the idle process has none. A creation leaves the
processes of before as they are, down to each translation and each byte of their user code. Main
statement: `Creates.keeps`.
-/
namespace PocketKernel.Kernel
open Memory Paging TableView

inductive Creates : Kernel → Kernel → Prop where
  | idle {k k' : Kernel} {pid : UInt32} (done : spawnIdle k = .ok pid k') : Creates k k'
  | process {k k' : Kernel} {pid : UInt32} (image : Bytes)
      (done : createProcess image k = .ok pid k') : Creates k k'

abbrev Creations : Kernel → Kernel → Prop := Relation.ReflTransGen Creates

/-- A slot has been given a process with a root of its own and the pages of an image. -/
structure Installs (slot : Slot) (root : UInt32) (image : Bytes) (k k' : Kernel) : Prop where
  unused : ¬ k.procs.Used slot
  table : (k'.procs.process slot).pageTable = root
  other : ∀ other, k.procs.Used other → k'.procs.process other = k.procs.process other
  used : ∀ other, k'.procs.Used other ↔ other = slot ∨ k.procs.Used other
  layout : k'.layout = k.layout
  space : ∃ m, Builds k.roots root k.layout.kernelBase
      (k.layout.freeRamEnd - k.layout.kernelBase) deviceBase k.memory m ∧
    Loads (insert root k.roots) root userBase .userRwx (Bytes.chunks 4095 image) m k'.memory

namespace Installs
variable {k k' : Kernel} {slot : Slot} {root : UInt32} {image : Bytes}

theorem of_built (h : Separate k) (free : k.procs.freeSlot = some slot) {m : Memory}
    (built : newSpace k = .ok root { k with memory := m })
    (loaded : loadImage root userBase image .userRwx m = .ok () k'.memory)
    (layout : k'.layout = k.layout) {pid : UInt32} {savedSp : Option StackPointer}
    (process : ∀ other, k'.procs.process other =
      (k.procs.install slot pid root savedSp).process other) : Installs slot root image k k' := by
  have unused := ProcessTable.not_used_of_freeSlot free
  obtain ⟨builds, -⟩ := h.newSpace built
  have here : k'.procs.process slot = ⟨pid, .runnable, savedSp, root⟩ := by
    rw [process, ProcessTable.process_install, if_pos rfl]
  refine ⟨unused, by rw [here], fun other used => ?_, fun other => ?_, layout, m, builds,
    Loads.of_done builds.isolated (Set.mem_insert _ _) loaded⟩
  · rw [process, ProcessTable.process_install, if_neg]
    rintro rfl
    exact unused used
  · rw [ProcessTable.Used, process, ← ProcessTable.Used, ProcessTable.used_install_iff, eq_comm]

/-- The pages of another process: its leaves and bytes are as they were. -/
theorem leafAt_eq (h : Installs slot root image k k') {r : UInt32} (hr : r ∈ k.roots)
    (va : UInt32) : leafAt k'.memory r va = leafAt k.memory r va := by
  obtain ⟨m, builds, loads⟩ := h.space
  have ne : r ≠ root := fun same => builds.fresh (same ▸ hr)
  rw [loads.other r (Set.mem_insert_of_mem _ hr) va fun inside => ne inside.1, builds.older r hr]

theorem byteAt_eq (h : Installs slot root image k k') {page : UInt32}
    (plain : Plain k.roots k.memory page) {j : Nat} (hj : j < 4096) :
    k'.memory.ram.byteAt (page.toNat + j) = k.memory.ram.byteAt (page.toNat + j) := by
  obtain ⟨m, builds, loads⟩ := h.space
  rw [byteAt_of_spares loads.spares (builds.plain plain) hj]
  exact byteAt_of_words plain.ready.aligned (builds.word plain) (by omega) (by omega)

end Installs

section Creations
variable {k k' : Kernel} {pid : UInt32}

theorem installs_of_spawnIdle (h : Separate k) (done : spawnIdle k = .ok pid k') :
    ∃ slot root, Installs slot root [] k k' := by
  obtain ⟨slot, root, m, log, -, free, built, rfl⟩ := spawnIdle_eq_ok done
  have nothing : loadImage root userBase [] .userRwx m = .ok () m := by
    rw [loadImage, Bytes.chunks]
    rfl
  exact ⟨slot, root, .of_built h free built nothing rfl fun _ => rfl⟩

theorem installs_of_createProcess (h : Separate k) {image : Bytes}
    (done : createProcess image k = .ok pid k') :
    ∃ slot root, k.procs.freeSlot = some slot ∧ (k'.procs.process slot).pid = pid ∧
      Installs slot root image k k' := by
  obtain ⟨slot, root, m₁, m₂, log, free, built, loaded, rfl, rfl⟩ := createProcess_eq_ok done
  refine ⟨slot, root, free, ?_, .of_built h free built loaded rfl fun _ => rfl⟩
  change ((k.procs.install slot k.procs.nextPid root _).process slot).pid = k.procs.nextPid
  rw [ProcessTable.process_install, if_pos rfl]

end Creations

namespace Creates
variable {k k' : Kernel}

/-- All creations are of one kind. -/
theorem installs (step : Creates k k') (h : Separate k) :
    ∃ slot root image, Installs slot root image k k' := by
  cases step with
  | idle done =>
    obtain ⟨slot, root, installs⟩ := installs_of_spawnIdle h done
    exact ⟨slot, root, [], installs⟩
  | process image done =>
    obtain ⟨slot, root, -, -, installs⟩ := installs_of_createProcess h done
    exact ⟨slot, root, image, installs⟩

theorem separate (step : Creates k k') (h : Separate k) : Separate k' := by
  cases step with
  | idle done => exact h.spawnIdle done
  | process image done => exact h.createProcess done

end Creates

structure KeepsProcesses (k k' : Kernel) : Prop where
  used : ∀ slot, k.procs.Used slot → k'.procs.Used slot
  process : ∀ slot, k.procs.Used slot → k'.procs.process slot = k.procs.process slot
  translate : ∀ slot, k.procs.Used slot → ∀ va,
    k'.memory.translate (k.procs.process slot).pageTable va =
      k.memory.translate (k.procs.process slot).pageTable va
  leafFlags : ∀ slot, k.procs.Used slot → ∀ va,
    k'.memory.leafFlags (k.procs.process slot).pageTable va =
      k.memory.leafFlags (k.procs.process slot).pageTable va
  byte : ∀ slot, k.procs.Used slot → ∀ a, UserByte k.memory (k.procs.process slot).pageTable a →
    k'.memory.ram.byteAt a = k.memory.ram.byteAt a

theorem Creates.keeps {k k' : Kernel} (step : Creates k k') (h : Separate k) :
    KeepsProcesses k k' := by
  obtain ⟨slot, root, image, installs⟩ := step.installs h
  obtain ⟨m, builds, loads⟩ := installs.space
  have forest := h.memory.forest
  have later := loads.isolated.forest
  refine ⟨fun other used => (installs.used other).2 (.inr used), installs.other,
    fun other used va => ?_, fun other used va => ?_, fun other used a user => ?_⟩
  · have old := root_mem_roots used
    rw [Memory.translate, Memory.translate, forest.translate_eq old,
      later.translate_eq (Set.mem_insert_of_mem _ old), installs.leafAt_eq old]
  · have old := root_mem_roots used
    rw [Memory.leafFlags, Memory.leafFlags, forest.leafFlags_eq old,
      later.leafFlags_eq (Set.mem_insert_of_mem _ old), installs.leafAt_eq old]
  · have old := root_mem_roots used
    obtain ⟨page, isUser, low, high⟩ := (h.memory.userByte_iff old).1 user
    have plain : Plain k.roots k.memory page :=
      ⟨h.memory.ready _ old page isUser, h.memory.noTable _ old page isUser⟩
    have same := installs.byteAt_eq plain (j := a - page.toNat) (by omega)
    rwa [Nat.add_sub_cancel' low] at same

/-- What every run of creations from a fresh kernel leaves. -/
theorem separate_of_creations {k₀ k : Kernel} (fresh : Fresh k₀)
    (aligned : Vaddr.aligned k₀.layout.freeRam = true) (run : Creations k₀ k) :
    Separate k ∧ k.layout = k₀.layout := by
  induction run with
  | refl => exact ⟨.of_fresh fresh aligned, rfl⟩
  | tail _ step ih =>
    obtain ⟨separate, same⟩ := ih
    obtain ⟨slot, root, image, installs⟩ := step.installs separate
    exact ⟨step.separate separate, installs.layout.trans same⟩

def smallIdle : Kernel := Action.finalState spawnIdle (start smallLayout (.blank 0) 0)

def smallTwoBytes : Kernel := Action.finalState (createProcess [0x61, 0x62]) smallIdle

theorem creations_smallIdle : Creations (start smallLayout (.blank 0) 0) smallIdle := by
  obtain ⟨_, spawned⟩ : ∃ pid, spawnIdle (start smallLayout (.blank 0) 0) = .ok pid smallIdle :=
    Action.exists_ok_of_answers (by decide +kernel)
  exact .single (.idle spawned)

theorem createProcess_smallIdle :
    ∃ pid, createProcess [0x61, 0x62] smallIdle = .ok pid smallTwoBytes :=
  Action.exists_ok_of_answers (by decide +kernel)

end PocketKernel.Kernel
