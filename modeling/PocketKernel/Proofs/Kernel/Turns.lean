import Mathlib
import PocketKernel.Kernel.Schedule
import PocketKernel.Proofs.Action
import PocketKernel.Proofs.Process.Table

/-!
# What the operations on processes do

For each operation that makes, switches or ends a process: the state in which it leaves the kernel,
given that it was done. Everything about runs of processes starts from these.
-/
namespace PocketKernel.Kernel
variable {α : Type} {k k' : Kernel}

theorem onMemory_eq_ok {x : Action Memory α} {a : α} :
    onMemory x k = .ok a k' ↔ ∃ m, x k.memory = .ok a m ∧ k' = { k with memory := m } :=
  Action.within_eq_ok

theorem freeSlot_eq_ok {slot : Slot} :
    freeSlot k = .ok slot k' ↔ k.procs.freeSlot = some slot ∧ k' = k := by
  unfold freeSlot
  rw [Action.get_bind]
  cases k.procs.freeSlot with
  | none => exact ⟨nofun, nofun⟩
  | some free =>
    constructor
    · rintro ⟨⟩
      exact ⟨rfl, rfl⟩
    · rintro ⟨⟨⟩, rfl⟩
      rfl

/-- A new address space is built in memory and concerns nothing else. -/
theorem newSpace_eq_ok {root : UInt32} (h : newSpace k = .ok root k') :
    ∃ m, k' = { k with memory := m } := by
  unfold newSpace at h
  rw [Action.get_bind] at h
  obtain ⟨m, -, ended⟩ := onMemory_eq_ok.1 h
  exact ⟨m, ended⟩

theorem spawnIdle_eq_ok {pid : UInt32} (h : spawnIdle k = .ok pid k') :
    ∃ slot root m log, k.procs.idle = none ∧ k.procs.freeSlot = some slot ∧
      newSpace k = .ok root { k with memory := m } ∧
      k' = { k with
        memory := m
        log
        procs := { k.procs.install slot Process.idlePid root none with
          idle := some slot
          current := slot } } := by
  unfold spawnIdle at h
  rw [Action.get_bind] at h
  cases idle : k.procs.idle with
  | some slot =>
    rw [idle] at h
    cases h
  | none =>
    rw [idle] at h
    obtain ⟨slot, k₁, free, taken⟩ := Action.bind_eq_ok.1 h
    obtain ⟨found, rfl⟩ := freeSlot_eq_ok.1 free
    obtain ⟨root, k₂, space, built⟩ := Action.bind_eq_ok.1 taken
    obtain ⟨m, rfl⟩ := newSpace_eq_ok space
    cases built
    exact ⟨slot, root, m, _, rfl, found, space, rfl⟩

theorem createProcess_eq_ok {image : Bytes} {pid : UInt32}
    (h : createProcess image k = .ok pid k') :
    ∃ slot root m₁ m₂ log, k.procs.freeSlot = some slot ∧
      newSpace k = .ok root { k with memory := m₁ } ∧
      Memory.loadImage root userBase image .userRwx m₁ = .ok () m₂ ∧ pid = k.procs.nextPid ∧
      k' = { k with
        memory := m₂
        log
        procs := { k.procs.install slot k.procs.nextPid root (some (Core.seedPlace slot)) with
          nextPid := k.procs.nextPid + 1 }
        core := k.core.seed slot } := by
  unfold createProcess at h
  obtain ⟨slot, k₁, free, taken⟩ := Action.bind_eq_ok.1 h
  obtain ⟨found, rfl⟩ := freeSlot_eq_ok.1 free
  obtain ⟨root, k₂, space, built⟩ := Action.bind_eq_ok.1 taken
  obtain ⟨m₁, rfl⟩ := newSpace_eq_ok space
  obtain ⟨⟨⟩, k₃, load, filled⟩ := Action.bind_eq_ok.1 built
  obtain ⟨m₂, loaded, rfl⟩ := onMemory_eq_ok.1 load
  cases filled
  exact ⟨slot, root, m₁, m₂, _, found, space, loaded, rfl, rfl⟩

/-- The core at a switch to a slot, once what was running is stored. -/
def departed (k : Kernel) (slot : Slot) : Core :=
  ({ k.core.selectSpace (satpOf (k.procs.process slot).pageTable) with
    trapStack := some slot } : Core).suspend

theorem switchTo_eq_ok {slot : Slot} (ne : slot ≠ k.procs.current) :
    switchTo slot k = .ok () k' ↔ k' = { k with
      procs := { k.procs.update k.procs.current fun p =>
          { p with savedSp := some (k.departed slot).sp } with
        current := slot }
      core := (k.departed slot).resume
        ((k.procs.process slot).savedSp.getD ⟨.kernel slot, 0⟩) } := by
  have target := k.procs.process_update k.procs.current slot fun p =>
    { p with savedSp := some (k.departed slot).sp }
  rw [if_neg ne.symm] at target
  rw [← target]
  constructor
  · rintro ⟨⟩
    rfl
  · rintro rfl
    rfl

/-- A yield does nothing or switches. -/
theorem yieldNow_eq_ok :
    yieldNow k = .ok () k' ↔ k.procs.pickNext = k.procs.current ∧ k' = k ∨
      k.procs.pickNext ≠ k.procs.current ∧ switchTo k.procs.pickNext k = .ok () k' := by
  unfold yieldNow
  rw [Action.get_bind]
  split
  next switch =>
    exact ⟨fun h => .inr ⟨switch, h⟩, fun h => h.resolve_left (fun stay => switch stay.1) |>.2⟩
  next stay =>
    rw [ne_eq, not_not] at stay
    constructor
    · rintro ⟨⟩
      exact .inl ⟨stay, rfl⟩
    · rintro (⟨-, rfl⟩ | ⟨switch, -⟩)
      · rfl
      · exact absurd stay switch

/-- A yield is never fatal. -/
theorem exists_yieldNow_eq_ok (k : Kernel) : ∃ k', yieldNow k = .ok () k' := by
  unfold yieldNow
  rw [Action.get_bind]
  split <;> exact ⟨_, rfl⟩

/-- An exit marks the current process, yields, and does not come back. -/
theorem exitCurrent_eq (k : Kernel) :
    ∃ log k', yieldNow { k with log, procs := k.procs.exitCurrent } = .ok () k' ∧
      exitCurrent k = .error .exitedResumed k' := by
  let log := k.log.add (.processExited k.procs.running.pid)
  obtain ⟨k', gave⟩ := exists_yieldNow_eq_ok { k with log, procs := k.procs.exitCurrent }
  refine ⟨log, k', gave, ?_⟩
  have marked : (do yieldNow; throw .exitedResumed : Action Kernel Unit)
      { k with log, procs := k.procs.exitCurrent } = .error .exitedResumed k' :=
    Action.bind_of_ok gave
  exact marked

end PocketKernel.Kernel
