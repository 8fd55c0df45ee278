import Mathlib
import PocketKernel.Process.Table

/-!
# Slots of the process table

A slot that is in use stays with its process: `Extends` says that a later table has every process of
an earlier one, under the same number. What is installed or switched to is found by `freeSlot` and
`pickNext`, and both look where they should.
-/
namespace PocketKernel

namespace Process

/-- The slot of the process was taken, be it that the process has exited since. -/
def Used (p : Process) : Prop := p.state ≠ .unused

theorem used_of_isReady {p : Process} (h : p.isReady = true) : p.Used := by
  intro unused
  simp [isReady, unused] at h

end Process

namespace ProcessTable

def Used (t : ProcessTable) (slot : Slot) : Prop := (t.process slot).Used

theorem process_install (t : ProcessTable) (slot other : Slot) (pid pageTable : UInt32)
    (savedSp : Option StackPointer) :
    (t.install slot pid pageTable savedSp).process other =
      if slot = other then ⟨pid, .runnable, savedSp, pageTable⟩ else t.process other :=
  t.process_update slot other fun _ => ⟨pid, .runnable, savedSp, pageTable⟩

theorem used_install_iff {t : ProcessTable} {slot other : Slot} {pid pageTable : UInt32}
    {savedSp : Option StackPointer} :
    (t.install slot pid pageTable savedSp).Used other ↔ slot = other ∨ t.Used other := by
  rw [Used, process_install]
  split
  next same => simp [Process.Used, same]
  next other' => simp [Used, other']

theorem used_update_iff {t : ProcessTable} {slot : Slot} {f : Process → Process}
    (same : (f (t.process slot)).Used ↔ (t.process slot).Used) (other : Slot) :
    (t.update slot f).Used other ↔ t.Used other := by
  rw [Used, process_update]
  split
  next here => exact here ▸ same
  next => exact .rfl

theorem pageTable_update {t : ProcessTable} {slot : Slot} {f : Process → Process}
    (same : (f (t.process slot)).pageTable = (t.process slot).pageTable) (other : Slot) :
    ((t.update slot f).process other).pageTable = (t.process other).pageTable := by
  rw [process_update]
  split
  next here => exact here ▸ same
  next => rfl

theorem not_used_empty (slot : Slot) : ¬ empty.Used slot := by
  simp [Used, Process.Used, process, empty, PerSlot.value, Process.unused]

theorem not_used_of_freeSlot {t : ProcessTable} {slot : Slot} (h : t.freeSlot = some slot) :
    ¬ t.Used slot := by
  have found := List.find?_some h
  simpa [Used, Process.Used] using found

/-- A yield goes to a process, given that the current one and the idle one are processes. -/
theorem used_pickNext {t : ProcessTable} (current : t.Used t.current)
    (idle : ∀ slot, t.idle = some slot → t.Used slot) : t.Used t.pickNext := by
  unfold pickNext
  split
  next slot found =>
    have ready := List.find?_some found
    exact Process.used_of_isReady ready
  next =>
    cases h : t.idle with
    | none => exact current
    | some slot => exact idle slot h

structure Extends (t t' : ProcessTable) : Prop where
  used : ∀ {slot}, t.Used slot → t'.Used slot
  pid : ∀ {slot}, t.Used slot → (t'.process slot).pid = (t.process slot).pid

theorem Extends.refl (t : ProcessTable) : t.Extends t := ⟨id, fun _ => rfl⟩

theorem Extends.trans {t t' t'' : ProcessTable} (h : t.Extends t') (h' : t'.Extends t'') :
    t.Extends t'' :=
  ⟨fun used => h'.used (h.used used), fun used => (h'.pid (h.used used)).trans (h.pid used)⟩

/-- Processes that stay as they are. -/
theorem extends_of_process {t t' : ProcessTable}
    (same : ∀ slot, t.Used slot → t'.process slot = t.process slot) : t.Extends t' := by
  constructor <;> intro slot hs
  · rw [Used, same slot hs]
    exact hs
  · rw [same slot hs]

/-- A change of one process that keeps number and use. -/
theorem extends_of_update {t t' : ProcessTable} {slot : Slot} {f : Process → Process}
    (process : ∀ other, t'.process other =
      if slot = other then f (t.process slot) else t.process other)
    (used : ∀ p, p.Used → (f p).Used) (pid : ∀ p, (f p).pid = p.pid) : t.Extends t' := by
  constructor <;> intro s hs
  · rw [Used, process]
    split
    next same =>
      subst same
      exact used _ hs
    next => exact hs
  · rw [process]
    split
    next same => rw [pid, same]
    next => rfl

theorem extends_exitCurrent (t : ProcessTable) : t.Extends t.exitCurrent := by
  let exited (p : Process) : Process := { p with state := .exited }
  have used : ∀ p, p.Used → (exited p).Used := by
    intro p _ h
    cases h
  exact extends_of_update (fun other => t.process_update t.current other exited) used fun _ => rfl

end ProcessTable

end PocketKernel
