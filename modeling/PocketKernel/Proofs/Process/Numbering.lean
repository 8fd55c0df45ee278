import Mathlib
import PocketKernel.Proofs.Process.Table

/-!
# Slots and numbers in order

Slots are taken in order and numbers are given in order. In a table that began with the idle process
both run side by side, so a process has the number of its slot (`Numbered`). Everything about which
process is found under which number follows from that.
-/
namespace PocketKernel

inductive ProcessState.Moves : ProcessState → ProcessState → Prop where
  | begins : Moves .unused .runnable
  | ends : Moves .runnable .exited

namespace ProcessTable
variable {t : ProcessTable} {slot : Slot}

/-- The idle process came first, and every further process took the next slot and the next
number. -/
structure Numbered (t : ProcessTable) : Prop where
  idle : t.idle = some 0
  begun : 0 < t.nextPid.toNat
  room : t.nextPid.toNat ≤ slotCount
  used_iff : ∀ slot, t.Used slot ↔ slot.val < t.nextPid.toNat
  pid : ∀ slot, t.Used slot → (t.process slot).pid.toNat = slot.val
  current : t.Used t.current

theorem freeSlot_eq_some :
    t.freeSlot = some slot ↔
      ¬ t.Used slot ∧ ∀ other : Slot, other.val < slot.val → t.Used other := by
  have unused (other : Slot) : ((t.process other).state == .unused) = true ↔ ¬ t.Used other := by
    simp [Used, Process.Used]
  unfold freeSlot allSlots
  rw [List.find?_eq_some_iff_getElem, unused]
  refine and_congr_right fun _ => ⟨?_, fun before => ?_⟩
  · rintro ⟨i, hi, rfl, before⟩ other less
    have first := before other.val (by simpa using less)
    simpa [unused, Used, Process.Used] using first
  · refine ⟨slot.val, by simp, by simp, fun i hi => ?_⟩
    have taken := before ⟨i, by omega⟩ hi
    simpa [Used, Process.Used] using taken

namespace Numbered

theorem used_idle (h : t.Numbered) : t.Used 0 := (h.used_iff 0).2 h.begun

theorem pid_idle (h : t.Numbered) : (t.process 0).pid = Process.idlePid := by
  rw [← UInt32.toNat_inj, h.pid 0 h.used_idle]
  rfl

theorem eq_of_pid_eq (h : t.Numbered) {slot other : Slot} (used : t.Used slot)
    (used' : t.Used other) (same : (t.process slot).pid = (t.process other).pid) :
    slot = other := by
  rw [Fin.ext_iff, ← h.pid slot used, ← h.pid other used', same]

theorem freeSlot (h : t.Numbered) (free : t.freeSlot = some slot) :
    slot.val = t.nextPid.toNat := by
  obtain ⟨unused, before⟩ := freeSlot_eq_some.1 free
  rw [h.used_iff] at unused
  refine (Nat.not_lt.1 unused).antisymm' ?_
  by_contra beyond
  have taken := before ⟨t.nextPid.toNat, by omega⟩ (Nat.not_le.1 beyond)
  exact lt_irrefl _ ((h.used_iff _).1 taken)

/-- A process is found under its number. -/
theorem find_eq (h : t.Numbered) (used : t.Used slot) {pid : UInt32}
    (same : (t.process slot).pid = pid) : t.find pid = some (t.process slot) := by
  subst same
  unfold ProcessTable.find
  rw [List.find?_eq_some_iff_getElem]
  refine ⟨by simpa [Used, Process.Used] using used, slot.val, by simp, rfl, fun i hi => ?_⟩
  change (!((t.process ⟨i, by omega⟩).state != .unused &&
    (t.process ⟨i, by omega⟩).pid == (t.process slot).pid)) = true
  by_contra both
  obtain ⟨used', same⟩ : t.Used ⟨i, by omega⟩ ∧ (t.process ⟨i, by omega⟩).pid =
      (t.process slot).pid := by
    simpa [Used, Process.Used] using both
  have := congrArg Fin.val (h.eq_of_pid_eq used' used same)
  exact hi.ne this

/-- Ready are the runnable processes but the idle one. -/
theorem isReady_iff (h : t.Numbered) :
    (t.process slot).isReady = true ↔
      (t.process slot).state = .runnable ∧ t.idle ≠ some slot := by
  rw [h.idle]
  constructor
  · intro ready
    simp only [Process.isReady, Process.isIdle, Bool.and_eq_true, beq_iff_eq] at ready
    refine ⟨ready.1, ?_⟩
    rintro ⟨⟩
    simp [h.pid_idle, ready.1] at ready
  · rintro ⟨runnable, other⟩
    have used : t.Used slot := by simp [Used, Process.Used, runnable]
    have pid : (t.process slot).pid ≠ Process.idlePid := by
      intro same
      exact other (congrArg some (h.eq_of_pid_eq h.used_idle used (h.pid_idle.trans same.symm)))
    simp [Process.isReady, Process.isIdle, runnable, pid]

/-- Slots, numbers and use are what matters. -/
theorem congr (h : t.Numbered) {t' : ProcessTable} (idle : t'.idle = t.idle)
    (nextPid : t'.nextPid = t.nextPid) (used : ∀ slot, t'.Used slot ↔ t.Used slot)
    (pid : ∀ slot, (t'.process slot).pid = (t.process slot).pid) (current : t.Used t'.current) :
    t'.Numbered where
  idle := idle.trans h.idle
  begun := nextPid ▸ h.begun
  room := nextPid ▸ h.room
  used_iff slot := by rw [used, nextPid, h.used_iff]
  pid slot taken := by rw [pid, h.pid slot ((used slot).1 taken)]
  current := (used _).2 current

/-- The next process takes the next slot. -/
theorem install (h : t.Numbered) (free : t.freeSlot = some slot) (pageTable : UInt32)
    (savedSp : Option StackPointer) :
    Numbered { t.install slot t.nextPid pageTable savedSp with nextPid := t.nextPid + 1 } := by
  have place := h.freeSlot free
  have small : t.nextPid.toNat + 1 < 4294967296 := by have := h.room; omega
  have next : (t.nextPid + 1).toNat = t.nextPid.toNat + 1 := by
    rw [UInt32.toNat_add]
    exact Nat.mod_eq_of_lt small
  let t' : ProcessTable :=
    { t.install slot t.nextPid pageTable savedSp with nextPid := t.nextPid + 1 }
  have process (other : Slot) : t'.process other =
      if slot = other then ⟨t.nextPid, .runnable, savedSp, pageTable⟩ else t.process other :=
    t.process_install slot other _ _ _
  have used (other : Slot) : t'.Used other ↔ slot = other ∨ t.Used other := used_install_iff
  refine ⟨h.idle, ?_, ?_, fun other => ?_, fun other taken => ?_, (used _).2 (.inr h.current)⟩
  · change 0 < (t.nextPid + 1).toNat
    omega
  · have := slot.isLt
    change (t.nextPid + 1).toNat ≤ 8
    omega
  · change t'.Used other ↔ other.val < (t.nextPid + 1).toNat
    rw [used, h.used_iff, next, Fin.ext_iff]
    omega
  · change (t'.process other).pid.toNat = other.val
    rw [process]
    split
    next same => exact same ▸ place.symm
    next other' => exact h.pid other (((used other).1 taken).resolve_left other')

end Numbered

structure SameProcesses (t t' : ProcessTable) : Prop where
  idle : t'.idle = t.idle
  nextPid : t'.nextPid = t.nextPid
  pid : ∀ slot, (t'.process slot).pid = (t.process slot).pid
  state : ∀ slot, (t'.process slot).state = (t.process slot).state
  pageTable : ∀ slot, (t'.process slot).pageTable = (t.process slot).pageTable

namespace SameProcesses
variable {t' : ProcessTable}

theorem refl (t : ProcessTable) : t.SameProcesses t :=
  ⟨rfl, rfl, fun _ => rfl, fun _ => rfl, fun _ => rfl⟩

theorem used_iff (h : t.SameProcesses t') (slot : Slot) : t'.Used slot ↔ t.Used slot := by
  rw [Used, Process.Used, h.state, Used, Process.Used]

theorem isReady (h : t.SameProcesses t') (slot : Slot) :
    (t'.process slot).isReady = (t.process slot).isReady := by
  simp only [Process.isReady, Process.isIdle, h.state, h.pid]

theorem toExtends (h : t.SameProcesses t') : t.Extends t' :=
  ⟨fun used => (h.used_iff _).2 used, fun _ => h.pid _⟩

theorem numbered (h : t.SameProcesses t') (before : t.Numbered) (current : t.Used t'.current) :
    t'.Numbered :=
  before.congr h.idle h.nextPid h.used_iff h.pid current

end SameProcesses

/-- The turn can only pass to a process. -/
theorem Numbered.used_pickNext (h : t.Numbered) : t.Used t.pickNext := by
  refine ProcessTable.used_pickNext h.current ?_
  intro slot found
  rw [h.idle] at found
  cases found
  exact h.used_idle

end ProcessTable

end PocketKernel
