import Mathlib
import PocketKernel.Proofs.Kernel.Fairness

/-!
# Whom a yield chooses

A yield chooses the first waiting slot behind the current one, around the end of the table, and the
idle process where no slot waits (`chooses_pickNext`). The choice needs neither that the current
process can run nor that it is the same as before, so the yield inside an exit is a case of it: the
process that was marked is no longer chosen, and no later yield chooses it. Main statement:
`selection_after_schedule`.
-/
namespace PocketKernel.Kernel
open ProcessTable
variable {k k' : Kernel} {slot : Slot}

/-- The slot waits, and none waits between the current one and it. A whole round leads to the
current slot itself. -/
def FirstWaiting (k : Kernel) (slot : Slot) : Prop :=
  ∃ offset, 0 < offset ∧ offset ≤ slotCount ∧ after k.procs.current offset = slot ∧
    Waits k slot ∧ ∀ less, 0 < less → less < offset → ¬ Waits k (after k.procs.current less)

def Chooses (k : Kernel) (slot : Slot) : Prop :=
  FirstWaiting k slot ∨ k.procs.idle = some slot ∧ ∀ other, ¬ Waits k other

structure HandsOver (k k' : Kernel) : Prop where
  away : k'.procs.current ≠ k.procs.current
  runnable : (k.procs.process k'.procs.current).state = .runnable
  chosen : Chooses k k'.procs.current
  switch : switchTo k'.procs.current k = .ok () k'
  told : Switched k k'

/-! ## The choice -/

theorem exists_after : ∀ slot other : Slot,
    ∃ offset, 0 < offset ∧ offset ≤ slotCount ∧ after slot offset = other := by
  intro slot other
  have place : ∀ slot other : Slot, ∃ i : Fin slotCount, after slot (i.val + 1) = other := by decide
  obtain ⟨i, here⟩ := place slot other
  exact ⟨i.val + 1, Nat.succ_pos _, i.isLt, here⟩

/-- Only a whole round leads back. -/
theorem eq_slotCount_of_after_eq_self {offset : Nat} (pos : 0 < offset)
    (round : offset ≤ slotCount) (back : after slot offset = slot) : offset = slotCount := by
  have same := congrArg Fin.val back
  have small := slot.isLt
  simp only [after, slotCount] at same small round ⊢
  omega

theorem chooses_pickNext (h : k.procs.Numbered) : Chooses k k.procs.pickNext := by
  unfold pickNext
  cases found : k.procs.candidates.find? fun slot => (k.procs.process slot).isReady with
  | some slot =>
    obtain ⟨ready, i, inside, here, passed⟩ := List.find?_eq_some_iff_getElem.1 found
    have length : k.procs.candidates.length = slotCount := by simp [candidates]
    have place (j : Nat) (hj : j < k.procs.candidates.length) :
        k.procs.candidates[j] = after k.procs.current (j + 1) := by
      simp [candidates]
    refine .inl ⟨i + 1, Nat.succ_pos i, by omega, (place i inside).symm.trans here,
      (waits_iff h).2 ready, fun less pos before waits => ?_⟩
    have skipped := passed (less - 1) (by omega)
    rw [place, Nat.sub_add_cancel pos, (waits_iff h).1 waits] at skipped
    cases skipped
  | none =>
    refine .inr ⟨by rw [h.idle]; rfl, fun other waits => ?_⟩
    exact List.find?_eq_none.1 found other (mem_candidates _ other) ((waits_iff h).1 waits)

/-- The choice falls on the current slot if its process can run and no other slot waits. -/
theorem pickNext_eq_current_iff (h : k.procs.Numbered)
    (idle : (k.procs.process 0).state = .runnable) :
    k.procs.pickNext = k.procs.current ↔
      k.procs.running.state = .runnable ∧ ∀ slot ≠ k.procs.current, ¬ Waits k slot := by
  have chosen := chooses_pickNext h
  constructor
  · intro stays
    refine ⟨?_, fun slot ne waits => ?_⟩
    · rw [running, ← stays]
      exact state_pickNext h idle
    rw [stays] at chosen
    rcases chosen with ⟨offset, pos, round, back, -, passed⟩ | ⟨-, none⟩
    · obtain ⟨less, pos', round', rfl⟩ := exists_after k.procs.current slot
      rcases round'.lt_or_eq with short | whole
      · rw [eq_slotCount_of_after_eq_self pos round back] at passed
        exact passed less pos' short waits
      · rw [eq_slotCount_of_after_eq_self pos round back, ← whole] at back
        exact ne back
    · exact none slot waits
  · rintro ⟨runnable, others⟩
    by_contra moves
    rcases chosen with ⟨-, -, -, -, waits, -⟩ | ⟨isIdle, none⟩
    · exact others _ moves waits
    · have busy : k.procs.idle ≠ some k.procs.current := by
        rw [isIdle]
        exact fun same => moves (Option.some.inj same)
      exact none _ ⟨runnable, busy⟩

theorem yieldNow_eq_self_iff (h : k.procs.Numbered)
    (idle : (k.procs.process 0).state = .runnable) :
    yieldNow k = .ok () k ↔
      k.procs.running.state = .runnable ∧ ∀ slot ≠ k.procs.current, ¬ Waits k slot := by
  rw [← pickNext_eq_current_iff h idle]
  constructor
  · intro gave
    exact (sameProcesses_of_yieldNow gave).2.symm
  · intro stays
    exact yieldNow_eq_ok.2 (.inl ⟨stays, rfl⟩)

theorem handsOver_of_moves (h : k.procs.Numbered) (idle : (k.procs.process 0).state = .runnable)
    (moves : k.procs.pickNext ≠ k.procs.current) (gave : yieldNow k = .ok () k') :
    HandsOver k k' := by
  have current := (sameProcesses_of_yieldNow gave).2
  have away : k'.procs.current ≠ k.procs.current := current ▸ moves
  refine ⟨away, ?_, ?_, ?_, ?_⟩
  · rw [current]
    exact state_pickNext h idle
  · rw [current]
    exact chooses_pickNext h
  · rw [current]
    exact ((yieldNow_eq_ok.1 gave).resolve_left fun stays => moves stays.1).2
  · refine (switched_of_yieldNow gave).resolve_left fun same => away ?_
    rw [same]

/-- A process that ends leaves its turn to another one. -/
theorem Settled.handsOver_of_exit {count : Nat} (h : Settled count k) (busy : Busy k) :
    ∃ log k', exitCurrent k = .error .exitedResumed k' ∧
      HandsOver { k with log, procs := k.procs.exitCurrent } k' ∧
      (k'.procs.process k.procs.current).state = .exited := by
  obtain ⟨log, k', gave, ended⟩ := exitCurrent_eq k
  have steady := h.exit busy log
  have marked : (k.procs.exitCurrent.process k.procs.current).state = .exited := by
    rw [process_exitCurrent, if_pos rfl]
  have moves : k.procs.exitCurrent.pickNext ≠ k.procs.current := by
    intro stays
    have runnable := ((pickNext_eq_current_iff steady.numbered steady.idle).1 stays).1
    cases runnable.symm.trans marked
  refine ⟨log, k', ended, handsOver_of_moves steady.numbered steady.idle moves gave, ?_⟩
  rw [(sameProcesses_of_yieldNow gave).1.state]
  exact marked

/-! ## What has ended is not chosen again -/

theorem Settled.exited {count : Nat} (h : Settled count k) {event : Event}
    (happens : Happens Busy event k k') (ended : (k.procs.process slot).state = .exited) :
    (k'.procs.process slot).state = .exited := by
  rcases h.moves happens slot with same | moved
  · exact same.trans ended
  · rw [ended] at moved
    cases moved

theorem Settled.exited_of_course {count : Nat} (h : Settled count k)
    {course : List (Event × Kernel)} (run : Course Busy k course)
    (ended : (k.procs.process slot).state = .exited) :
    ∀ p ∈ course, (p.2.procs.process slot).state = .exited ∧ p.2.procs.current ≠ slot := by
  induction run with
  | nil => nofun
  | @cons k k' event rest happens course ih =>
    have settled := h.happens happens
    have ended' := h.exited happens ended
    refine List.forall_mem_cons.2 ⟨⟨ended', ?_⟩, ih settled ended'⟩
    rintro rfl
    have runnable := settled.current
    rw [running, ended'] at runnable
    cases runnable

/-- In every state of a run that begins with the idle process and in which that process does not
end: a yield does nothing if the current process can run and no other slot waits, and otherwise it
hands over to the first waiting slot behind the current one, or to the idle process where none
waits. An exit always hands over, and a slot whose process has ended is current in no state of any
continuation. -/
theorem selection_after_schedule {k₀ k₁ k : Kernel} {idlePid : UInt32} (fresh : k₀.procs = .empty)
    (spawned : spawnIdle k₀ = .ok idlePid k₁) (run : Schedule Busy k₁ k) :
    (yieldNow k = .ok () k ↔
      k.procs.running.state = .runnable ∧ ∀ slot ≠ k.procs.current, ¬ Waits k slot) ∧
    (¬ (k.procs.running.state = .runnable ∧ ∀ slot ≠ k.procs.current, ¬ Waits k slot) →
      ∃ k', yieldNow k = .ok () k' ∧ HandsOver k k') ∧
    (Busy k → ∃ log k', exitCurrent k = .error .exitedResumed k' ∧
      HandsOver { k with log, procs := k.procs.exitCurrent } k' ∧
      (k'.procs.process k.procs.current).state = .exited) ∧
    ∀ slot, (k.procs.process slot).state = .exited → ∀ course, Course Busy k course →
      ∀ p ∈ course, (p.2.procs.process slot).state = .exited ∧ p.2.procs.current ≠ slot := by
  have settled := settled_of_schedule fresh spawned run
  refine ⟨yieldNow_eq_self_iff settled.numbered settled.idle, fun moves => ?_,
    settled.handsOver_of_exit, fun slot ended course after => settled.exited_of_course after ended⟩
  rw [← pickNext_eq_current_iff settled.numbered settled.idle] at moves
  obtain ⟨k', gave⟩ := exists_yieldNow_eq_ok k
  exact ⟨k', gave, handsOver_of_moves settled.numbered settled.idle moves gave⟩

def roomyTurn : Kernel := Action.finalState yieldNow roomySecond

def roomyLast : Kernel := Action.finalState exitCurrent roomyTurn

theorem selection_after_schedule_roomyLast :
    ∃ idlePid, roomyKernel.procs = .empty ∧ spawnIdle roomyKernel = .ok idlePid roomyIdle ∧
      Schedule Busy roomyIdle roomyLast ∧ yieldNow roomyLast = .ok () roomyLast ∧
      (∃ log k', exitCurrent roomyLast = .error .exitedResumed k' ∧
        HandsOver { roomyLast with log, procs := roomyLast.procs.exitCurrent } k' ∧
        (k'.procs.process roomyLast.procs.current).state = .exited) ∧
      ∀ course, Course Busy roomyLast course →
        ∀ p ∈ course, (p.2.procs.process 1).state = .exited ∧ p.2.procs.current ≠ 1 := by
  obtain ⟨idlePid, spawned, created⟩ := run_roomySecond Busy
  have gave : yieldNow roomySecond = .ok () roomyTurn := by
    obtain ⟨k', gave⟩ := exists_yieldNow_eq_ok roomySecond
    rw [roomyTurn, Action.finalState_of_ok gave]
    exact gave
  have busyTurn : Busy roomyTurn := by
    unfold Busy
    decide +kernel
  have ended : exitCurrent roomyTurn = .error .exitedResumed roomyLast := by
    obtain ⟨-, k', -, ended⟩ := exitCurrent_eq roomyTurn
    rw [ended, roomyLast, Action.finalState_of_error ended]
  have fresh : roomyKernel.procs = .empty := rfl
  have run : Schedule Busy roomyIdle roomyLast :=
    (created.step (.yield gave)).step (.exit busyTurn ended)
  have alone : roomyLast.procs.running.state = .runnable ∧
      ∀ slot ≠ roomyLast.procs.current, ¬ Waits roomyLast slot := by
    unfold Waits
    decide +kernel
  have busy : Busy roomyLast := by
    unfold Busy
    decide +kernel
  have first : (roomyLast.procs.process 1).state = .exited := by decide +kernel
  obtain ⟨stays, -, exits, later⟩ := selection_after_schedule fresh spawned run
  exact ⟨idlePid, fresh, spawned, run, stays.2 alone, exits busy, later 1 first⟩

end PocketKernel.Kernel
