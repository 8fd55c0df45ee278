import Mathlib
import PocketKernel.Proofs.Kernel.Events
import PocketKernel.Proofs.Kernel.Restoration

/-!
# The life of the process table

From the idle process on, every operation leaves the table in order and the core set up for the
process that runs. An exit breaks one part of this for a moment: the process that it marks is still
the current one until the yield has found another, so what a yield needs (`Steady`) says nothing of
the state of the current process. Main statement: `table_after_schedule`.
-/
namespace PocketKernel.Kernel
open ProcessTable
variable {k k' : Kernel}

def Busy (k : Kernel) : Prop := k.procs.idle ≠ some k.procs.current

/-- The processes stand in the first slots under growing numbers. One of them is the idle process,
which can always run, and one that can run is running. -/
structure Orderly (k : Kernel) : Prop where
  idle : ∃ slot, k.procs.idle = some slot ∧ (k.procs.process slot).state = .runnable ∧
    ∀ other, k.procs.Used other → ((k.procs.process other).pid = Process.idlePid ↔ other = slot)
  packed : ∃ count, ∀ slot, k.procs.Used slot ↔ slot.val < count
  increasing : ∀ slot other, k.procs.Used slot → k.procs.Used other → slot < other →
    (k.procs.process slot).pid < (k.procs.process other).pid
  current : k.procs.running.state = .runnable

/-- The core was last told the address space and the trap stack of the process that runs, if there
were more than `count` switches. -/
def Told (count : Nat) (k : Kernel) : Prop :=
  count < k.core.switches →
    k.core.satps.toList.getLast? = some (satpOf k.procs.running.pageTable) ∧
      k.core.trapStack = some k.procs.current

structure Owns (k : Kernel) (pid : UInt32) (slot : Slot) : Prop where
  number : (k.procs.process slot).pid = pid
  found : k.procs.find pid = some (k.procs.process slot)
  unrepeated : ∀ image other k', createProcess image k = .ok other k' → other ≠ pid

theorem owns_of_numbered (h : k.procs.Numbered) {slot : Slot} (used : k.procs.Used slot) :
    Owns k (k.procs.process slot).pid slot := by
  refine ⟨rfl, h.find_eq used rfl, fun image other k' made same => ?_⟩
  obtain ⟨-, -, -, rfl, -⟩ := procs_of_createProcess made
  have number := h.pid slot used
  rw [← same] at number
  exact ((h.used_iff slot).1 used).ne number.symm

theorem extends_of_happens {mayExit : Kernel → Prop} {event : Event}
    (happens : Happens mayExit event k k') : k.procs.Extends k'.procs := by
  cases happens with
  | create made =>
    obtain ⟨slot, root, savedSp, -, free, procs⟩ := procs_of_createProcess made
    refine extends_of_process fun other used => ?_
    have ne : slot ≠ other := by
      rintro rfl
      exact not_used_of_freeSlot free used
    rw [procs]
    exact (k.procs.process_install slot other _ _ _).trans (if_neg ne)
  | yield gave => exact (sameProcesses_of_yieldNow gave).1.toExtends
  | exit _ ended =>
    obtain ⟨log, gave⟩ := yieldNow_of_exitCurrent ended
    exact k.procs.extends_exitCurrent.trans (sameProcesses_of_yieldNow gave).1.toExtends
  | elsewhere procs => exact procs ▸ .refl _

theorem extends_of_steps {mayExit : Kernel → Prop} (run : Steps mayExit k k') :
    k.procs.Extends k'.procs := by
  induction run with
  | refl => exact .refl _
  | tail _ step ih =>
    obtain ⟨event, happens⟩ := step
    exact ih.trans (extends_of_happens happens)

/-! ## The turn is with a process that can run -/

structure Steady (count : Nat) (k : Kernel) : Prop where
  numbered : k.procs.Numbered
  idle : (k.procs.process 0).state = .runnable
  told : Told count k

structure Settled (count : Nat) (k : Kernel) : Prop extends Steady count k where
  current : k.procs.running.state = .runnable

theorem state_pickNext {t : ProcessTable} (h : t.Numbered)
    (idle : (t.process 0).state = .runnable) : (t.process t.pickNext).state = .runnable := by
  unfold pickNext
  split
  next slot found =>
    have ready := List.find?_some found
    exact (h.isReady_iff.1 ready).1
  next =>
    rw [h.idle]
    exact idle

theorem Told.switched {count : Nat} (switched : Switched k k') : Told count k' := by
  intro _
  rw [switched.satps, Transcript.toList_push, List.getLast?_append]
  exact ⟨rfl, switched.trapStack⟩

/-- The yield finds a process that can run, even if the current one cannot any more. -/
theorem Steady.yield {count : Nat} (h : Steady count k) (gave : yieldNow k = .ok () k') :
    Settled count k' := by
  obtain ⟨same, current⟩ := sameProcesses_of_yieldNow gave
  refine ⟨⟨numbered_of_yieldNow h.numbered gave, (same.state 0).trans h.idle, ?_⟩, ?_⟩
  · rcases switched_of_yieldNow gave with rfl | switched
    · exact h.told
    · exact .switched switched
  · rw [running, current, same.state]
    exact state_pickNext h.numbered h.idle

/-- The mark of an exit breaks nothing that the yield after it needs. -/
theorem Settled.exit {count : Nat} (h : Settled count k) (busy : Busy k) (log : Log) :
    Steady count { k with log, procs := k.procs.exitCurrent } := by
  have current : k.procs.current ≠ 0 := by
    intro here
    exact busy (by rw [here, h.numbered.idle])
  refine ⟨numbered_exitCurrent h.numbered, ?_, ?_⟩
  · change (k.procs.exitCurrent.process 0).state = _
    rw [process_exitCurrent, if_neg current]
    exact h.idle
  · intro more
    obtain ⟨satp, top⟩ := h.told more
    refine ⟨satp.trans ?_, top⟩
    change some (satpOf k.procs.running.pageTable) =
      some (satpOf (k.procs.exitCurrent.process k.procs.current).pageTable)
    rw [process_exitCurrent, if_pos rfl]

theorem Settled.happens {count : Nat} (h : Settled count k) {event : Event}
    (happens : Happens Busy event k k') : Settled count k' := by
  have numbered := numbered_of_happens h.numbered happens
  cases happens with
  | create made =>
    obtain ⟨satps, trapStack, switches⟩ := core_of_createProcess made
    obtain ⟨slot, root, savedSp, -, free, procs⟩ := procs_of_createProcess made
    have old (other : Slot) (used : k.procs.Used other) :
        k'.procs.process other = k.procs.process other := by
      rw [procs]
      refine (k.procs.process_install slot other _ _ _).trans (if_neg ?_)
      rintro rfl
      exact not_used_of_freeSlot free used
    have current : k'.procs.current = k.procs.current := by rw [procs]; rfl
    have running : k'.procs.running = k.procs.running := by
      rw [ProcessTable.running, current, old _ h.numbered.current, ProcessTable.running]
    refine ⟨⟨numbered, ?_, ?_⟩, running ▸ h.current⟩
    · rw [old 0 h.numbered.used_idle]
      exact h.idle
    · rw [Told, switches, satps, trapStack, running, current]
      exact h.told
  | yield gave => exact h.toSteady.yield gave
  | exit busy ended =>
    obtain ⟨log, gave⟩ := yieldNow_of_exitCurrent ended
    exact (h.exit busy log).yield gave
  | elsewhere procs satps trapStack switches =>
    refine ⟨⟨numbered, procs ▸ h.idle, ?_⟩, procs ▸ h.current⟩
    unfold Told
    rw [satps, trapStack, switches, procs]
    exact h.told

theorem Settled.steps {count : Nat} (h : Settled count k) (run : Steps Busy k k') :
    Settled count k' := by
  induction run with
  | refl => exact h
  | tail _ step ih =>
    obtain ⟨event, happens⟩ := step
    exact ih.happens happens

theorem Settled.orderly {count : Nat} (h : Settled count k) : Orderly k := by
  have n := h.numbered
  refine ⟨⟨0, n.idle, h.idle, fun other used => ⟨fun idle => ?_, ?_⟩⟩, ⟨_, n.used_iff⟩, ?_,
    h.current⟩
  · exact n.eq_of_pid_eq used n.used_idle (idle.trans n.pid_idle.symm)
  · rintro rfl
    exact n.pid_idle
  · intro slot other used used' less
    rw [UInt32.lt_iff_toNat_lt, n.pid slot used, n.pid other used']
    exact less

/-- A slot moves on by one state at most. -/
theorem Settled.moves {count : Nat} (h : Settled count k) {event : Event}
    (happens : Happens Busy event k k') (slot : Slot) :
    (k'.procs.process slot).state = (k.procs.process slot).state ∨
      (k.procs.process slot).state.Moves (k'.procs.process slot).state := by
  cases happens with
  | create made =>
    obtain ⟨taken, root, savedSp, -, free, procs⟩ := procs_of_createProcess made
    have process : k'.procs.process slot = if taken = slot then
        ⟨k.procs.nextPid, .runnable, savedSp, root⟩ else k.procs.process slot := by
      rw [procs]
      exact k.procs.process_install taken slot _ _ _
    rw [process]
    split
    next here =>
      have unused := not_used_of_freeSlot free
      rw [Used, Process.Used, not_not, here] at unused
      rw [unused]
      exact .inr .begins
    next => exact .inl rfl
  | yield gave => exact .inl ((sameProcesses_of_yieldNow gave).1.state slot)
  | exit _ ended =>
    obtain ⟨log, gave⟩ := yieldNow_of_exitCurrent ended
    rw [(sameProcesses_of_yieldNow gave).1.state slot]
    change (k.procs.exitCurrent.process slot).state = _ ∨
      (k.procs.process slot).state.Moves (k.procs.exitCurrent.process slot).state
    rw [process_exitCurrent]
    split
    next here =>
      have runnable := h.current
      rw [running, here] at runnable
      rw [runnable]
      exact .inr .ends
    next => exact .inl rfl
  | elsewhere procs => exact .inl (by rw [procs])

theorem settled_of_schedule {k₀ k₁ k : Kernel} {idlePid : UInt32} (fresh : k₀.procs = .empty)
    (spawned : spawnIdle k₀ = .ok idlePid k₁) (run : Schedule Busy k₁ k) :
    Settled k₀.core.switches k := by
  obtain ⟨begun, core⟩ := begun_of_spawnIdle fresh spawned
  have told : Told k₀.core.switches k₁ := fun more => absurd more (core ▸ lt_irrefl _)
  have current : k₁.procs.running.state = .runnable := by
    rw [running, begun.current]
    exact begun.runnable
  exact Settled.steps ⟨⟨begun.numbered, begun.runnable, told⟩, current⟩ (steps_of_schedule run)

/-- In every state of a run that begins with the idle process and in which that process does not
end: the table is in order, the core is set up for the process that runs, the idle process has its
number for good, every slot moves on one state at a time, and a process that is made has its slot
and its number for good. -/
theorem table_after_schedule {k₀ k₁ k : Kernel} {idlePid : UInt32} (fresh : k₀.procs = .empty)
    (spawned : spawnIdle k₀ = .ok idlePid k₁) (run : Schedule Busy k₁ k) :
    Orderly k ∧ Told k₀.core.switches k ∧
      (∃ slot, k₁.procs.idle = some slot ∧ Owns k idlePid slot) ∧
      (∀ event k', Happens Busy event k k' → ∀ slot,
        (k'.procs.process slot).state = (k.procs.process slot).state ∨
          (k.procs.process slot).state.Moves (k'.procs.process slot).state) ∧
      ∀ image pid k', createProcess image k = .ok pid k' →
        ∃ slot, k.procs.freeSlot = some slot ∧ ∀ k'', Schedule Busy k' k'' → Owns k'' pid slot := by
  obtain ⟨begun, -⟩ := begun_of_spawnIdle fresh spawned
  have settled := settled_of_schedule fresh spawned run
  refine ⟨settled.orderly, settled.told, ⟨0, begun.numbered.idle, ?_⟩,
    fun event k' happens => settled.moves happens, fun image pid k' made => ?_⟩
  · rw [pid_of_spawnIdle spawned, ← settled.numbered.pid_idle]
    exact owns_of_numbered settled.numbered settled.numbered.used_idle
  obtain ⟨slot, root, savedSp, number, free, procs⟩ := procs_of_createProcess made
  have happens : Happens Busy .created k k' := .create made
  have numbered := numbered_of_happens settled.numbered happens
  have process : k'.procs.process slot = ⟨k.procs.nextPid, .runnable, savedSp, root⟩ := by
    rw [procs]
    exact (k.procs.process_install slot slot _ _ _).trans (if_pos rfl)
  have used : k'.procs.Used slot := by
    rw [Used, process]
    simp [Process.Used]
  refine ⟨slot, free, fun k'' later => ?_⟩
  have ext := extends_of_steps (steps_of_schedule later)
  have same : (k''.procs.process slot).pid = pid := by
    rw [ext.pid used, process, number]
  rw [← same]
  exact owns_of_numbered (numbered_of_steps numbered (steps_of_schedule later)) (ext.used used)

def afterWait : Kernel := Action.finalState (waitForTurns 1) withProcess

def afterExit : Kernel := Action.finalState exitCurrent afterWait

theorem table_after_schedule_afterExit :
    ∃ idlePid, smallKernel.procs = .empty ∧
      spawnIdle smallKernel = .ok idlePid withIdle ∧ Schedule Busy withIdle afterExit ∧
      Orderly afterExit ∧ Told smallKernel.core.switches afterExit ∧
      (∃ slot, withIdle.procs.idle = some slot ∧ Owns afterExit idlePid slot) ∧
      (∀ event k', Happens Busy event afterExit k' → ∀ slot,
        (k'.procs.process slot).state = (afterExit.procs.process slot).state ∨
          (afterExit.procs.process slot).state.Moves (k'.procs.process slot).state) ∧
      ∀ image pid k', createProcess image afterExit = .ok pid k' →
        ∃ slot, afterExit.procs.freeSlot = some slot ∧
          ∀ k'', Schedule Busy k' k'' → Owns k'' pid slot := by
  obtain ⟨idlePid, spawned⟩ : ∃ pid, spawnIdle smallKernel = .ok pid withIdle :=
    Action.exists_ok_of_answers (by decide +kernel)
  obtain ⟨_, made⟩ : ∃ pid, createProcess [] withIdle = .ok pid withProcess :=
    Action.exists_ok_of_answers (by decide +kernel)
  have busy : Busy afterWait := by
    unfold Busy
    decide +kernel
  have ended : exitCurrent afterWait = .error .exitedResumed afterExit := by
    obtain ⟨-, k', -, ended⟩ := exitCurrent_eq afterWait
    rw [ended, afterExit, Action.finalState_of_error ended]
  have fresh : smallKernel.procs = .empty := rfl
  have created : Schedule Busy withIdle withProcess := .step (.refl _) (.create made)
  have waited : Schedule Busy withIdle afterWait := by
    refine created.wait fun remaining s => ?_
    split <;> exact .refl s
  have run : Schedule Busy withIdle afterExit := waited.step (.exit busy ended)
  exact ⟨idlePid, fresh, spawned, run, table_after_schedule fresh spawned run⟩

end PocketKernel.Kernel
