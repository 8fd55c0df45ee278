import Mathlib
import PocketKernel.Proofs.Kernel.Turns
import PocketKernel.Proofs.Process.Numbering

/-!
# Runs of processes

`Happens` lists what may happen to the processes at once, and `Schedule` is a run of such events. A
wait is a run as well, whatever it polls by: a schedule has it as one step, and
`steps_of_schedule` takes it apart into its polls and yields. What an event does to the table and to
the core is said here once, by `numbered_of_happens` and `switched_of_yieldNow`.
-/
namespace PocketKernel.Kernel
open ProcessTable
variable {mayExit : Kernel → Prop} {k k' : Kernel}

inductive Event where
  | created
  | yielded
  | exited
  /-- Something that concerns neither the processes nor what the core was told at a switch. -/
  | elsewhere
  deriving DecidableEq

/-- One step of a run of processes, where `mayExit` says when a process may end. An exit goes on
with the process that its yield switches to. -/
inductive Happens (mayExit : Kernel → Prop) : Event → Kernel → Kernel → Prop where
  | create {k k' : Kernel} {image : Bytes} {pid : UInt32}
      (made : createProcess image k = .ok pid k') : Happens mayExit .created k k'
  | yield {k k' : Kernel} (gave : yieldNow k = .ok () k') : Happens mayExit .yielded k k'
  | exit {k k' : Kernel} (may : mayExit k) (ended : exitCurrent k = .error .exitedResumed k') :
      Happens mayExit .exited k k'
  | elsewhere {k k' : Kernel} (procs : k'.procs = k.procs) (satps : k'.core.satps = k.core.satps)
      (trapStack : k'.core.trapStack = k.core.trapStack)
      (switches : k'.core.switches = k.core.switches) : Happens mayExit .elsewhere k k'

abbrev Steps (mayExit : Kernel → Prop) : Kernel → Kernel → Prop :=
  Relation.ReflTransGen fun k k' => ∃ event, Happens mayExit event k k'

/-- A run of processes, with waits. A wait polls by anything that is a run by itself; it may also
end in a fault. -/
inductive Schedule (mayExit : Kernel → Prop) : Kernel → Kernel → Prop where
  | refl (k : Kernel) : Schedule mayExit k k
  | step {k₀ k k' : Kernel} {event : Event} (run : Schedule mayExit k₀ k)
      (happens : Happens mayExit event k k') : Schedule mayExit k₀ k'
  | wait {k₀ k : Kernel} {α : Type} {poll : Nat → Action Kernel (Option α)} {stuck : Fault}
      {attempts : Nat} (run : Schedule mayExit k₀ k)
      (polls : ∀ remaining s, Schedule mayExit s ((poll remaining).finalState s)) :
      Schedule mayExit k₀ ((blockOn poll stuck attempts).finalState k)

/-- A wait is made of its polls and of yields. -/
theorem steps_of_blockOn {α : Type} {poll : Nat → Action Kernel (Option α)}
    (polls : ∀ remaining s, Steps mayExit s ((poll remaining).finalState s)) (stuck : Fault)
    (attempts : Nat) (k : Kernel) :
    Steps mayExit k ((blockOn poll stuck attempts).finalState k) := by
  induction attempts generalizing k with
  | zero => exact .refl
  | succ remaining ih =>
    have polled := polls remaining k
    unfold blockOn
    cases ran : poll remaining k with
    | error fault k₁ =>
      rw [Action.finalState_of_error ran] at polled
      rwa [Action.finalState_bind_of_error ran]
    | ok answer k₁ =>
      rw [Action.finalState_of_ok ran] at polled
      rw [Action.finalState_bind_of_ok ran]
      cases answer with
      | some a => exact polled
      | none =>
        obtain ⟨k₂, gave⟩ := exists_yieldNow_eq_ok k₁
        dsimp only
        rw [Action.finalState_bind_of_ok gave]
        exact (polled.tail ⟨_, .yield gave⟩).trans (ih k₂)

theorem steps_of_schedule (run : Schedule mayExit k k') : Steps mayExit k k' := by
  induction run with
  | refl k => exact .refl
  | step _ happens ih => exact ih.tail ⟨_, happens⟩
  | wait _ _ ih polls => exact ih.trans (steps_of_blockOn polls _ _ _)

/-! ## What an event does -/

theorem procs_of_createProcess {image : Bytes} {pid : UInt32}
    (made : createProcess image k = .ok pid k') :
    ∃ slot root savedSp, pid = k.procs.nextPid ∧ k.procs.freeSlot = some slot ∧
      k'.procs = { k.procs.install slot k.procs.nextPid root savedSp with
        nextPid := k.procs.nextPid + 1 } := by
  obtain ⟨slot, root, m₁, m₂, log, free, -, -, rfl, rfl⟩ := createProcess_eq_ok made
  exact ⟨slot, root, _, rfl, free, rfl⟩

theorem core_of_createProcess {image : Bytes} {pid : UInt32}
    (made : createProcess image k = .ok pid k') :
    k'.core.satps = k.core.satps ∧ k'.core.trapStack = k.core.trapStack ∧
      k'.core.switches = k.core.switches := by
  obtain ⟨slot, root, m₁, m₂, log, -, -, -, -, same⟩ := createProcess_eq_ok made
  have core : k'.core = k.core.seed slot := by rw [same]
  rw [core]
  exact ⟨rfl, rfl, rfl⟩

structure Switched (k k' : Kernel) : Prop where
  switches : k'.core.switches = k.core.switches + 1
  satps : k'.core.satps = k.core.satps.push (satpOf k'.procs.running.pageTable)
  trapStack : k'.core.trapStack = some k'.procs.current

theorem sameProcesses_of_yieldNow (gave : yieldNow k = .ok () k') :
    k.procs.SameProcesses k'.procs ∧ k'.procs.current = k.procs.pickNext := by
  rcases yieldNow_eq_ok.1 gave with ⟨stays, rfl⟩ | ⟨moves, switched⟩
  · exact ⟨.refl _, stays.symm⟩
  rw [switchTo_eq_ok moves] at switched
  let saved (p : Process) : Process := { p with savedSp := some (k.departed k.procs.pickNext).sp }
  have process (slot : Slot) : k'.procs.process slot =
      if k.procs.current = slot then saved (k.procs.process k.procs.current)
      else k.procs.process slot := by
    rw [switched]
    exact k.procs.process_update k.procs.current slot saved
  refine ⟨⟨by rw [switched]; rfl, by rw [switched]; rfl, ?_, ?_, ?_⟩, by rw [switched]⟩ <;>
  · intro slot
    rw [process]
    split
    next here => exact here ▸ rfl
    next => rfl

theorem switched_of_yieldNow (gave : yieldNow k = .ok () k') : k' = k ∨ Switched k k' := by
  rcases yieldNow_eq_ok.1 gave with ⟨-, same⟩ | ⟨moves, switched⟩
  · exact .inl same
  have same := (sameProcesses_of_yieldNow gave).1
  have current := (sameProcesses_of_yieldNow gave).2
  refine .inr ⟨?_, ?_, ?_⟩
  · rw [(switchTo_eq_ok moves).1 switched]
    rfl
  · rw [ProcessTable.running, current, same.pageTable, (switchTo_eq_ok moves).1 switched]
    rfl
  · rw [(switchTo_eq_ok moves).1 switched]
    rfl

/-- An exit is the yield of a table in which the current process has ended. -/
theorem yieldNow_of_exitCurrent (ended : exitCurrent k = .error .exitedResumed k') :
    ∃ log, yieldNow { k with log, procs := k.procs.exitCurrent } = .ok () k' := by
  obtain ⟨log, k₁, gave, same⟩ := exitCurrent_eq k
  obtain ⟨-, rfl⟩ := EStateM.Result.error.inj (same.symm.trans ended)
  exact ⟨log, gave⟩

theorem process_exitCurrent (t : ProcessTable) (slot : Slot) :
    t.exitCurrent.process slot =
      if t.current = slot then { t.running with state := .exited } else t.process slot :=
  t.process_update t.current slot fun p => { p with state := .exited }

theorem numbered_exitCurrent {t : ProcessTable} (h : t.Numbered) : t.exitCurrent.Numbered := by
  refine h.congr rfl rfl (fun slot => ?_) (fun slot => ?_) h.current
  · rw [Used, process_exitCurrent]
    split
    next here => exact ⟨fun _ => here ▸ h.current, fun _ => by simp [Process.Used]⟩
    next => rfl
  · rw [process_exitCurrent]
    split
    next here => exact here ▸ rfl
    next => rfl

theorem numbered_of_yieldNow (h : k.procs.Numbered) (gave : yieldNow k = .ok () k') :
    k'.procs.Numbered := by
  obtain ⟨same, current⟩ := sameProcesses_of_yieldNow gave
  exact same.numbered h (current ▸ h.used_pickNext)

theorem numbered_of_happens {event : Event} (h : k.procs.Numbered)
    (happens : Happens mayExit event k k') : k'.procs.Numbered := by
  cases happens with
  | create made =>
    obtain ⟨slot, root, savedSp, -, free, procs⟩ := procs_of_createProcess made
    exact procs ▸ h.install free root savedSp
  | yield gave => exact numbered_of_yieldNow h gave
  | exit _ ended =>
    obtain ⟨log, gave⟩ := yieldNow_of_exitCurrent ended
    exact numbered_of_yieldNow (numbered_exitCurrent h) gave
  | elsewhere procs => exact procs ▸ h

theorem numbered_of_steps (h : k.procs.Numbered) (run : Steps mayExit k k') :
    k'.procs.Numbered := by
  induction run with
  | refl => exact h
  | tail _ step ih =>
    obtain ⟨event, happens⟩ := step
    exact numbered_of_happens ih happens

theorem pid_of_spawnIdle {pid : UInt32} (spawned : spawnIdle k = .ok pid k') :
    pid = Process.idlePid := by
  unfold spawnIdle at spawned
  rw [Action.get_bind] at spawned
  cases idle : k.procs.idle with
  | some slot =>
    rw [idle] at spawned
    cases spawned
  | none =>
    rw [idle] at spawned
    obtain ⟨slot, k₁, free, taken⟩ := Action.bind_eq_ok.1 spawned
    obtain ⟨root, k₂, space, built⟩ := Action.bind_eq_ok.1 taken
    cases built
    rfl

structure Begun (k : Kernel) : Prop where
  numbered : k.procs.Numbered
  current : k.procs.current = 0
  runnable : (k.procs.process 0).state = .runnable

theorem begun_of_spawnIdle {pid : UInt32} (fresh : k.procs = .empty)
    (spawned : spawnIdle k = .ok pid k') : Begun k' ∧ k'.core = k.core := by
  obtain ⟨slot, root, m, log, -, free, -, rfl⟩ := spawnIdle_eq_ok spawned
  have unused : ∀ other, ¬ k.procs.Used other := fresh ▸ not_used_empty
  obtain rfl : slot = 0 := by
    by_contra ne
    exact unused 0 ((freeSlot_eq_some.1 free).2 0 (Fin.pos_iff_ne_zero.2 ne))
  let t : ProcessTable :=
    { k.procs.install 0 Process.idlePid root none with idle := some 0, current := 0 }
  have process (slot : Slot) : t.process slot =
      if 0 = slot then ⟨Process.idlePid, .runnable, none, root⟩ else k.procs.process slot :=
    k.procs.process_install 0 slot _ _ _
  have first := process 0
  rw [if_pos rfl] at first
  have nextPid : t.nextPid.toNat = 1 := by
    change k.procs.nextPid.toNat = 1
    rw [fresh]
    rfl
  have used (slot : Slot) : t.Used slot ↔ slot = 0 := by
    rw [Used, process]
    split
    next here => exact ⟨fun _ => here.symm, fun _ => by simp [Process.Used]⟩
    next there =>
      exact ⟨fun taken => absurd taken (unused slot), fun here => absurd here.symm there⟩
  refine ⟨⟨⟨rfl, ?_, ?_, fun slot => ?_, fun slot taken => ?_, (used 0).2 rfl⟩, rfl,
    congrArg Process.state first⟩, rfl⟩
  · exact nextPid ▸ one_pos
  · exact nextPid ▸ (by decide : 1 ≤ slotCount)
  · change t.Used slot ↔ slot.val < t.nextPid.toNat
    rw [used, nextPid, Nat.lt_one_iff, Fin.ext_iff, Fin.val_zero]
  · obtain rfl := (used slot).1 taken
    exact congrArg (fun p : Process => p.pid.toNat) first

end PocketKernel.Kernel
