import Mathlib
import PocketKernel.Proofs.Kernel.Turns
import PocketKernel.Proofs.Process.Context

/-!
# Processes come back as they left

`History` is a run of processes with all the states it went through. Each process that is not
running has its context stored on a stack of its own, and the context is that of its last turn, or
the first one when it had none: this is `Restorable`, and every turn keeps it. Main statement:
`context_of_switch`, for which it does not matter what lies between two turns of a process.
-/
namespace PocketKernel.Kernel

/-- The code that runs computes: it changes its registers, moves its stack pointer along its stack
and writes there. It leaves the processes and all other stacks alone. -/
structure Computes (k k' : Kernel) : Prop where
  procs : k'.procs = k.procs
  userEntry : k'.core.userEntry = k.core.userEntry
  stack : k'.core.sp.stack = k.core.sp.stack
  others : ∀ id ≠ k.core.sp.stack, k'.core.kernelStacks.get id = k.core.kernelStacks.get id

theorem computes_depth (k : Kernel) (depth : Nat) :
    Computes k { k with core := { k.core with sp := { k.core.sp with depth } } } :=
  ⟨rfl, rfl, rfl, fun _ _ => rfl⟩

/-- One step of a run of processes. An exit switches to another process, which goes on. -/
inductive Turn : Kernel → Kernel → Prop where
  | compute {k k' : Kernel} (own : Computes k k') : Turn k k'
  | create {k k' : Kernel} {image : Bytes} {pid : UInt32}
      (made : createProcess image k = .ok pid k') : Turn k k'
  | yield {k k' : Kernel} (gave : yieldNow k = .ok () k') : Turn k k'
  | exit {k k' : Kernel} (ended : exitCurrent k = .error .exitedResumed k') : Turn k k'

/-- A run that began on the boot stack by making the idle process, with the states before the last
one, newest first. -/
inductive History (entry : UInt64) : List Kernel → Kernel → Prop where
  | begin {k₀ k : Kernel} {pid : UInt32} (procs : k₀.procs = .empty)
      (boot : k₀.core.sp.stack = .boot) (userEntry : k₀.core.userEntry = entry)
      (spawned : spawnIdle k₀ = .ok pid k) : History entry [] k
  | step {past : List Kernel} {k k' : Kernel} (before : History entry past k) (turn : Turn k k') :
      History entry (k :: past) k'

/-- The context that the process of a slot had when its last turn ended. -/
def lastContext (entry : UInt64) (past : List Kernel) (slot : Slot) : Context :=
  match past.find? fun left => left.procs.current = slot with
  | some left => left.core.context
  | none => .first entry slot

theorem lastContext_cons (entry : UInt64) (k : Kernel) (past : List Kernel) (slot : Slot) :
    lastContext entry (k :: past) slot =
      if k.procs.current = slot then k.core.context else lastContext entry past slot := by
  unfold lastContext
  rw [List.find?_cons]
  by_cases h : k.procs.current = slot <;> simp [h]

theorem lastContext_eq_first {past : List Kernel} {slot : Slot} (entry : UInt64)
    (h : ∀ left ∈ past, left.procs.current ≠ slot) :
    lastContext entry past slot = .first entry slot := by
  have none : past.find? (fun left => left.procs.current = slot) = none := by
    simpa using h
  rw [lastContext, none]

def stackOf (t : ProcessTable) (slot : Slot) : StackId :=
  if t.idle = some slot then .boot else .kernel slot

theorem stackOf_ne {t : ProcessTable} {slot other : Slot} (h : slot ≠ other) :
    stackOf t slot ≠ stackOf t other := by
  unfold stackOf
  split
  next idle =>
    rw [if_neg]
    · nofun
    · rw [idle]
      rintro ⟨⟩
      exact h rfl
  next =>
    split
    · nofun
    · rintro ⟨⟩
      exact h rfl

/-- Every process that is not running is kept as it was at the end of its last turn. -/
structure Restorable (entry : UInt64) (past : List Kernel) (k : Kernel) : Prop where
  userEntry : k.core.userEntry = entry
  current : k.procs.Used k.procs.current
  idle : ∃ slot, k.procs.idle = some slot ∧ k.procs.Used slot
  own : k.core.sp.stack = stackOf k.procs k.procs.current
  /-- Earlier turns were those of the processes that still have the slots. -/
  turns : ∀ left ∈ past, k.procs.Used left.procs.current ∧
    left.procs.running.pid = (k.procs.process left.procs.current).pid
  place : ∀ slot, k.procs.Used slot → slot ≠ k.procs.current →
    (lastContext entry past slot).sp.stack = stackOf k.procs slot
  kept : ∀ slot, k.procs.Used slot → slot ≠ k.procs.current →
    k.core.Keeps (k.procs.process slot).savedSp (lastContext entry past slot)

theorem restorable_of_spawnIdle {entry : UInt64} {k₀ k : Kernel} {pid : UInt32}
    (procs : k₀.procs = .empty) (boot : k₀.core.sp.stack = .boot)
    (userEntry : k₀.core.userEntry = entry) (spawned : spawnIdle k₀ = .ok pid k) :
    Restorable entry [] k := by
  obtain ⟨slot, root, m, log, -, -, -, rfl⟩ := spawnIdle_eq_ok spawned
  have alone : ∀ other, other ≠ slot →
      ¬ ((k₀.procs.install slot Process.idlePid root none).process other).Used := by
    intro other ne
    rw [ProcessTable.process_install, if_neg ne.symm, procs]
    exact ProcessTable.not_used_empty other
  have used : ((k₀.procs.install slot Process.idlePid root none).process slot).Used := by
    rw [ProcessTable.process_install, if_pos rfl]
    nofun
  constructor
  · exact userEntry
  · exact used
  · exact ⟨slot, rfl, used⟩
  · simpa [stackOf] using boot
  · nofun
  · intro other hu ne
    exact absurd hu (alone other ne)
  · intro other hu ne
    exact absurd hu (alone other ne)

namespace Restorable
variable {entry : UInt64} {past : List Kernel} {k k' : Kernel}

/-- One more turn ended in the state `left`, which had the process of `k`. -/
theorem turns_cons (h : Restorable entry past k) (ext : k.procs.Extends k'.procs) {left : Kernel}
    (current : left.procs.current = k.procs.current)
    (pid : left.procs.running.pid = k.procs.running.pid) :
    ∀ earlier ∈ left :: past, k'.procs.Used earlier.procs.current ∧
      earlier.procs.running.pid = (k'.procs.process earlier.procs.current).pid := by
  intro earlier he
  rcases List.mem_cons.1 he with rfl | older
  · rw [current, pid]
    exact ⟨ext.used h.current, (ext.pid h.current).symm⟩
  · obtain ⟨used, same⟩ := h.turns earlier older
    exact ⟨ext.used used, same.trans (ext.pid used).symm⟩

theorem compute (h : Restorable entry past k) (own : Computes k k') {left : Kernel}
    (current : left.procs.current = k.procs.current)
    (pid : left.procs.running.pid = k.procs.running.pid) : Restorable entry (left :: past) k' := by
  have ext : k.procs.Extends k'.procs := own.procs ▸ .refl _
  have older : ∀ slot, slot ≠ k.procs.current →
      lastContext entry (left :: past) slot = lastContext entry past slot := by
    intro slot ne
    rw [lastContext_cons, current, if_neg ne.symm]
  constructor
  · exact own.userEntry.trans h.userEntry
  · exact own.procs ▸ h.current
  · exact own.procs ▸ h.idle
  · rw [own.stack, own.procs, h.own]
  · exact h.turns_cons ext current pid
  · rw [own.procs]
    intro slot used ne
    rw [older slot ne]
    exact h.place slot used ne
  · rw [own.procs]
    intro slot used ne
    rw [older slot ne]
    refine (h.kept slot used ne).of_stack (own.others _ ?_)
    rw [h.place slot used ne, h.own]
    exact stackOf_ne ne

theorem create (h : Restorable entry past k) {image : Bytes} {pid : UInt32}
    (made : createProcess image k = .ok pid k') : Restorable entry (k :: past) k' := by
  obtain ⟨slot, root, m₁, m₂, log, free, -, -, -, same⟩ := createProcess_eq_ok made
  have fresh := ProcessTable.not_used_of_freeSlot free
  have process : ∀ other, k'.procs.process other =
      if slot = other then ⟨k.procs.nextPid, .runnable, some (Core.seedPlace slot), root⟩
      else k.procs.process other := by
    intro other
    rw [same]
    exact k.procs.process_install slot other _ _ _
  have current : k'.procs.current = k.procs.current := by rw [same]; rfl
  have idle : k'.procs.idle = k.procs.idle := by rw [same]; rfl
  have core : k'.core = k.core.seed slot := by rw [same]
  have ne_of_used {other : Slot} (used : k.procs.Used other) : other ≠ slot := by
    rintro rfl
    exact fresh used
  have ext : k.procs.Extends k'.procs := by
    refine ProcessTable.extends_of_process ?_
    intro other used
    rw [process, if_neg (ne_of_used used).symm]
  have own_stack : stackOf k'.procs slot = .kernel slot := by
    obtain ⟨idler, found, used⟩ := h.idle
    rw [stackOf, idle, found, if_neg]
    rintro ⟨⟩
    exact fresh used
  have old_stack (other : Slot) : stackOf k'.procs other = stackOf k.procs other := by
    rw [stackOf, idle, stackOf]
  -- the new slot never had a turn
  have first : lastContext entry (k :: past) slot = .first entry slot := by
    refine lastContext_eq_first entry ?_
    intro left hl
    rcases List.mem_cons.1 hl with rfl | older
    · exact ne_of_used h.current
    · exact ne_of_used (h.turns left older).1
  have used_of_ne {other : Slot} (used : k'.procs.Used other) (ne : other ≠ slot) :
      k.procs.Used other := by
    simpa only [ProcessTable.Used, process, if_neg (Ne.symm ne)] using used
  constructor
  · rw [core]
    exact h.userEntry
  · rw [current]
    exact ext.used h.current
  · obtain ⟨idler, found, used⟩ := h.idle
    exact ⟨idler, idle.trans found, ext.used used⟩
  · rw [core, current, old_stack]
    exact h.own
  · exact h.turns_cons ext rfl rfl
  · intro other used ne
    rw [current] at ne
    by_cases new : other = slot
    · subst new
      rw [first]
      exact own_stack.symm
    · rw [lastContext_cons, if_neg (Ne.symm ne), old_stack]
      exact h.place other (used_of_ne used new) ne
  · intro other used ne
    rw [current] at ne
    rw [process, core]
    by_cases new : other = slot
    · subst new
      rw [first, if_pos rfl, ← h.userEntry]
      exact k.core.keeps_seed other
    · have older := used_of_ne used new
      rw [if_neg (Ne.symm new), lastContext_cons, if_neg (Ne.symm ne)]
      refine (h.kept other older ne).of_stack (Core.get_putFrame _ _ _ ?_)
      rw [h.place other older ne, ← old_stack]
      change stackOf k'.procs other ≠ .kernel slot
      rw [← own_stack]
      exact stackOf_ne new

/-- A switch stores the context that ran and brings back that of the target. -/
theorem switch (h : Restorable entry past k) {target : Slot} (used : k.procs.Used target)
    (ne : target ≠ k.procs.current) (switched : switchTo target k = .ok () k') {left : Kernel}
    (core : left.core = k.core) (current : left.procs.current = k.procs.current)
    (pid : left.procs.running.pid = k.procs.running.pid) :
    Restorable entry (left :: past) k' ∧ k'.procs.current = target ∧
      k'.core.context.Agrees (lastContext entry (left :: past) target) := by
  rw [switchTo_eq_ok ne] at switched
  have process : ∀ other, k'.procs.process other =
      if k.procs.current = other then
        { k.procs.running with savedSp := some (k.departed target).sp }
      else k.procs.process other := by
    intro other
    rw [switched]
    exact k.procs.process_update k.procs.current other fun p =>
      { p with savedSp := some (k.departed target).sp }
  have running : k'.procs.current = target := by rw [switched]
  have idle : k'.procs.idle = k.procs.idle := by rw [switched]; rfl
  have resumed : k'.core = (k.departed target).resume
      ((k.procs.process target).savedSp.getD ⟨.kernel target, 0⟩) := by rw [switched]
  have ext : k.procs.Extends k'.procs :=
    ProcessTable.extends_of_update (f := fun p => { p with savedSp := some (k.departed target).sp })
      process (fun _ hu => hu) fun _ => rfl
  have old_stack (other : Slot) : stackOf k'.procs other = stackOf k.procs other := by
    rw [stackOf, idle, stackOf]
  have used_old {other : Slot} (hu : k'.procs.Used other) : k.procs.Used other := by
    rw [ProcessTable.Used, process] at hu
    split at hu
    next same => exact same ▸ hu
    next => exact hu
  have older {other : Slot} (apart : other ≠ k.procs.current) :
      lastContext entry (left :: past) other = lastContext entry past other := by
    rw [lastContext_cons, current, if_neg apart.symm]
  -- nothing but the stack of the process that ran is written
  have kept_old {other : Slot} (hu : k.procs.Used other) (apart : other ≠ k.procs.current) :
      (k.departed target).Keeps (k.procs.process other).savedSp (lastContext entry past other) := by
    refine (h.kept other hu apart).of_stack (Core.get_putFrame _ _ _ ?_)
    change (lastContext entry past other).sp.stack ≠ k.core.sp.stack
    rw [h.place other hu apart, h.own]
    exact stackOf_ne apart
  have back := Core.context_resume (kept_old used ne) ⟨.kernel target, 0⟩
  rw [← resumed, ← older ne] at back
  refine ⟨?_, running, back⟩
  constructor
  · rw [resumed]
    exact h.userEntry
  · rw [running]
    exact ext.used used
  · obtain ⟨idler, found, hu⟩ := h.idle
    exact ⟨idler, idle.trans found, ext.used hu⟩
  · change k'.core.context.sp.stack = _
    rw [back.sp, older ne, running, old_stack, h.place target used ne]
  · exact h.turns_cons ext current pid
  · intro other hu apart
    rw [old_stack]
    by_cases was : other = k.procs.current
    · rw [was, lastContext_cons, if_pos current, core]
      exact h.own
    · rw [older was]
      exact h.place other (used_old hu) was
  · intro other hu apart
    rw [process]
    have same : k'.core.kernelStacks = (k.departed target).kernelStacks := by rw [resumed]; rfl
    by_cases was : other = k.procs.current
    · rw [was, lastContext_cons, if_pos current, if_pos rfl, core]
      have kept := Core.keeps_suspend ({ k.core.selectSpace
        (satpOf (k.procs.process target).pageTable) with trapStack := some target } : Core)
      exact kept.of_stack (by rw [same]; rfl)
    · rw [if_neg (Ne.symm was), older was]
      exact (kept_old (used_old hu) was).of_stack (by rw [same])

/-- Marking the current process as exited changes nothing of this. -/
theorem exit (h : Restorable entry past k) (log : Log) :
    Restorable entry past { k with log, procs := k.procs.exitCurrent } := by
  have process := fun other => k.procs.process_update k.procs.current other fun p =>
    { p with state := .exited }
  have ext := k.procs.extends_exitCurrent
  have used_old {other : Slot} (hu : k.procs.exitCurrent.Used other)
      (apart : other ≠ k.procs.current) : k.procs.Used other := by
    rwa [ProcessTable.Used, ProcessTable.exitCurrent, process, if_neg apart.symm] at hu
  constructor
  · exact h.userEntry
  · exact ext.used h.current
  · obtain ⟨idler, found, hu⟩ := h.idle
    exact ⟨idler, found, ext.used hu⟩
  · exact h.own
  · intro left hl
    obtain ⟨hu, same⟩ := h.turns left hl
    exact ⟨ext.used hu, same.trans (ext.pid hu).symm⟩
  · intro other hu apart
    exact h.place other (used_old hu apart) apart
  · intro other hu (apart : other ≠ k.procs.current)
    change k.core.Keeps (k.procs.exitCurrent.process other).savedSp _
    rw [ProcessTable.exitCurrent, process, if_neg apart.symm]
    exact h.kept other (used_old hu apart) apart

theorem yield (h : Restorable entry past k) (gave : yieldNow k = .ok () k') {left : Kernel}
    (core : left.core = k.core) (current : left.procs.current = k.procs.current)
    (pid : left.procs.running.pid = k.procs.running.pid) :
    Restorable entry (left :: past) k' ∧ (k'.procs.current ≠ k.procs.current →
      k'.core.context.Agrees (lastContext entry (left :: past) k'.procs.current)) := by
  rcases yieldNow_eq_ok.1 gave with ⟨-, rfl⟩ | ⟨ne, switched⟩
  · exact ⟨h.compute ⟨rfl, rfl, rfl, fun _ _ => rfl⟩ current pid, fun moved => absurd rfl moved⟩
  · have used := ProcessTable.used_pickNext h.current fun slot found => by
      obtain ⟨idler, same, hu⟩ := h.idle
      rw [same] at found
      cases found
      exact hu
    obtain ⟨restorable, running, back⟩ := h.switch used ne switched core current pid
    rw [running]
    exact ⟨restorable, fun _ => back⟩

/-- A turn keeps every process that is not running, and a switch brings one back. -/
theorem turn (h : Restorable entry past k) (turn : Turn k k') :
    Restorable entry (k :: past) k' ∧ (k'.procs.current ≠ k.procs.current →
      k'.core.context.Agrees (lastContext entry (k :: past) k'.procs.current)) := by
  cases turn with
  | compute own =>
    refine ⟨h.compute own rfl rfl, fun moved => ?_⟩
    rw [own.procs] at moved
    exact absurd rfl moved
  | create made =>
    refine ⟨h.create made, fun moved => ?_⟩
    obtain ⟨slot, root, m₁, m₂, log, -, -, -, -, rfl⟩ := createProcess_eq_ok made
    exact absurd rfl moved
  | yield gave => exact h.yield gave rfl rfl rfl
  | exit ended =>
    obtain ⟨log, k₁, gave, same⟩ := exitCurrent_eq k
    obtain ⟨-, rfl⟩ := EStateM.Result.error.inj (same.symm.trans ended)
    refine (h.exit log).yield gave rfl rfl ?_
    have running := k.procs.process_update k.procs.current k.procs.current fun p =>
      { p with state := .exited }
    rw [if_pos rfl] at running
    exact (congrArg Process.pid running).symm

end Restorable

theorem restorable_of_history {entry : UInt64} {past : List Kernel} {k : Kernel}
    (run : History entry past k) : Restorable entry past k := by
  induction run with
  | begin procs boot userEntry spawned =>
    exact restorable_of_spawnIdle procs boot userEntry spawned
  | step _ turn ih => exact (ih.turn turn).1

/-- When a turn switches to a process, the process has the registers, the stack pointer and, from
there up, the stack that it had when its last turn ended; in its first turn it has those in which a
process begins. All turns in its slot were its own. -/
theorem context_of_switch {entry : UInt64} {past : List Kernel} {k k' : Kernel}
    (run : History entry past k) (turn : Turn k k')
    (switched : k'.procs.current ≠ k.procs.current) :
    k'.core.context.Agrees (lastContext entry (k :: past) k'.procs.current) ∧
      ∀ left ∈ k :: past, left.procs.current = k'.procs.current →
        left.procs.running.pid = k'.procs.running.pid := by
  obtain ⟨restorable, back⟩ := (restorable_of_history run).turn turn
  refine ⟨back switched, fun left hl same => ?_⟩
  have owner := (restorable.turns left hl).2
  rwa [same] at owner

def smallKernel : Kernel := start ⟨0x80200000, 0x80200000, 0x80206000⟩ (Disk.blank 0) 7

def withIdle : Kernel := Action.finalState spawnIdle smallKernel

def withProcess : Kernel := Action.finalState (createProcess []) withIdle

def inProcess : Kernel := Action.finalState yieldNow withProcess

def deepInProcess : Kernel :=
  { inProcess with core := { inProcess.core with sp := { inProcess.core.sp with depth := 5 } } }

/-- The process exits, and the idle process has its context again. -/
theorem context_of_switch_deepInProcess :
    ∃ (past : List Kernel) (k' : Kernel), History 7 past deepInProcess ∧ Turn deepInProcess k' ∧
      k'.procs.current ≠ deepInProcess.procs.current ∧
      k'.core.context.Agrees (lastContext 7 (deepInProcess :: past) k'.procs.current) ∧
      ∀ left ∈ deepInProcess :: past, left.procs.current = k'.procs.current →
        left.procs.running.pid = k'.procs.running.pid := by
  obtain ⟨_, spawned⟩ : ∃ pid, spawnIdle smallKernel = .ok pid withIdle :=
    Action.exists_ok_of_answers (by decide +kernel)
  obtain ⟨_, made⟩ : ∃ pid, createProcess [] withIdle = .ok pid withProcess :=
    Action.exists_ok_of_answers (by decide +kernel)
  obtain ⟨_, gave⟩ : ∃ u, yieldNow withProcess = .ok u inProcess :=
    Action.exists_ok_of_answers (by decide +kernel)
  obtain ⟨-, k', -, ended⟩ := exitCurrent_eq deepInProcess
  have begun : History 7 [] withIdle :=
    .begin (show smallKernel.procs = .empty from rfl) rfl rfl spawned
  have created : History 7 [withIdle] withProcess := begun.step (.create made)
  have yielded : History 7 [withProcess, withIdle] inProcess := created.step (.yield gave)
  have run : History 7 [inProcess, withProcess, withIdle] deepInProcess :=
    yielded.step (.compute (computes_depth inProcess 5))
  have moved : k'.procs.current ≠ deepInProcess.procs.current := by
    have running : deepInProcess.procs.current = 1 := by decide +kernel
    have idle : (Action.finalState exitCurrent deepInProcess).procs.current = 0 := by
      decide +kernel
    rw [Action.finalState, ended] at idle
    rw [running, idle]
    decide
  exact ⟨_, _, run, .exit ended, moved, context_of_switch run (.exit ended) moved⟩

end PocketKernel.Kernel
