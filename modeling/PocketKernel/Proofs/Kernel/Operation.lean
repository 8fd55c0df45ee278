import Mathlib
import PocketKernel.Kernel.Syscall
import PocketKernel.Proofs.Kernel.Turns

/-!
# Operations of the kernel

`Operation` lists what the kernel can be asked to do from outside, and `Operation.next` is the state
in which it goes on. An operation that is fatal has no next state. An exit has one: its switch comes
back at once in this model, and the process that runs then goes on.

The second part says of every building block what it preserves: whatever does not depend on the
parts that the block writes.
-/
namespace PocketKernel.Kernel

inductive Operation where
  | mountFiles
  | spawnIdle
  | createProcess (image : Bytes)
  | yieldNow
  | exitCurrent
  | handleTrap (frame : RegisterFile) (cause : TrapCause)

namespace Operation

def run : Operation → Action Kernel Unit
  | mountFiles => Kernel.mountFiles
  | spawnIdle => do let _ ← Kernel.spawnIdle
  | createProcess image => do let _ ← Kernel.createProcess image
  | yieldNow => Kernel.yieldNow
  | exitCurrent => Kernel.exitCurrent
  | handleTrap frame cause => do let _ ← Kernel.handleTrap frame cause

def mayExit : Operation → Bool
  | exitCurrent => true
  | handleTrap .. => true
  | _ => false

/-- The state in which the kernel goes on. -/
def next (op : Operation) (k : Kernel) : Option Kernel :=
  match op.run k with
  | .ok _ k' => some k'
  | .error e k' => if op.mayExit = true ∧ e = .exitedResumed then some k' else none

theorem next_of_run {op : Operation} {k k' : Kernel} (h : op.run k = .ok () k') :
    op.next k = some k' := by
  rw [next, h]

theorem finalState_of_next {op : Operation} {k k' : Kernel} (h : op.next k = some k') :
    op.run.finalState k = k' := by
  unfold next at h
  cases ran : op.run k with
  | ok a k₁ =>
    rw [ran] at h
    cases h
    exact Action.finalState_of_ok ran
  | error e k₁ =>
    rw [ran] at h
    dsimp only at h
    split at h
    · cases h
      exact Action.finalState_of_error ran
    · cases h

/-- Where no process can end, an operation goes on only when it answers. -/
theorem run_of_next {op : Operation} {k k' : Kernel} (stays : op.mayExit = false)
    (h : op.next k = some k') : op.run k = .ok () k' := by
  unfold next at h
  cases ran : op.run k with
  | ok a k₁ =>
    rw [ran] at h
    cases h
    rfl
  | error e k₁ =>
    rw [ran, stays] at h
    simp at h

theorem spawnIdle_of_next {k k' : Kernel} (h : spawnIdle.next k = some k') :
    ∃ pid, Kernel.spawnIdle k = .ok pid k' := by
  obtain ⟨pid, k₁, spawned, ended⟩ := Action.bind_eq_ok.1 (run_of_next rfl h)
  cases ended
  exact ⟨pid, spawned⟩

theorem createProcess_of_next {image : Bytes} {k k' : Kernel}
    (h : (createProcess image).next k = some k') :
    ∃ pid, Kernel.createProcess image k = .ok pid k' := by
  obtain ⟨pid, k₁, made, ended⟩ := Action.bind_eq_ok.1 (run_of_next rfl h)
  cases ended
  exact ⟨pid, made⟩

end Operation

/-! ## What the operations preserve -/

section Preserves
variable {α : Type} {P : Kernel → Prop}

theorem onConsole_preserves (hcon : ∀ k console, P k → P { k with console := console })
    (x : Action Console α) : (onConsole x).Preserves P :=
  Action.preserves_within x fun _ _ => hcon _ _

theorem onDisk_preserves (hdisk : ∀ k disk, P k → P { k with disk := disk }) (x : Action Disk α) :
    (onDisk x).Preserves P :=
  Action.preserves_within x fun _ _ => hdisk _ _

theorem yieldNow_preserves (hswitch : ∀ slot, (switchTo slot).Preserves P) :
    yieldNow.Preserves P := by
  refine Action.preserves_bind Action.preserves_get ?_
  intro k
  dsimp only
  split
  · exact hswitch _
  · exact Action.preserves_pure _

theorem blockOn_preserves (hswitch : ∀ slot, (switchTo slot).Preserves P)
    {poll : Nat → Action Kernel (Option α)} (h : ∀ n, (poll n).Preserves P) (stuck : Fault)
    (attempts : Nat) : (blockOn poll stuck attempts).Preserves P := by
  induction attempts with
  | zero => exact Action.preserves_throw _
  | succ n ih =>
    refine Action.preserves_bind (h n) ?_
    intro answer
    cases answer with
    | some a => exact Action.preserves_pure _
    | none => exact Action.preserves_bind (yieldNow_preserves hswitch) fun _ => ih

theorem mountFiles_preserves (hlog : ∀ k log, P k → P { k with log := log })
    (hfiles : ∀ k files, P k → P { k with files := files })
    (hdisk : ∀ k disk, P k → P { k with disk := disk }) : mountFiles.Preserves P := by
  refine Action.preserves_bind Action.preserves_get ?_
  intro k
  refine Action.preserves_bind (onDisk_preserves hdisk _) ?_
  rintro ⟨files, result⟩
  dsimp only
  refine Action.preserves_bind (Action.preserves_modify fun k => hfiles k _) ?_
  intro _
  cases result with
  | error cause => exact Action.preserves_throw _
  | ok count => exact Action.preserves_modify fun k => hlog k _

/-! ## Traps -/

/-- What happens to the log, on the console and at a change of turn leaves `P` as it is. -/
structure Indifferent (P : Kernel → Prop) : Prop where
  log : ∀ k log, P k → P { k with log := log }
  console : ∀ k console, P k → P { k with console := console }
  switch : ∀ slot, (switchTo slot).Preserves P

theorem Indifferent.waitForByte (h : Indifferent P) : waitForByte.Preserves P :=
  Action.preserves_bind Action.preserves_get fun _ =>
    blockOn_preserves h.switch (fun _ => onConsole_preserves h.console _) _ _

theorem Indifferent.exitCurrent (h : Indifferent P) {k : Kernel}
    (marked : P { k with procs := k.procs.exitCurrent }) : P (exitCurrent.finalState k) := by
  obtain ⟨log, k', gave, ended⟩ := exitCurrent_eq k
  rw [Action.finalState_of_error ended]
  exact (yieldNow_preserves h.switch).of_ok gave (h.log _ log marked)

/-- The state that a call leaves. -/
theorem finalState_dispatch (frame : RegisterFile) (k : Kernel) :
    (dispatch frame).finalState k =
      if frame .a3 = Syscall.putChar then
        (onConsole (Console.put (frame .a0).toUInt8)).finalState k
      else if frame .a3 = Syscall.getChar then waitForByte.finalState k
      else if frame .a3 = Syscall.exit then exitCurrent.finalState k
      else if frame .a3 = Syscall.readFile then
        (readFile (frame .a0) (frame .a1) (frame .a2)).finalState k
      else if frame .a3 = Syscall.writeFile then
        (writeFile (frame .a0) (frame .a1) (frame .a2)).finalState k
      else k := by
  unfold dispatch
  dsimp only
  split
  · exact Action.finalState_bind_pure _ _ _
  split
  · exact Action.finalState_bind_pure _ _ _
  split
  · exact Action.finalState_bind_pure _ _ _
  split
  · exact Action.finalState_bind_pure _ _ _
  split
  · exact Action.finalState_bind_pure _ _ _
  · rfl

/-- A trap for another cause than a call is fatal. -/
theorem finalState_handleTrap (frame : RegisterFile) (cause : TrapCause) (k : Kernel) :
    (handleTrap frame cause).finalState k =
      if cause.scause = TrapCause.environmentCall then (dispatch frame).finalState k else k := by
  unfold handleTrap
  by_cases call : cause.scause = TrapCause.environmentCall
  · rw [if_neg (not_not.2 call), if_pos call]
    exact Action.finalState_bind_pure _ _ _
  · rw [if_pos call, if_neg call]
    rfl

/-- A trap keeps what its calls keep; the exit and the two calls on files are left open. -/
theorem Indifferent.handleTrap (h : Indifferent P) {k : Kernel} (hk : P k) {frame : RegisterFile}
    (hexit : frame .a3 = Syscall.exit → P { k with procs := k.procs.exitCurrent })
    (hread : frame .a3 = Syscall.readFile →
      P ((readFile (frame .a0) (frame .a1) (frame .a2)).finalState k))
    (hwrite : frame .a3 = Syscall.writeFile →
      P ((writeFile (frame .a0) (frame .a1) (frame .a2)).finalState k)) (cause : TrapCause) :
    P ((handleTrap frame cause).finalState k) := by
  rw [finalState_handleTrap]
  split
  swap
  · exact hk
  rw [finalState_dispatch]
  split
  · exact onConsole_preserves h.console _ k hk
  split
  · exact h.waitForByte k hk
  split
  next exits => exact h.exitCurrent (hexit exits)
  split
  next reads => exact hread reads
  split
  next writes => exact hwrite writes
  · exact hk

end Preserves

end PocketKernel.Kernel
