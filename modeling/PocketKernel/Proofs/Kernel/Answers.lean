import Mathlib
import PocketKernel.Proofs.Kernel.FileCalls

/-!
# What a call answers

A call that need not wait answers at once, and `Returns` lists the answers. A read of the console
that finds nothing is a yield with the same call after it, so every wait is taken apart into yields
and one such answer.
-/
namespace PocketKernel.Kernel
variable {frame frame' : RegisterFile} {cause : TrapCause} {k k' : Kernel} {pc word : UInt32}

/-- The kernel does the call that a frame asks for, and the word is its result. -/
inductive Returns (frame : RegisterFile) : Kernel → Kernel → UInt32 → Prop where
  | putChar {k k' : Kernel} (id : frame .a3 = Syscall.putChar)
      (put : onConsole (Console.put (frame .a0).toUInt8) k = .ok () k') :
      Returns frame k k' (frame .a0)
  | getChar {k k' : Kernel} {byte : UInt8} (id : frame .a3 = Syscall.getChar)
      (found : onConsole Console.poll k = .ok (some byte) k') : Returns frame k k' byte.toUInt32
  | readFile {k k' : Kernel} {word : UInt32} (id : frame .a3 = Syscall.readFile)
      (read : readFile (frame .a0) (frame .a1) (frame .a2) k = .ok word k') :
      Returns frame k k' word
  | writeFile {k k' : Kernel} {word : UInt32} (id : frame .a3 = Syscall.writeFile)
      (written : writeFile (frame .a0) (frame .a1) (frame .a2) k = .ok word k') :
      Returns frame k k' word

/-- A call that returned changed no process. -/
theorem Returns.procs (h : Returns frame k k' word) : k'.procs = k.procs := by
  cases h with
  | putChar _ put =>
    obtain ⟨console, -, rfl⟩ := Action.within_eq_ok.1 put
    rfl
  | getChar _ found =>
    obtain ⟨console, -, rfl⟩ := Action.within_eq_ok.1 found
    rfl
  | readFile _ read =>
    obtain ⟨log, data, -, left⟩ := finalState_readFile frame k
    rw [← Action.finalState_of_ok read, left]
  | writeFile _ written =>
    rw [← Action.finalState_of_ok written]
    rcases finalState_writeFile frame k with ⟨log, left⟩ |
      ⟨file, data, files, log, -, -, ⟨flushed, disk, -, left⟩ | ⟨fault, disk, -, left⟩⟩ <;>
      rw [left]

/-- With nothing to wait for, a wait is one poll. -/
theorem waitForByte_of_ready (ready : k.console.emptyPolls = 0) {byte : UInt8}
    (found : waitForByte k = .ok byte k') : onConsole Console.poll k = .ok (some byte) k' := by
  unfold waitForByte at found
  rw [Action.get_bind, ready] at found
  obtain ⟨answer, k₁, polled, rest⟩ := Action.bind_eq_ok.1 found
  cases answer with
  | some b =>
    cases rest
    exact polled
  | none =>
    obtain ⟨-, k₂, -, stuck⟩ := Action.bind_eq_ok.1 rest
    cases stuck

/-- A poll that finds nothing is one of those that the console announced. -/
theorem emptyPolls_of_poll {c c' : Console} (polled : c.poll = .ok none c') :
    c.emptyPolls = c'.emptyPolls + 1 := by
  obtain ⟨emptyPolls, arrivals, polls, output⟩ := c
  match emptyPolls, arrivals with
  | emptyPolls + 1, _ =>
    cases polled
    rfl
  | 0, [] => cases polled
  | 0, next :: rest => cases polled

/-- A wait that finds nothing yields and begins again. -/
theorem waitForByte_of_yieldNow {k₁ k₂ : Kernel} (polled : onConsole Console.poll k = .ok none k₁)
    (gave : yieldNow k₁ = .ok () k₂) : waitForByte k = waitForByte k₂ := by
  have console : k₂.console = k₁.console :=
    (yieldNow_preserves (P := fun k => k.console = k₁.console) fun _ _ h => h).of_ok gave rfl
  have announced : k.console.emptyPolls = k₁.console.emptyPolls + 1 := by
    obtain ⟨c, found, rfl⟩ := Action.within_eq_ok.1 polled
    exact emptyPolls_of_poll found
  unfold waitForByte
  rw [Action.get_bind, Action.get_bind, console, announced, blockOn, Action.bind_of_ok polled]
  exact Action.bind_of_ok gave

/-- The handler of such a call yields and begins again. -/
theorem handleTrap_of_yieldNow {k₁ k₂ : Kernel} (id : frame .a3 = Syscall.getChar)
    (polled : onConsole Console.poll k = .ok none k₁) (gave : yieldNow k₁ = .ok () k₂)
    (call : cause.scause = TrapCause.environmentCall) :
    handleTrap frame cause k = handleTrap frame cause k₂ := by
  have dispatched : dispatch frame k = dispatch frame k₂ := by
    unfold dispatch
    rw [if_neg (id ▸ by decide), if_pos id]
    exact Action.bind_congr_state (waitForByte_of_yieldNow polled gave)
  unfold handleTrap
  rw [if_neg (not_not.2 call)]
  exact Action.bind_congr_state dispatched

/-- A handler that returns leaves the result in `a0` and goes on after the call. -/
theorem returns_of_handleTrap (ready : frame .a3 = Syscall.getChar → k.console.emptyPolls = 0)
    (handled : handleTrap frame cause k = .ok (frame', pc) k') :
    Returns frame k k' (frame' .a0) ∧ (∀ r ≠ .a0, frame' r = frame r) ∧
      pc = cause.sepc + TrapCause.callLength := by
  unfold handleTrap at handled
  split at handled
  next => cases handled
  obtain ⟨frame₁, k₁, done, rest⟩ := Action.bind_eq_ok.1 handled
  cases rest
  unfold dispatch at done
  split at done
  next id =>
    obtain ⟨⟨⟩, k₁, put, rest⟩ := Action.bind_eq_ok.1 done
    cases rest
    exact ⟨.putChar id put, fun _ _ => rfl, rfl⟩
  split at done
  next id =>
    obtain ⟨byte, k₁, found, rest⟩ := Action.bind_eq_ok.1 done
    cases rest
    exact ⟨.getChar id (waitForByte_of_ready (ready id) found), fun _ ne => if_neg ne, rfl⟩
  split at done
  next =>
    obtain ⟨⟨⟩, k₁, ended, -⟩ := Action.bind_eq_ok.1 done
    obtain ⟨log, k₂, -, stopped⟩ := exitCurrent_eq k
    cases stopped.symm.trans ended
  split at done
  next id =>
    obtain ⟨word, k₁, read, rest⟩ := Action.bind_eq_ok.1 done
    cases rest
    exact ⟨.readFile id read, fun _ ne => if_neg ne, rfl⟩
  split at done
  next id =>
    obtain ⟨word, k₁, written, rest⟩ := Action.bind_eq_ok.1 done
    cases rest
    exact ⟨.writeFile id written, fun _ ne => if_neg ne, rfl⟩
  next => cases done

end PocketKernel.Kernel
