import PocketKernel.Kernel.State

/-!
# Processes and their turns

Processes are created with an address space of their own: the kernel's window, the device page and
the program image. A yield switches to the next process and returns when a later yield switches
back, which in this model is at once: the live registers are then those of the next process.
-/
namespace PocketKernel.Kernel

/-- A root table with the kernel's window and the device page. -/
def newSpace : Action Kernel UInt32 := do
  let layout := (← get).layout
  onMemory do
    let root ← Memory.allocPages 1
    Memory.identityMap root layout.kernelBase (layout.freeRamEnd - layout.kernelBase) .kernelRwx
    Memory.mapPage root deviceBase deviceBase .kernelRw
    pure root

/-- A slot for a new process; the kernel stops when there is none. -/
def freeSlot : Action Kernel Slot := do
  match (← get).procs.freeSlot with
  | some slot => pure slot
  | none => throw .noFreeSlot

/-- Makes the idle process of the code that is running. -/
def spawnIdle : Action Kernel UInt32 := do
  if (← get).procs.idle.isSome then
    throw .idleExists
  let slot ← freeSlot
  let root ← newSpace
  modify fun k => { k with
    procs := { k.procs.install slot Process.idlePid root none with
      idle := some slot
      current := slot } }
  report (.idleCreated slot.val)
  pure Process.idlePid

/-- Makes a process that will run `image`. -/
def createProcess (image : Bytes) : Action Kernel UInt32 := do
  let slot ← freeSlot
  let root ← newSpace
  onMemory (Memory.loadImage root userBase image .userRwx)
  let pid := (← get).procs.nextPid
  modify fun k => { k with
    procs := { k.procs.install slot pid root (some (Core.seedPlace slot)) with
      nextPid := pid + 1 }
    core := k.core.seed slot }
  report (.processCreated pid slot.val image.length)
  pure pid

/-- Saves the registers of the current slot and takes up those of another one. -/
def switchTo (slot : Slot) : Action Kernel Unit :=
  modify fun k =>
    let target := k.procs.process slot
    let core := { k.core.selectSpace (satpOf target.pageTable) with trapStack := some slot }
    let suspended := core.suspend
    let procs := k.procs.update k.procs.current fun p => { p with savedSp := some suspended.sp }
    { k with
      procs := { procs with current := slot }
      core := suspended.resume ((procs.process slot).savedSp.getD ⟨.kernel slot, 0⟩) }

/-- Gives up the core to the next process; nothing happens when that is the current one. -/
def yieldNow : Action Kernel Unit := do
  let k ← get
  let next := k.procs.pickNext
  if next ≠ k.procs.current then
    switchTo next

def yieldTimes : (count : Nat) → Action Kernel Unit
  | 0 => pure ()
  | count + 1 => do
    yieldNow
    yieldTimes count

/-- Polls until there is an answer and yields between the attempts. The poll is told how many
attempts remain; with none left the wait ends in the fault `stuck`. -/
def blockOn {α : Type} (poll : (remaining : Nat) → Action Kernel (Option α)) (stuck : Fault) :
    (attempts : Nat) → Action Kernel α
  | 0 => throw stuck
  | remaining + 1 => do
    match ← poll remaining with
    | some answer => pure answer
    | none =>
      yieldNow
      blockOn poll stuck remaining

/-- Waits for a byte from the console. The poll after those that find nothing brings one, or faults,
so that there are enough attempts. -/
def waitForByte : Action Kernel UInt8 := do
  let emptyPolls := (← get).console.emptyPolls
  blockOn (fun _ => onConsole Console.poll) .inputExhausted (emptyPolls + 1)

/-- Waits until `count` attempts were in vain and answers with the number of the process that is
current then. -/
def waitForTurns (count : Nat) : Action Kernel UInt32 :=
  blockOn (fun remaining => do
    if remaining = 0 then
      return some (← get).procs.running.pid
    else
      pure none) .exitedResumed (count + 1)

/-- Ends the current process. Its code never runs on, so a switch that comes back is a fault. -/
def exitCurrent : Action Kernel Unit := do
  report (.processExited (← get).procs.running.pid)
  modify fun k => { k with procs := k.procs.exitCurrent }
  yieldNow
  throw .exitedResumed

end PocketKernel.Kernel
