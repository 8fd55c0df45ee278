import PocketKernel.Kernel.Syscall
import PocketKernel.Shell.Line

/-!
# Programs that trap

A program reaches the kernel by a trap, with a call number and three arguments in registers. Here
the shell runs as such a program in the current process: names and data are put at fixed places of
its memory first. A place that is not mapped is left to the call to find.
-/
namespace PocketKernel.Kernel

/-- Where the program's call instruction is. -/
def callSite : UInt32 := 0x01000040

def nameAddr : UInt32 := 0x01000100
def dataAddr : UInt32 := 0x01000400

/-- The registers of a program that makes a call; the other registers hold marks. -/
def callFrame (id arg0 arg1 arg2 : UInt32) : RegisterFile := fun r =>
  match r with
  | .a0 => arg0
  | .a1 => arg1
  | .a2 => arg2
  | .a3 => id
  | r => 0x1000 + UInt32.ofNat r.index

/-- Makes a call and answers with the result register. -/
def call (id arg0 arg1 arg2 : UInt32) : Action Kernel UInt32 := do
  let (frame, _) ← handleTrap (callFrame id arg0 arg1 arg2)
    ⟨TrapCause.environmentCall, 0, callSite⟩
  pure (frame .a0)

/-- Writes to the memory of the current process; answers whether all of it was mapped. -/
def pokeUser (addr : UInt32) (data : Bytes) : Action Kernel Bool := do
  let root := (← get).procs.running.pageTable
  onMemory (Memory.writeUser root addr data)

def system : System Kernel where
  putChar b := do
    let _ ← call Syscall.putChar b.toUInt32 0 0
  getChar := do return (← call Syscall.getChar 0 0 0).toUInt8
  readFile name n buffer := do
    let _ ← pokeUser nameAddr (name ++ [0])
    let result ← call Syscall.readFile nameAddr dataAddr (UInt32.ofNat n)
    match Syscall.fileResult result with
    | none => pure none
    | some count =>
      let root := (← get).procs.running.pageTable
      let room := min n count
      let (_, got) ← Action.ask fun k => k.memory.readUser root dataAddr (buffer.val.take room)
      pure (some (count, buffer.fill (got.take n) (List.length_take_le n got)))
  writeFile name data := do
    let _ ← pokeUser nameAddr (name ++ [0])
    let _ ← pokeUser dataAddr data
    let result ← call Syscall.writeFile nameAddr dataAddr (UInt32.ofNat data.length)
    return Syscall.fileResult result

/-- Runs the shell until it exits or the console's input ends. -/
def runShell : Action Kernel Unit := do Shell.run system ((← get).console.arrivals.length + 1)

end PocketKernel.Kernel
