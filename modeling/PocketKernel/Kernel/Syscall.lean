import PocketKernel.Kernel.Schedule
import PocketKernel.Trap.Register

/-!
# System calls

A program traps with the number of a call in `a3` and its arguments in `a0` to `a2`; the result goes
to `a0`. File calls answer `failed` when they cannot be done, and every failure is reported. A trap
for any other cause is fatal.
-/
namespace PocketKernel

namespace Syscall

def putChar : UInt32 := 1
def getChar : UInt32 := 2
def exit : UInt32 := 3
def readFile : UInt32 := 4
def writeFile : UInt32 := 5

/-- The answer of a file call that could not be done. -/
def failed : UInt32 := 0xffffffff

/-- The number of bytes that a file call moved; none when it could not be done. -/
def fileResult (result : UInt32) : Option Nat :=
  if result = failed then none else some result.toNat

end Syscall

/-- What the processor tells about a trap. -/
structure TrapCause where
  scause : UInt32
  stval : UInt32
  sepc : UInt32
  deriving DecidableEq, Repr

namespace TrapCause

/-- The cause of a system call from user code. -/
def environmentCall : UInt32 := 8

/-- The length of the instruction that makes a system call. -/
def callLength : UInt32 := 4

end TrapCause

namespace Kernel

/-- How many bytes a call moves. A length beyond what a file can hold means the stored size; a read
never goes past the stored size. -/
def transferLength (call : FileCall) (length : UInt32) (size : Nat) : Nat :=
  if fileDataMax < length.toNat then size
  else
    match call with
    | .writeFile => length.toNat
    | .readFile => min length.toNat size

/-- The file that a call names by the string at `addr`. -/
def namedFile (call : FileCall) (root addr : UInt32) : Action Kernel (Option File) := do
  let (name, stop) ← Action.ask fun k => k.memory.scanString root addr fileNameMax
  match stop with
  | .terminated =>
    match (← get).files.find? name with
    | some file => pure (some file)
    | none =>
      report (.fileNotFound name)
      pure none
  | .unmapped =>
    report (.badFileName call addr)
    pure none
  | .unterminated =>
    report (.stringUnterminated addr)
    report (.badFileName call addr)
    pure none

/-- Copies the front of a file to user memory; the answer is the number of bytes. -/
def readFile (nameAddr bufferAddr length : UInt32) : Action Kernel UInt32 := do
  let root := (← get).procs.running.pageTable
  match ← namedFile .readFile root nameAddr with
  | none => pure Syscall.failed
  | some file =>
    let count := transferLength .readFile length file.size
    if ← onMemory (Memory.writeUser root bufferAddr (file.contents.take count)) then
      pure (UInt32.ofNat count)
    else
      report (.badBuffer .readFile bufferAddr count)
      pure Syscall.failed

/-- Replaces the content of a file by bytes from user memory and flushes the file table. -/
def writeFile (nameAddr bufferAddr length : UInt32) : Action Kernel UInt32 := do
  let root := (← get).procs.running.pageTable
  match ← namedFile .writeFile root nameAddr with
  | none => pure Syscall.failed
  | some file =>
    let count := transferLength .writeFile length file.size
    let (mapped, data) ← Action.ask fun k =>
      k.memory.readUser root bufferAddr (Bytes.zeros count)
    if !mapped then
      report (.badBuffer .writeFile bufferAddr count)
      pure Syscall.failed
    else
      match (← get).files.overwrite file.name data with
      | none => pure Syscall.failed
      | some (.error cause) =>
        report (.writeRefused cause)
        pure Syscall.failed
      | some (.ok files) =>
        modify fun k => { k with files }
        let flushed ← onDisk files.flush
        modify fun k => { k with files := flushed }
        report (.tableWritten diskSize)
        pure (UInt32.ofNat count)

/-- Does the call that a frame asks for; the answer is the frame to go on with. -/
def dispatch (frame : RegisterFile) : Action Kernel RegisterFile := do
  let id := frame .a3
  if id = Syscall.putChar then
    onConsole (Console.put (frame .a0).toUInt8)
    pure frame
  else if id = Syscall.getChar then
    return frame.set .a0 (← waitForByte).toUInt32
  else if id = Syscall.exit then
    exitCurrent
    pure frame
  else if id = Syscall.readFile then
    return frame.set .a0 (← readFile (frame .a0) (frame .a1) (frame .a2))
  else if id = Syscall.writeFile then
    return frame.set .a0 (← writeFile (frame .a0) (frame .a1) (frame .a2))
  else
    throw (.unexpectedSyscall id)

/-- Handles a trap. The answer is the frame and the address where user code goes on, which is after
the trapping instruction. -/
def handleTrap (frame : RegisterFile) (cause : TrapCause) :
    Action Kernel (RegisterFile × UInt32) := do
  if cause.scause ≠ TrapCause.environmentCall then
    throw (.unexpectedTrap cause.scause cause.stval cause.sepc)
  let frame ← dispatch frame
  pure (frame, cause.sepc + TrapCause.callLength)

end Kernel

end PocketKernel
