import PocketKernel.Bytes
import PocketKernel.Fault

/-!
# The shell

The shell prompts, reads a line and executes it, until the line says `exit`. It works on any system
that offers the four calls of a program. A line ends with a carriage return or a newline, and every
byte read is echoed. The buffer has room for 127 bytes; one byte more and the line is dropped.
-/
namespace PocketKernel

/-- A place for that many bytes. -/
abbrev Buffer (n : Nat) := { bytes : Bytes // bytes.length = n }

namespace Buffer

def blank (n : Nat) : Buffer n := ⟨Bytes.zeros n, Bytes.length_zeros n⟩

/-- The buffer with bytes put at its front. -/
def fill {n : Nat} (buffer : Buffer n) (front : Bytes) (h : front.length ≤ n) : Buffer n :=
  ⟨buffer.val.splice 0 front, Bytes.length_splice_eq buffer.property (by omega)⟩

end Buffer

/-- The calls a program makes into its system. -/
structure System (σ : Type) where
  putChar : UInt8 → Action σ Unit
  getChar : Action σ UInt8
  /-- Reads a file of that name into a buffer, which keeps its length: the number of bytes that the
  call reports and the buffer afterwards, or none when the call was refused. -/
  readFile : (name : Bytes) → {n : Nat} → Buffer n → Action σ (Option (Nat × Buffer n))
  writeFile : (name data : Bytes) → Action σ (Option Nat)

namespace System
variable {σ : Type}

def write (sys : System σ) : Bytes → Action σ Unit
  | [] => pure ()
  | b :: rest => do
    sys.putChar b
    sys.write rest

def writeText (sys : System σ) (text : String) : Action σ Unit := sys.write (Bytes.ofAscii text)

end System

namespace Shell

def prompt : String := "> "
def lineSize : Nat := 128
def carriageReturn : UInt8 := 13
def newline : UInt8 := 10

/-- Whether the shell goes on after a line. -/
inductive Flow where
  | proceed
  | exit
  deriving DecidableEq, Repr

inductive Command where
  | nothing
  | hello
  | exit
  | readFile
  | writeFile
  | unknown (line : Bytes)
  deriving DecidableEq, Repr

def Command.ofLine (line : Bytes) : Command :=
  if line = [] then .nothing
  else if line = Bytes.ofAscii "hello" then .hello
  else if line = Bytes.ofAscii "exit" then .exit
  else if line = Bytes.ofAscii "readfile" then .readFile
  else if line = Bytes.ofAscii "writefile" then .writeFile
  else .unknown line

/-- The one file that the shell's commands name. -/
def fileName : Bytes := Bytes.ofAscii "hello.txt"

def greeting : Bytes := Bytes.ofAscii "Hello from shell!\n"

section Loop
variable {σ : Type} (sys : System σ)

/-- Reads and echoes a byte; none when it ends the line. -/
def readByte : Action σ (Option UInt8) := do
  let b ← sys.getChar
  sys.putChar b
  if b = carriageReturn then
    sys.putChar newline
    pure none
  else if b = newline then
    pure none
  else
    pure (some b)

/-- Reads a line into a buffer with that room; none when the line does not fit. -/
def readLine : (room : Nat) → Action σ (Option Bytes)
  | 0 => return if (← readByte sys).isNone then some [] else none
  | room + 1 => do
    match ← readByte sys with
    | none => pure (some [])
    | some b => return (← readLine room).map (b :: ·)

def execute : Command → Action σ Flow
  | .nothing => pure .proceed
  | .hello => do
    sys.writeText "Hello world from shell!\n"
    pure .proceed
  | .exit => pure .exit
  | .readFile => do
    match ← sys.readFile fileName (Buffer.blank lineSize) with
    | some (count, buffer) =>
      sys.write (buffer.val.take (min count buffer.val.length))
      sys.putChar newline
    | none => sys.writeText "readfile: hello.txt not found\n"
    pure .proceed
  | .writeFile => do
    if (← sys.writeFile fileName greeting).isNone then
      sys.writeText "writefile: hello.txt not found\n"
    pure .proceed
  | .unknown line => do
    sys.writeText "unknown command: "
    sys.write line
    sys.putChar newline
    pure .proceed

/-- Prompts for one line and executes it. -/
def runOnce : Action σ Flow := do
  sys.writeText prompt
  match ← readLine sys (lineSize - 1) with
  | none =>
    sys.writeText "\ncommand line too long\n"
    pure .proceed
  | some line => execute sys (.ofLine line)

/-- Runs the shell that many times and lists what each run said. -/
def runTimes : (count : Nat) → Action σ (List Flow)
  | 0 => pure []
  | count + 1 => do
    let flow ← runOnce sys
    return flow :: (← runTimes count)

/-- Runs the shell until it exits. Every line takes a byte of the input, so the number of bytes that
the system can still bring bounds the number of lines; the fault stands for the read beyond them. -/
def run : (lines : Nat) → Action σ Unit
  | 0 => throw .inputExhausted
  | lines + 1 => do
    match ← runOnce sys with
    | .exit => pure ()
    | .proceed => run lines

end Loop

end Shell

end PocketKernel
