import PocketKernel.Memory.Space
import PocketKernel.Text.Utf8
import PocketKernel.Transcript
import PocketKernel.Trap.Register

/-!
# The supervisor's machine

A 32-bit processor with general registers, control registers and memory, and a firmware that owns
the console. The functions here are those the kernel uses to talk to its processor; each of them
issues single instructions, which the machine records.
-/
namespace PocketKernel

/-- A control register. -/
inductive Csr where
  | scause | stval | sepc | sscratch | satp | stvec | sstatus
  | other (name : String)
  deriving DecidableEq, Repr

namespace Csr

def name : Csr → String
  | scause => "scause"
  | stval => "stval"
  | sepc => "sepc"
  | sscratch => "sscratch"
  | satp => "satp"
  | stvec => "stvec"
  | sstatus => "sstatus"
  | other name => name

def ofName (name : String) : Csr :=
  ([scause, stval, sepc, sscratch, satp, stvec, sstatus].find? (·.name == name)).getD (.other name)

end Csr

/-- An instruction that was recorded. -/
inductive Issued where
  | readCsr (c : Csr)
  | writeCsr (c : Csr) (word : UInt32)
  | fence
  | wait
  | firmwareCall (arg function extension : UInt32)
  deriving DecidableEq, Repr

def Issued.text : Issued → String
  | readCsr c => "csrr " ++ c.name
  | writeCsr c word => "csrw " ++ c.name ++ " " ++ Hex.marked word.toNat
  | fence => "sfence.vma zero, zero"
  | wait => "wfi"
  | firmwareCall arg function extension =>
    "ecall a0=" ++ Hex.marked arg.toNat ++ " a6=" ++ Hex.marked function.toNat ++ " a7=" ++
      Hex.marked extension.toNat

structure Machine where
  regs : RegisterFile
  csr : Csr → UInt32
  /-- The control registers that were ever written. -/
  written : List Csr
  memory : Memory
  /-- What the firmware answers when it is asked for a byte; negative for none. -/
  input : List Int
  output : Transcript UInt8
  trace : Transcript Issued

namespace Machine

/-- A machine with zeros everywhere, whose memory lies from `base` up to `limit`. -/
def reset (base limit : UInt32) (input : List Int) : Machine where
  regs := .zero
  csr := fun _ => 0
  written := []
  memory := ⟨.blank base limit, ⟨base, limit⟩⟩
  input := input
  output := .empty
  trace := .empty

def setReg (r : Register) (word : UInt32) : Action Machine Unit :=
  modify fun m => { m with regs := m.regs.set r word }

def setCsr (c : Csr) (word : UInt32) : Action Machine Unit :=
  modify fun m => { m with
    csr := fun other => if other = c then word else m.csr other
    written := if c ∈ m.written then m.written else m.written ++ [c] }

def onMemory {α : Type} (x : Action Memory α) : Action Machine α :=
  x.within memory fun memory m => { m with memory }

def record (i : Issued) : Action Machine Unit := modify fun m => { m with trace := m.trace.push i }

def readCsr (c : Csr) : Action Machine UInt32 := do
  record (.readCsr c)
  return (← get).csr c

def writeCsr (c : Csr) (word : UInt32) : Action Machine Unit := do
  record (.writeCsr c word)
  setCsr c word

def fence : Action Machine Unit := record .fence

def wait : Action Machine Unit := record .wait

/-- Selects the tables that a word names, between two fences. -/
def setAddressSpace (satp : UInt32) : Action Machine Unit := do
  fence
  writeCsr .satp satp
  fence

def setTrapStack (top : UInt32) : Action Machine Unit := writeCsr .sscratch top

/-- The cause, the value and the address of the last trap. -/
def trapInfo : Action Machine (UInt32 × UInt32 × UInt32) := do
  let scause ← readCsr .scause
  let stval ← readCsr .stval
  let sepc ← readCsr .sepc
  pure (scause, stval, sepc)

/-- Waits forever. The machine lets that many waits pass and stops at the next one. -/
def halt : (passes : Nat) → Action Machine Unit
  | 0 => do
    wait
    throw .stopped
  | passes + 1 => do
    wait
    halt passes

namespace Firmware

def putChar : UInt32 := 1
def getChar : UInt32 := 2

end Firmware

/-- Asks the firmware; the answer is negative when it has none. -/
def firmwareCall (arg extension : UInt32) : Action Machine Int := do
  record (.firmwareCall arg 0 extension)
  if extension = Firmware.putChar then
    modify fun m => { m with output := m.output.push arg.toUInt8 }
    pure 0
  else
    match (← get).input with
    | [] => pure (-1)
    | answer :: rest =>
      modify fun m => { m with input := rest }
      pure answer

def putChar (b : UInt8) : Action Machine Unit := do
  let _ ← firmwareCall b.toUInt32 Firmware.putChar

/-- The low byte of the firmware's answer. -/
def getChar : Action Machine (Option UInt8) := do
  let answer ← firmwareCall 0 Firmware.getChar
  pure (if answer < 0 then none else some (UInt8.ofNat answer.toNat))

def putBytes : Bytes → Action Machine Unit
  | [] => pure ()
  | b :: rest => do
    putChar b
    putBytes rest

def putText (s : List Char) : Action Machine Unit := putBytes (Utf8.encode s)

end Machine

end PocketKernel
