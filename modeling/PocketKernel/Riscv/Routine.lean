import PocketKernel.Kernel.State
import PocketKernel.Riscv.Machine

/-!
# Assembly routines

Three routines are sequences of instructions. A trap is entered by swapping the stack pointer with
the scratch register, storing all registers in a frame below the new stack pointer and handing the
frame to a handler; the way back loads the frame. A context switch stores thirteen registers on one
stack and loads them from another. The entry to user code sets the address and the status for the
return from supervisor mode.
-/
namespace PocketKernel.Riscv

inductive Instr where
  /-- The register and the control register trade their words. -/
  | swapCsr (r : Register) (c : Csr)
  | readCsr (dst : Register) (c : Csr)
  | writeCsr (c : Csr) (src : Register)
  | loadImm (dst : Register) (word : UInt32)
  | addImm (dst src : Register) (word : UInt32)
  | move (dst src : Register)
  | load (dst : Register) (offset : UInt32) (base : Register)
  | store (src : Register) (offset : UInt32) (base : Register)
  deriving DecidableEq, Repr

/-- Loads read the memory before the register changes. -/
def exec : Instr → Action Machine Unit
  | .swapCsr r c => do
    let m ← get
    Machine.setCsr c (m.regs r)
    Machine.setReg r (m.csr c)
  | .readCsr dst c => do Machine.setReg dst ((← get).csr c)
  | .writeCsr c src => do Machine.setCsr c ((← get).regs src)
  | .loadImm dst word => Machine.setReg dst word
  | .addImm dst src word => do Machine.setReg dst ((← get).regs src + word)
  | .move dst src => do Machine.setReg dst ((← get).regs src)
  | .load dst offset base => do
    let word ← Action.ask fun m => m.memory.ram.loadWord (m.regs base + offset)
    Machine.setReg dst word
  | .store src offset base => do
    let m ← get
    Machine.onMemory (Memory.inRam (Ram.storeWord (m.regs base + offset) (m.regs src)))

def run : List Instr → Action Machine Unit
  | [] => pure ()
  | i :: rest => do
    exec i
    run rest

/-- Loads or stores of those registers at consecutive words above the stack pointer. -/
def atStack (op : Register → UInt32 → Register → Instr) (regs : List Register) : List Instr :=
  regs.zipIdx.map fun (r, i) => op r (UInt32.ofNat (4 * i)) .sp

/-- The registers of a trap frame in order, but for the stack pointer. -/
def framed : List Register := Register.all.filter (· ≠ .sp)

/-- A trap frame takes thirty-one words; the room for it is one word larger. -/
def frameSize : UInt32 := 128

def frameSpOffset : UInt32 := 120

/-- The way into a trap, up to the call of the handler with the frame's address in `a0`. -/
def trapEntry : List Instr :=
  [.swapCsr .sp .sscratch, .addImm .sp .sp (0 - frameSize)] ++
    atStack .store framed ++
    [.readCsr .a0 .sscratch, .store .a0 frameSpOffset .sp, .addImm .a0 .sp frameSize,
      .writeCsr .sscratch .a0, .move .a0 .sp]

/-- The way out of a trap, up to the return from supervisor mode. -/
def trapExit : List Instr := atStack .load framed ++ [.load .sp frameSpOffset .sp]

/-- The registers that a context switch saves. -/
def switched : List Register := .ra :: Register.saved

def switchFrameSize : UInt32 := 52

/-- Switches stacks; `a0` and `a1` hold the addresses of the saved stack pointers. -/
def contextSwitch : List Instr :=
  [.addImm .sp .sp (0 - switchFrameSize)] ++ atStack .store switched ++
    [.store .sp 0 .a0, .load .sp 0 .a1] ++ atStack .load switched ++
    [.addImm .sp .sp switchFrameSize]

/-- Interrupts are on after the return from supervisor mode. -/
def interruptsAfterReturn : UInt32 := 0x20

/-- The supervisor may touch user pages. -/
def userPagesOpen : UInt32 := 0x40000

def userEntry : List Instr :=
  [.loadImm .t0 userBase, .writeCsr .sepc .t0,
    .loadImm .t0 (interruptsAfterReturn + userPagesOpen), .writeCsr .sstatus .t0]

/-- Where a return from supervisor mode goes. -/
def returnAddress : Action Machine UInt32 := do return (← get).csr .sepc

/-- Takes a trap with that handler; the answer is the handler's and the address user code goes on
at. -/
def takeTrap {α : Type} (handler : Action Machine α) : Action Machine (α × UInt32) := do
  run trapEntry
  let answer ← handler
  run trapExit
  pure (answer, ← returnAddress)

/-- Switches contexts; the answer is the address that the routine returns to. -/
def switchContext (prev next : UInt32) : Action Machine UInt32 := do
  Machine.setReg .a0 prev
  Machine.setReg .a1 next
  run contextSwitch
  return (← get).regs .ra

def enterUser : Action Machine UInt32 := do
  run userEntry
  returnAddress

/-- What a handler was given. -/
structure TrapView where
  frameAddr : UInt32
  frame : RegisterFile
  sscratch : UInt32

/-- That many words from an address on. -/
def loadWords (addr : UInt32) (count : Nat) : Action Machine (List UInt32) := do
  let bytes ← Action.ask fun m => m.memory.load addr (4 * count)
  pure ((bytes.chunks 3).map fun b => UInt32.ofNat (Bytes.leNat b))

/-- The frame at an address. -/
def loadFrame (addr : UInt32) : Action Machine RegisterFile := do
  return .ofWords (← loadWords addr 31)

def editFrame (addr : UInt32) : List (Nat × UInt32) → Action Machine Unit
  | [] => pure ()
  | (index, word) :: rest => do
    Machine.onMemory (Memory.inRam (Ram.storeWord (addr + UInt32.ofNat (4 * index)) word))
    editFrame addr rest

/-- The word that a handler leaves in the registers it need not keep. -/
def clobber : UInt32 := 0xcccccccc

/-- A handler that notes its frame, edits words of it and keeps no register but the stack
pointer. -/
def editingHandler (edits : List (Nat × UInt32)) : Action Machine TrapView := do
  let m ← get
  let addr := m.regs .a0
  let frame ← loadFrame addr
  editFrame addr edits
  modify fun m => { m with regs := fun r => if r = .sp then m.regs .sp else clobber }
  pure ⟨addr, frame, m.csr .sscratch⟩

end PocketKernel.Riscv
