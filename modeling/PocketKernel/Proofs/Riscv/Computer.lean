import Mathlib
import PocketKernel.Proofs.Kernel.Answers
import PocketKernel.Proofs.Riscv.Routines

/-!
# The kernel on the processor

`Computer` is a kernel together with the machine it runs on. What the kernel decides is `Kernel`;
how control passes from one process to another is left to the instructions: the way into a trap, the
switch of contexts, the way out. The machine's memory holds the kernel's own data, which are the
stacks and the saved stack pointers; user pages and page tables are frames of `Kernel.memory`. File
calls reach nothing but frames, as their pointers stay in user pages.

A handler is compiled code. Of its trap it needs the address of the frame and the cause, and when it
yields it has them in registers that a call preserves, on its stack, or in both, in whatever way the
compiler chose (`Keeping`). Between two steps of the kernel any code may run that keeps to itself:
`Step` has what user code, the handler of a trap and the boot code may do. A handler that waits
polls and yields by steps of its own, one for every turn of the loop in which `Kernel.handleTrap`
waits.
-/
namespace PocketKernel

/-- The calling convention has a function leave these registers as they were. -/
def Register.isPreserved : Register → Bool
  | .s0 | .s1 | .s2 | .s3 | .s4 | .s5 | .s6 | .s7 | .s8 | .s9 | .s10 | .s11 => true
  | _ => false

namespace Riscv

inductive Place where
  | stack (id : StackId)
  | savedSp (slot : Slot)
  deriving DecidableEq

namespace Place

def number (boot : Nat) (kernel savedSp : Slot → Nat) : Place → Nat
  | stack .boot => boot
  | stack (.kernel slot) => kernel slot
  | .savedSp slot => savedSp slot

def size (bootSize : Nat) : Place → Nat :=
  number bootSize (fun _ => kernelStackSize) fun _ => 4

end Place

/-- How the handler of a call has what it needs when it yields: the address of its frame and the
cause, in registers and in the words of its stack below the frame. -/
structure Keeping where
  words : Nat
  /-- What the front of the handler leaves there. -/
  keep : UInt32 → TrapCause → RegisterFile × List UInt32
  kept : RegisterFile → List UInt32 → UInt32 × TrapCause
  length_keep : ∀ addr cause, (keep addr cause).2.length = words
  /-- All other registers may change while the handler yields. -/
  kept_congr : ∀ {regs regs' : RegisterFile} (stack : List UInt32),
    (∀ r, r.isPreserved → regs' r = regs r) → kept regs' stack = kept regs stack
  /-- Nothing reads the value of a trap that is a system call. -/
  kept_keep : ∀ (addr : UInt32) (cause : TrapCause), cause.scause = TrapCause.environmentCall →
    ∃ stval, kept (keep addr cause).1 (keep addr cause).2 = (addr, { cause with stval })

structure KernelImage extends Keeping where
  base : UInt32
  limit : UInt32
  bootSize : Nat
  start : Place → Nat
  /-- Where a process begins. -/
  userEntry : UInt32
  /-- Where kernel code goes on after a yield. -/
  yieldReturn : UInt32
  entry_ne : userEntry ≠ yieldReturn
  bootSize_aligned : 4 ∣ bootSize
  start_aligned : ∀ p, 4 ∣ start p
  /-- There is room for what the handler keeps, and for a switch below. -/
  room : 128 + 4 * words + 52 ≤ kernelStackSize
  inside : ∀ p, base.toNat ≤ start p ∧ start p + p.size bootSize ≤ limit.toNat
  apart : ∀ p q, p ≠ q →
    start p + p.size bootSize ≤ start q ∨ start q + q.size bootSize ≤ start p

namespace KernelImage
variable (img : KernelImage)

def finish (p : Place) : Nat := img.start p + p.size img.bootSize

def top (slot : Slot) : Nat := img.finish (.stack (.kernel slot))

/-- The stack pointer has room for a switch below it. -/
def Roomy (id : StackId) (sp : Nat) : Prop :=
  4 ∣ sp ∧ img.start (.stack id) + 52 ≤ sp ∧ sp ≤ img.finish (.stack id)

/-- The front of a handler, with the address of the frame in `a0`. -/
def keepTrap : Action Machine Unit := do
  let (scause, stval, sepc) ← Machine.trapInfo
  let old := (← get).regs
  let (regs, stack) := img.keep (old .a0) ⟨scause, stval, sepc⟩
  let sp := old .sp + (0 - UInt32.ofNat (4 * img.words))
  editFrame sp (placed stack)
  modify fun m => { m with regs := regs.set .sp sp }

def keptTrap : Action Machine (UInt32 × RegisterFile × TrapCause) := do
  let regs := (← get).regs
  let stack ← loadWords (regs .sp) img.words
  let (addr, cause) := img.kept regs stack
  let frame ← loadFrame addr
  pure (addr, frame, cause)

/-- The end of a handler and the way out of the trap; the answer is where user code goes on. -/
def leaveTrap (addr : UInt32) (frame : RegisterFile) (pc : UInt32) : Action Machine UInt32 := do
  editFrame addr (placed frame.toWords)
  Machine.setReg .sp ((← get).regs .sp + UInt32.ofNat (4 * img.words))
  Machine.writeCsr .sepc pc
  run trapExit
  returnAddress

def seedStack (slot : Slot) : Action Machine Unit := do
  editFrame (UInt32.ofNat (img.top slot - 52)) (placed (img.userEntry :: List.replicate 12 0))
  Machine.onMemory (Memory.inRam (Ram.storeWord (UInt32.ofNat (img.start (.savedSp slot)))
    (UInt32.ofNat (img.top slot - 52))))

/-- A handler may change the bytes of its own stack below the frame. -/
def HandlerByte (slot : Slot) (a : Nat) : Prop :=
  img.start (.stack (.kernel slot)) ≤ a ∧ a < img.top slot - 128

def BootByte (a : Nat) : Prop := img.start (.stack .boot) ≤ a ∧ a < img.finish (.stack .boot)

end KernelImage

inductive Mode where
  | user
  | kernel
  deriving DecidableEq

structure Computer where
  kernel : Kernel
  machine : Machine
  mode : Mode
  /-- Where the user code is. -/
  pc : UInt32

namespace Computer

def onKernel {α : Type} (x : Action Kernel α) : Action Computer α :=
  x.within kernel fun kernel s => { s with kernel }

def onMachine {α : Type} (x : Action Machine α) : Action Computer α :=
  x.within machine fun machine s => { s with machine }

def noteCall (pc stval : UInt32) : Action Machine Unit := do
  Machine.setCsr .sepc pc
  Machine.setCsr .scause TrapCause.environmentCall
  Machine.setCsr .stval stval

/-- A system call, from user code up to where the handler has kept it. -/
def trap (img : KernelImage) (stval : UInt32) : Action Computer Unit := do
  let pc := (← get).pc
  onMachine do
    noteCall pc stval
    run trapEntry
    img.keepTrap
  modify fun s => { s with mode := .kernel }

def prepareSwitch (img : KernelImage) (satp : UInt32) (next : Slot) : Action Machine Unit := do
  Machine.setAddressSpace satp
  Machine.setTrapStack (UInt32.ofNat (img.top next))
  Machine.setReg .ra img.yieldReturn

def answerCall (img : KernelImage) : Action Computer Unit := do
  let (addr, frame, cause) ← onMachine img.keptTrap
  let (frame, pc) ← onKernel (Kernel.handleTrap frame cause)
  let pc ← onMachine (img.leaveTrap addr frame pc)
  modify fun s => { s with mode := .user, pc }

/-- Switches to the process that the kernel has made the current one. The switch returns to where
that process goes on. -/
def switchTo (img : KernelImage) (prev next : Slot) : Action Computer Unit := do
  let satp := satpOf (← get).kernel.procs.running.pageTable
  let ra ← onMachine do
    prepareSwitch img satp next
    switchContext (UInt32.ofNat (img.start (.savedSp prev)))
      (UInt32.ofNat (img.start (.savedSp next)))
  if ra = img.userEntry then
    let pc ← onMachine enterUser
    modify fun s => { s with mode := .user, pc }
  else if ra ≠ img.yieldReturn then
    throw .stopped

def yieldNow (img : KernelImage) : Action Computer Unit := do
  let prev := (← get).kernel.procs.current
  onKernel Kernel.yieldNow
  let next := (← get).kernel.procs.current
  if next ≠ prev then
    switchTo img prev next

def InUser (s : Computer) (slot : Slot) : Prop := s.mode = .user ∧ s.kernel.procs.current = slot

/-- The kernel runs for a process that trapped. -/
def InHandler (s : Computer) : Prop :=
  s.mode = .kernel ∧ s.kernel.procs.idle ≠ some s.kernel.procs.current

/-- The code that made itself the idle process runs. -/
def InBoot (s : Computer) : Prop :=
  s.mode = .kernel ∧ s.kernel.procs.idle = some s.kernel.procs.current

instance (s : Computer) (slot : Slot) : Decidable (s.InUser slot) :=
  inferInstanceAs (Decidable (_ ∧ _))

instance (s : Computer) : Decidable s.InHandler := inferInstanceAs (Decidable (_ ∧ _))

instance (s : Computer) : Decidable s.InBoot := inferInstanceAs (Decidable (_ ∧ _))

/-- Code of the kernel that changes only those bytes of the kernel's data. -/
structure ComputesIn (bytes : Nat → Prop) (m m' : Machine) : Prop where
  csr : m'.csr = m.csr
  base : m'.memory.ram.base = m.memory.ram.base
  limit : m'.memory.ram.limit = m.memory.ram.limit
  others : ∀ a < UInt32.size, ¬ bytes a → m'.memory.ram.byteAt a = m.memory.ram.byteAt a

def KeepsTrap (img : KernelImage) (m m' : Machine) : Prop :=
  m'.regs .sp = m.regs .sp ∧
    img.kept m'.regs (m'.memory.ram.words (m'.regs .sp).toNat img.words) =
      img.kept m.regs (m.memory.ram.words (m.regs .sp).toNat img.words)

/-- The process that runs waits for the kernel to do that call. -/
def Asks (img : KernelImage) (s : Computer) (id : UInt32) : Prop :=
  ∃ addr frame cause machine, img.keptTrap s.machine = .ok (addr, frame, cause) machine ∧
    cause.scause = TrapCause.environmentCall ∧ frame .a3 = id

inductive Step (img : KernelImage) : Computer → Computer → Prop where
  /-- User code has the registers, its place and the frames; nothing is assumed of it. -/
  | userCode {s : Computer} (user : s.mode = .user) (regs : RegisterFile) (pc : UInt32)
      (memory : Memory) :
      Step img s { s with
        kernel := { s.kernel with memory }, machine := { s.machine with regs }, pc }
  | trap {s s' : Computer} (user : s.mode = .user) (stval : UInt32)
      (trapped : trap img stval s = .ok () s') : Step img s s'
  /-- Something comes to the console. -/
  | input {s : Computer} (console : Console) :
      Step img s { s with kernel := { s.kernel with console } }
  | handlerCode {s : Computer} {machine : Machine} (handler : s.InHandler)
      (own : ComputesIn (img.HandlerByte s.kernel.procs.current) s.machine machine)
      (keeps : KeepsTrap img s.machine machine) : Step img s { s with machine }
  | bootCode {s : Computer} {machine : Machine} {sp : Nat} (boot : s.InBoot)
      (own : ComputesIn img.BootByte s.machine machine)
      (top : machine.regs .sp = UInt32.ofNat sp) (roomy : img.Roomy .boot sp) :
      Step img s { s with machine }
  /-- The call need not wait. -/
  | answer {s s' : Computer} (handler : s.InHandler)
      (ready : s.Asks img Syscall.getChar → s.kernel.console.emptyPolls = 0)
      (answered : answerCall img s = .ok () s') : Step img s s'
  /-- The call finds nothing on the console and yields. -/
  | wait {s s' : Computer} {kernel : Kernel} (handler : s.InHandler)
      (asks : s.Asks img Syscall.getChar)
      (polled : Kernel.onConsole Console.poll s.kernel = .ok none kernel)
      (gave : yieldNow img { s with kernel } = .ok () s') : Step img s s'
  /-- The process ends. If there is nothing to switch to, this is fatal. -/
  | exit {s s' : Computer} {kernel : Kernel} (handler : s.InHandler)
      (asks : s.Asks img Syscall.exit)
      (ended : Kernel.exitCurrent s.kernel = .error .exitedResumed kernel)
      (moved : kernel.procs.current ≠ s.kernel.procs.current)
      (switched : switchTo img s.kernel.procs.current kernel.procs.current { s with kernel } =
        .ok () s') : Step img s s'
  | create {s : Computer} {kernel : Kernel} {machine : Machine} {image : Bytes} {pid : UInt32}
      {slot : Slot} (boot : s.InBoot) (free : s.kernel.procs.freeSlot = some slot)
      (made : Kernel.createProcess image s.kernel = .ok pid kernel)
      (seeded : img.seedStack slot s.machine = .ok () machine) :
      Step img s { s with kernel, machine }
  | yield {s s' : Computer} (boot : s.InBoot) (gave : yieldNow img s = .ok () s') : Step img s s'

inductive Act where
  | computes
  /-- User code makes a system call with these registers. -/
  | calls (regs : RegisterFile)
  /-- The call finds nothing on the console and gives up its turn. -/
  | waits
  /-- The call is answered, and user code has these registers. -/
  | returns (regs : RegisterFile)

/-- What can happen next, apart from what comes to the console. -/
inductive Acts (img : KernelImage) : Act → Computer → Computer → Prop where
  | calls {s s' : Computer} (user : s.mode = .user) (stval : UInt32)
      (trapped : trap img stval s = .ok () s') : Acts img (.calls s.machine.regs) s s'
  | waits {s s' : Computer} {kernel : Kernel} (handler : s.InHandler)
      (asks : s.Asks img Syscall.getChar)
      (polled : Kernel.onConsole Console.poll s.kernel = .ok none kernel)
      (gave : yieldNow img { s with kernel } = .ok () s') : Acts img .waits s s'
  | returns {s s' : Computer} (handler : s.InHandler)
      (ready : s.Asks img Syscall.getChar → s.kernel.console.emptyPolls = 0)
      (answered : answerCall img s = .ok () s') : Acts img (.returns s'.machine.regs) s s'
  /-- Anything else that begins no call and ends none. -/
  | computes {s s' : Computer} (step : Step img s s')
      (console : s'.kernel.console = s.kernel.console) (user : s.mode = .user → s'.mode = .user)
      (kernel : s.mode = .kernel → ¬ s'.InUser s.kernel.procs.current) : Acts img .computes s s'

theorem Acts.step {img : KernelImage} {act : Act} {s s' : Computer}
    (acts : Acts img act s s') : Step img s s' := by
  cases acts with
  | calls user stval trapped => exact .trap user stval trapped
  | waits handler asks polled gave => exact .wait handler asks polled gave
  | returns handler ready answered => exact .answer handler ready answered
  | computes step => exact step

/-- The boot code runs and has just made itself the idle process. -/
structure Boots (img : KernelImage) (s : Computer) : Prop where
  mode : s.mode = .kernel
  spawned : ∃ kernel pid, kernel.procs = .empty ∧ Kernel.spawnIdle kernel = .ok pid s.kernel
  base : s.machine.memory.ram.base = img.base
  limit : s.machine.memory.ram.limit = img.limit
  sp : ∃ sp, s.machine.regs .sp = UInt32.ofNat sp ∧ img.Roomy .boot sp

def Reached (img : KernelImage) (s : Computer) : Prop :=
  ∃ first, Boots img first ∧ Relation.ReflTransGen (Step img) first s

end Computer

end Riscv

end PocketKernel
