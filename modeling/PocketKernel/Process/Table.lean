import PocketKernel.Process.Stack
import PocketKernel.Text.Hex

/-!
# The process table

Eight slots hold the processes. A slot goes from unused to runnable to exited and is never used
again, and numbers of processes only grow. Number zero is the idle process: it runs on the stack of
the boot code and is chosen when nothing else can run. `pickNext` looks at the slots after the
current one in cyclic order and at the current one last.
-/
namespace PocketKernel

inductive ProcessState where
  | unused
  | runnable
  | exited
  deriving DecidableEq, Repr

structure Process where
  pid : UInt32
  state : ProcessState
  /-- Where the last switch away from the process left its frame; none before the first. -/
  savedSp : Option StackPointer
  pageTable : UInt32
  deriving DecidableEq, Repr

namespace Process

def idlePid : UInt32 := 0

def unused : Process := ⟨idlePid, .unused, none, 0⟩

def isIdle (p : Process) : Bool := p.state != .unused && p.pid == idlePid

/-- One line about a process; `place` is the text of the place of its saved frame. -/
def text (p : Process) (place : String) : String :=
  let state := match p.state with
    | .unused => "Unused"
    | .runnable => "Runnable"
    | .exited => "Exited"
  "Process \x7b pid: Pid(" ++ toString p.pid.toNat ++ "), state: " ++ state ++ ", sp: " ++
    place ++ ", page_table: " ++ Hex.marked p.pageTable.toNat ++ " \x7d"

/-- The process may be switched to for its own sake. -/
def isReady (p : Process) : Bool := p.state == .runnable && !p.isIdle

end Process

structure ProcessTable where
  slots : PerSlot Process
  current : Slot
  idle : Option Slot
  nextPid : UInt32

namespace ProcessTable

def empty : ProcessTable := ⟨Vector.replicate slotCount .unused, 0, none, 1⟩

def process (t : ProcessTable) (slot : Slot) : Process := t.slots.value slot

def update (t : ProcessTable) (slot : Slot) (f : Process → Process) : ProcessTable :=
  { t with slots := t.slots.put slot (f (t.process slot)) }

theorem process_update (t : ProcessTable) (slot other : Slot) (f : Process → Process) :
    (t.update slot f).process other =
      if slot = other then f (t.process slot) else t.process other :=
  PerSlot.value_put t.slots slot other (f (t.process slot))

/-- The process of a slot given by its number. -/
def at? (t : ProcessTable) (index : Nat) : Option Process := t.slots[index]?

def running (t : ProcessTable) : Process := t.process t.current

/-- All slots in table order. -/
def allSlots : List Slot := List.finRange slotCount

def find (t : ProcessTable) (pid : UInt32) : Option Process :=
  t.slots.toList.find? fun p => p.state != .unused && p.pid == pid

/-- The slot `offset` places after another one, around the end of the table. -/
def after (slot : Slot) (offset : Nat) : Slot :=
  ⟨(slot.val + offset) % slotCount, Nat.mod_lt _ (by decide)⟩

/-- The slots in the order in which a yield looks at them; the current one comes last. -/
def candidates (t : ProcessTable) : List Slot :=
  (List.range slotCount).map fun i => after t.current (i + 1)

/-- The slot that a yield switches to. -/
def pickNext (t : ProcessTable) : Slot :=
  match t.candidates.find? fun slot => (t.process slot).isReady with
  | some slot => slot
  | none => t.idle.getD t.current

/-- The first slot that was never used. -/
def freeSlot (t : ProcessTable) : Option Slot :=
  allSlots.find? fun slot => (t.process slot).state == .unused

/-- Makes a runnable process of a slot. -/
def install (t : ProcessTable) (slot : Slot) (pid pageTable : UInt32)
    (savedSp : Option StackPointer) : ProcessTable :=
  t.update slot fun _ => ⟨pid, .runnable, savedSp, pageTable⟩

def exitCurrent (t : ProcessTable) : ProcessTable :=
  t.update t.current fun p => { p with state := .exited }

end ProcessTable

end PocketKernel
