import PocketKernel.Process.Frame
import PocketKernel.Process.Table
import PocketKernel.Transcript

/-!
# The processor core

The core is what a context switch works on: the live registers, the stack pointer and the words of
all stacks. A switch pushes the live registers on the current stack, records where, and pops the
registers of the next process from its stack. The core also notes which address spaces and trap
stacks it was given.
-/
namespace PocketKernel

structure Core where
  live : SwitchFrame
  sp : StackPointer
  kernelStacks : KernelStacks
  /-- The address spaces that were selected. -/
  satps : Transcript UInt32
  trapStack : Option Slot
  switches : Nat
  /-- Where a process that has never run is entered. -/
  userEntry : UInt64

namespace Core

/-- A core at the top of the boot stack, with zeros everywhere. -/
def reset (userEntry : UInt64) : Core where
  live := .firstEntry 0
  sp := ⟨.boot, 0⟩
  kernelStacks := .empty
  satps := .empty
  trapStack := none
  switches := 0
  userEntry := userEntry

/-- Frame words are stored from the lowest address on, so word `i` of a frame at depth `d` is at
depth `d - i`. -/
def frameAt (c : Core) (p : StackPointer) : SwitchFrame :=
  .ofWords (Vector.ofFn fun i => (c.kernelStacks.get p.stack).wordAt (p.depth - i.val))

/-- Stores a frame at a place that has room for it below the top. -/
def putFrame (c : Core) (p : StackPointer) (f : SwitchFrame) : Core :=
  { c with
    kernelStacks :=
      c.kernelStacks.set p.stack ((c.kernelStacks.get p.stack).put p.depth f.toWords.toList) }

theorem frameAt_putFrame (c : Core) (p : StackPointer) (f : SwitchFrame) (h : 13 ≤ p.depth) :
    (c.putFrame p f).frameAt p = f := by
  have same : (Vector.ofFn fun i : Fin 13 =>
      ((c.putFrame p f).kernelStacks.get p.stack).wordAt (p.depth - i.val)) = f.toWords := by
    ext i hi
    have back : p.depth - (p.depth - i) = i := by omega
    have inside : p.depth - 13 < p.depth - i ∧ p.depth - i ≤ p.depth := by omega
    simp [putFrame, KernelStack.wordAt_put, back, inside, hi, h]
  rw [frameAt, same, SwitchFrame.ofWords_toWords]

/-- The place a frame below the stack pointer. -/
def lowered (p : StackPointer) : StackPointer := { p with depth := p.depth + SwitchFrame.wordCount }

/-- The place just above a frame. -/
def raised (p : StackPointer) : StackPointer := { p with depth := p.depth - SwitchFrame.wordCount }

/-- The frame of a fresh process, at the top of its own stack. -/
def seedPlace (slot : Slot) : StackPointer := ⟨.kernel slot, SwitchFrame.wordCount⟩

/-- Seeds the stack of a slot so that the first switch to it enters user code. -/
def seed (c : Core) (slot : Slot) : Core :=
  c.putFrame (seedPlace slot) (.firstEntry c.userEntry)

/-- Saves the live registers on the current stack; the saved place is `lowered c.sp`. -/
def suspend (c : Core) : Core := { c.putFrame (lowered c.sp) c.live with sp := lowered c.sp }

/-- Takes up the registers that were saved at a place. -/
def resume (c : Core) (p : StackPointer) : Core :=
  { c with live := c.frameAt p, sp := raised p, switches := c.switches + 1 }

def selectSpace (c : Core) (satp : UInt32) : Core := { c with satps := c.satps.push satp }

end Core

end PocketKernel
