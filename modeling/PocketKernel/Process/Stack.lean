import PocketKernel.Process.Slot

/-!
# Kernel stacks

Kernel code runs on the boot stack or on the stack of a slot. A stack grows down from its top. Its
words are named by their depth, and the word at depth one is next to the top. Words that were never
stored are zero. `wordAt` is the view of a stack, and `wordAt_put` says what stored words do to it.
-/
namespace PocketKernel

/-- The size of a process's kernel stack in bytes. -/
def kernelStackSize : Nat := 8192

/-- Kernel code runs on the boot stack or on the stack of a slot. -/
inductive StackId where
  | boot
  | kernel (slot : Slot)
  deriving DecidableEq, Repr

/-- A place on a stack, as a number of words below the top. -/
structure StackPointer where
  stack : StackId
  depth : Nat
  deriving DecidableEq, Repr

structure KernelStack where
  /-- The words from the top down, as far as any were stored. -/
  words : List UInt64
  deriving DecidableEq, Repr

namespace KernelStack

def empty : KernelStack := ⟨[]⟩

def wordAt (s : KernelStack) : (depth : Nat) → UInt64
  | 0 => 0
  | depth + 1 => s.words.getD depth 0

/-- The words above a depth of `n`, all of them. -/
def top (s : KernelStack) (n : Nat) : List UInt64 :=
  s.words.take n ++ List.replicate (n - s.words.length) 0

theorem length_top (s : KernelStack) (n : Nat) : (s.top n).length = n := by
  simp [top]
  omega

theorem getD_getElem?_top (s : KernelStack) {n i : Nat} (h : i < n) :
    (s.top n)[i]?.getD 0 = s.words[i]?.getD 0 := by
  simp only [top, List.getElem?_append, List.length_take, List.getElem?_take,
    List.getElem?_replicate, h, if_true]
  split
  · rfl
  · rw [List.getElem?_eq_none (by omega : s.words.length ≤ i)]
    split <;> rfl

/-- Stores words from the lowest address on; the first of them comes to lie at `depth`. -/
def put (s : KernelStack) (depth : Nat) (stored : List UInt64) : KernelStack :=
  ⟨s.top (depth - stored.length) ++ stored.reverse ++ s.words.drop depth⟩

theorem wordAt_put (s : KernelStack) {depth : Nat} {stored : List UInt64}
    (room : stored.length ≤ depth) (d : Nat) :
    (s.put depth stored).wordAt d =
      if depth - stored.length < d ∧ d ≤ depth then stored.getD (depth - d) 0 else s.wordAt d := by
  cases d with
  | zero => rw [if_neg (by omega)]; rfl
  | succ d =>
    simp only [wordAt, put, List.append_assoc, List.getD_eq_getElem?_getD,
      List.getElem?_append, length_top, List.length_reverse]
    by_cases above : d < depth - stored.length
    · rw [if_pos above, getD_getElem?_top s above, if_neg (by omega)]
    · rw [if_neg above]
      by_cases below : d < depth
      · have place : stored.length - 1 - (d - (depth - stored.length)) = depth - (d + 1) := by
          omega
        rw [if_pos (by omega), List.getElem?_reverse (by omega), place, if_pos (by omega)]
      · have place : depth + (d - (depth - stored.length) - stored.length) = d := by omega
        rw [if_neg (by omega), List.getElem?_drop, place, if_neg (by omega)]

end KernelStack

/-- The boot stack and the stack of each slot. -/
structure KernelStacks where
  boot : KernelStack
  slots : PerSlot KernelStack
  deriving DecidableEq, Repr

namespace KernelStacks

def empty : KernelStacks := ⟨.empty, Vector.replicate slotCount .empty⟩

def get (s : KernelStacks) : StackId → KernelStack
  | .boot => s.boot
  | .kernel slot => s.slots.value slot

def set (s : KernelStacks) (id : StackId) (stack : KernelStack) : KernelStacks :=
  match id with
  | .boot => { s with boot := stack }
  | .kernel slot => { s with slots := s.slots.put slot stack }

@[simp] theorem get_set (s : KernelStacks) (id other : StackId) (stack : KernelStack) :
    (s.set id stack).get other = if other = id then stack else s.get other := by
  cases id <;> cases other <;>
    simp [get, set, PerSlot.value_put, eq_comm]

end KernelStacks

end PocketKernel
