import Mathlib
import PocketKernel.Process.Core

/-!
# Contexts

A context is what a process may not lose while others run: its registers, its place on its stack and
the words of that stack. `Core.Keeps` says that a core has stored one where a later switch takes it
up. What happens on other stacks does not matter (`Keeps.of_stack`), a switch away keeps the context
that was running (`keeps_suspend`), a fresh stack keeps the first one (`keeps_seed`), and a switch
to what is kept brings it back (`context_resume`). In bytes, a frame on a stack is what
`SwitchFrame.writeTo` makes of it (`Core.bytes_putFrame`).
-/
namespace PocketKernel

namespace KernelStack

def bytes (s : KernelStack) (depth : Nat) : Bytes :=
  (List.range depth).flatMap fun i => Bytes.ofLE 8 (s.wordAt (depth - i)).toNat

theorem bytes_add (s : KernelStack) (n depth : Nat) :
    s.bytes (n + depth) = ((List.range n).map fun i => s.wordAt (n + depth - i)).flatMap
      (fun word => Bytes.ofLE 8 word.toNat) ++ s.bytes depth := by
  simp [bytes, List.range_add, List.flatMap_append, List.flatMap_map, Nat.add_sub_add_left]

/-- Words that are stored at the end of a stack take the place of its first bytes. -/
theorem bytes_put (s : KernelStack) {depth : Nat} {stored : List UInt64}
    (room : stored.length ≤ depth) :
    (s.put depth stored).bytes depth =
      (s.bytes depth).splice 0 (stored.flatMap fun word => Bytes.ofLE 8 word.toNat) := by
  obtain ⟨rest, rfl⟩ := Nat.exists_eq_add_of_le room
  have front : (List.range stored.length).map
      (fun i => (s.put (stored.length + rest) stored).wordAt (stored.length + rest - i)) =
        stored := by
    refine List.ext_getElem (by simp) fun i inside inside' => ?_
    have back : stored.length + rest - (stored.length + rest - i) = i := by omega
    rw [List.getElem_map, List.getElem_range, wordAt_put _ room, if_pos (by omega), back]
    exact (List.getElem_eq_getD 0).symm
  have above : (s.put (stored.length + rest) stored).bytes rest = s.bytes rest :=
    List.flatMap_congr fun i mem => by rw [wordAt_put _ room, if_neg (by omega)]
  rw [bytes_add, front, above, bytes_add, Bytes.splice, List.take_zero, List.nil_append,
    Nat.zero_add, List.drop_left' (by simp [List.length_flatMap, Function.comp_def])]

end KernelStack

structure Context where
  live : SwitchFrame
  sp : StackPointer
  stack : KernelStack

namespace Context

def first (entry : UInt64) (slot : Slot) : Context := ⟨.firstEntry entry, ⟨.kernel slot, 0⟩, .empty⟩

/-- The same registers, the same place, and the same words from there up to the top of the stack. -/
structure Agrees (c d : Context) : Prop where
  live : c.live = d.live
  sp : c.sp = d.sp
  words : ∀ depth ≤ d.sp.depth, c.stack.wordAt depth = d.stack.wordAt depth

end Context

namespace Core

def context (c : Core) : Context := ⟨c.live, c.sp, c.kernelStacks.get c.sp.stack⟩

/-- The context is stored on its stack, and `saved` is where. -/
structure Keeps (c : Core) (saved : Option StackPointer) (kept : Context) : Prop where
  place : saved = some (lowered kept.sp)
  live : c.frameAt (lowered kept.sp) = kept.live
  words : ∀ depth ≤ kept.sp.depth,
    (c.kernelStacks.get kept.sp.stack).wordAt depth = kept.stack.wordAt depth

@[simp] theorem raised_lowered (p : StackPointer) : raised (lowered p) = p := by
  simp [raised, lowered]

theorem get_putFrame (c : Core) (p : StackPointer) (f : SwitchFrame) {id : StackId}
    (h : id ≠ p.stack) : (c.putFrame p f).kernelStacks.get id = c.kernelStacks.get id := by
  rw [putFrame, KernelStacks.get_set, if_neg h]

/-- The bytes of a stack with a frame at their front. -/
theorem bytes_putFrame (c : Core) (p : StackPointer) (f : SwitchFrame) (room : 13 ≤ p.depth) :
    ((c.putFrame p f).kernelStacks.get p.stack).bytes p.depth =
      f.writeTo ((c.kernelStacks.get p.stack).bytes p.depth) := by
  rw [putFrame, KernelStacks.get_set, if_pos rfl]
  exact KernelStack.bytes_put _ (by simpa using room)

/-- A stack is seeded by writing the first frame to its last bytes. -/
theorem bytes_seed (c : Core) (slot : Slot) :
    ((c.seed slot).kernelStacks.get (.kernel slot)).bytes SwitchFrame.wordCount =
      (SwitchFrame.firstEntry c.userEntry).writeTo
        ((c.kernelStacks.get (.kernel slot)).bytes SwitchFrame.wordCount) :=
  bytes_putFrame c (seedPlace slot) _ le_rfl

/-- A frame is stored below the words that were there. -/
theorem wordAt_putFrame_lowered (c : Core) (p : StackPointer) (f : SwitchFrame) {depth : Nat}
    (h : depth ≤ p.depth) :
    ((c.putFrame (lowered p) f).kernelStacks.get p.stack).wordAt depth =
      (c.kernelStacks.get p.stack).wordAt depth := by
  have room : f.toWords.toList.length ≤ (lowered p).depth := by
    simp [lowered, SwitchFrame.wordCount]
  have above : ¬ ((lowered p).depth - f.toWords.toList.length < depth ∧
      depth ≤ (lowered p).depth) := by
    simp [lowered, SwitchFrame.wordCount]
    omega
  have same : p.stack = (lowered p).stack := rfl
  rw [putFrame, KernelStacks.get_set, if_pos same, KernelStack.wordAt_put _ room, if_neg above]
  rfl

theorem Keeps.of_stack {c d : Core} {saved : Option StackPointer} {kept : Context}
    (h : c.Keeps saved kept)
    (same : d.kernelStacks.get kept.sp.stack = c.kernelStacks.get kept.sp.stack) :
    d.Keeps saved kept := by
  refine ⟨h.place, ?_, fun depth inside => ?_⟩
  · rw [← h.live]
    simp only [frameAt, lowered, same]
  · rw [same]
    exact h.words depth inside

theorem keeps_suspend (c : Core) : c.suspend.Keeps (some c.suspend.sp) c.context := by
  refine ⟨rfl, ?_, fun depth inside => ?_⟩
  · have room : 13 ≤ (lowered c.sp).depth := Nat.le_add_left ..
    exact frameAt_putFrame c (lowered c.sp) c.live room
  · exact wordAt_putFrame_lowered c c.sp c.live inside

theorem keeps_seed (c : Core) (slot : Slot) :
    (c.seed slot).Keeps (some (seedPlace slot)) (.first c.userEntry slot) := by
  refine ⟨rfl, ?_, fun depth inside => ?_⟩
  · exact frameAt_putFrame c (seedPlace slot) (.firstEntry c.userEntry) le_rfl
  · obtain rfl : depth = 0 := Nat.le_zero.1 inside
    rfl

/-- A switch to a context that is kept brings it back. -/
theorem context_resume {c : Core} {saved : Option StackPointer} {kept : Context}
    (h : c.Keeps saved kept) (otherwise : StackPointer) :
    (c.resume (saved.getD otherwise)).context.Agrees kept := by
  rw [h.place, Option.getD_some]
  refine ⟨h.live, raised_lowered _, fun depth inside => ?_⟩
  change ((c.kernelStacks.get (raised (lowered kept.sp)).stack).wordAt depth) = _
  rw [raised_lowered]
  exact h.words depth inside

end Core

end PocketKernel
