/-!
# Transcripts

A transcript keeps what happened, in order. The newest item stands first, so that adding one costs
the same however many there are; `toList` is the view, with the oldest item first.
-/
namespace PocketKernel

structure Transcript (α : Type) where
  newestFirst : List α
  deriving DecidableEq, Repr

namespace Transcript
variable {α : Type}

def empty : Transcript α := ⟨[]⟩

def isEmpty (t : Transcript α) : Bool := t.newestFirst.isEmpty

/-- The items, oldest first. -/
def toList (t : Transcript α) : List α := t.newestFirst.reverse

def push (t : Transcript α) (a : α) : Transcript α := ⟨a :: t.newestFirst⟩

/-- The items of a list added one after the other. -/
def append (t : Transcript α) (items : List α) : Transcript α :=
  ⟨items.reverseAux t.newestFirst⟩

@[simp] theorem toList_push (t : Transcript α) (a : α) : (t.push a).toList = t.toList ++ [a] := by
  simp [toList, push]

end Transcript

end PocketKernel
