import PocketKernel.Bytes

/-!
# Switch frames

A context switch saves the return address and twelve further registers. On a stack they are
thirteen words, the return address at the lowest address. A process that has never run gets a frame
that returns to the entry routine with all other registers zero.
-/
namespace PocketKernel

/-- The registers that survive a call. -/
structure SwitchFrame where
  ra : UInt64
  s : Vector UInt64 12
  deriving DecidableEq

namespace SwitchFrame

def wordCount : Nat := 13

/-- The words in stack order. -/
def toWords (f : SwitchFrame) : Vector UInt64 13 := ⟨#[f.ra] ++ f.s.toArray, by simp⟩

def ofWords (words : Vector UInt64 13) : SwitchFrame where
  ra := words[0]
  s := Vector.ofFn fun i => words[i.val + 1]

@[simp] theorem ofWords_toWords (f : SwitchFrame) : ofWords f.toWords = f := by
  cases f with
  | mk ra s =>
    simp only [ofWords, toWords, mk.injEq]
    refine ⟨by simp, ?_⟩
    ext i hi
    simp [Array.getElem_append_right]

def firstEntry (entry : UInt64) : SwitchFrame := ⟨entry, Vector.replicate 12 0⟩

/-- The words as bytes, eight to a word, the lowest first. -/
def toBytes (f : SwitchFrame) : Bytes :=
  f.toWords.toList.flatMap fun word => Bytes.ofLE 8 word.toNat

/-- The buffer with the frame's bytes at its front. -/
def writeTo (f : SwitchFrame) (buffer : Bytes) : Bytes := buffer.splice 0 f.toBytes

end SwitchFrame

end PocketKernel
