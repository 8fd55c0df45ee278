import PocketKernel.Paging.Walk
import Std.Data.TreeMap

/-!
# A sparse memory of words

Words are kept by exact address and read zero until they are written. Tables are handed out from a
list of frames, which are taken as they come and are not cleared.
-/
namespace PocketKernel

structure WordMemory where
  words : Std.TreeMap UInt32 UInt32
  frames : List UInt32

namespace WordMemory

def ofFrames (frames : List UInt32) : WordMemory := ⟨∅, frames⟩

def read (m : WordMemory) (addr : UInt32) : UInt32 := m.words.getD addr 0

def write (m : WordMemory) (addr word : UInt32) : WordMemory :=
  { m with words := m.words.insert addr word }

@[simp] theorem read_write (m : WordMemory) (addr word other : UInt32) :
    (m.write addr word).read other = if addr = other then word else m.read other := by
  simp [read, write, Std.TreeMap.getD_insert]

/-- Every word that was ever written, in the order of the addresses. -/
def written (m : WordMemory) : List (UInt32 × UInt32) := m.words.toList

instance : TableMemory WordMemory where
  loadWord m addr := .ok (m.read addr)
  storeWord addr word := modify (write · addr word)
  allocTable := do
    match (← get).frames with
    | [] => throw (.refused .outOfFrames)
    | frame :: rest =>
      modify fun m => { m with frames := rest }
      pure frame

end WordMemory

end PocketKernel
