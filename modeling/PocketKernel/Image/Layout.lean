import PocketKernel.Image.Elf

/-!
# Laying out segments

The image of a program is made with 64-bit words: the addresses behind the segments are added up,
distances from the lowest address are taken, and each segment is copied to a range that must lie in
the image. A step that cannot be done stops the tool. Memory for the image is taken to be there.
-/
namespace PocketKernel

/-- The bytes with a range of them replaced. -/
def Bytes.overwrite (xs : Bytes) (start : Nat) (ys : Bytes) : Except ElfError Bytes := do
  let stop ← addWords start ys.length
  if xs.length < stop then
    throw (.outsideImage stop xs.length)
  return xs.splice start ys

namespace LoadPlan

/-- The addresses after the segments. -/
def stops : List Segment → Except ElfError (List Nat)
  | [] => .ok []
  | s :: rest => do
    let stop ← addWords s.vaddr s.memSize
    return stop :: (← stops rest)

/-- Copies the data of segments, one after the other, into an image that begins at `low`. -/
def place (low : Nat) : (image : Bytes) → List Segment → Except ElfError Bytes
  | image, [] => .ok image
  | image, s :: rest => do
    let start ← subWords s.vaddr low
    place low (← image.overwrite start s.data) rest

/-- The image of the segments and its base address; none when there are no segments. -/
def layOut (p : LoadPlan) : Except ElfError (Option (Bytes × Nat)) :=
  match base p.segments with
  | none => .ok none
  | some low => do
    let high := (← stops p.segments).foldl max 0
    let image ← place low (Bytes.zeros (← subWords high low)) p.segments
    return some (image, low)

end LoadPlan

end PocketKernel
