/-!
# Page frames

Frames are handed out from the low end of a range and never come back.
-/
namespace PocketKernel

/-- The range of frames that are still free. -/
structure Frames where
  next : UInt32
  limit : UInt32
  deriving DecidableEq, Repr

namespace Frames

/-- Takes `count` frames, when that many fit below the limit and below the end of the addresses. -/
def alloc (f : Frames) (count : Nat) : Option (UInt32 × Frames) :=
  let stop := f.next.toNat + count * 4096
  if stop < UInt32.size ∧ stop ≤ f.limit.toNat then
    some (f.next, { f with next := UInt32.ofNat stop })
  else
    none

def remaining (f : Frames) : Nat := (f.limit.toNat - f.next.toNat) / 4096

/-- What requests made one after the other get, each with the range that is left after it. A request
that is refused leaves the range as it was. -/
def requests (f : Frames) : List Nat → List (Option UInt32 × Frames)
  | [] => []
  | count :: rest =>
    match f.alloc count with
    | none => (none, f) :: f.requests rest
    | some (start, left) => (some start, left) :: left.requests rest

end Frames

end PocketKernel
