import PocketKernel.Memory.Space

/-!
# Copies to and from user memory

A range of user addresses is cut into pieces that stay inside one page, and each piece is moved
through the translation of its first address. A copy stops at the first piece that is not mapped;
what was moved before stays moved. Addresses wrap at 32 bits.
-/
namespace PocketKernel

/-- How many bytes lie between `va` and the end of its page. -/
def pageRest (va : UInt32) : Nat := 4096 - va.toNat % 4096

theorem pageRest_pos (va : UInt32) : 0 < pageRest va := by
  unfold pageRest; omega

/-- The range that holds `data` from `va` on, cut at the page boundaries. -/
def userPieces (va : UInt32) (data : Bytes) : List (UInt32 × Bytes) :=
  if data = [] then []
  else
    (va, data.take (pageRest va)) ::
      userPieces (va + UInt32.ofNat (pageRest va)) (data.drop (pageRest va))
termination_by data.length
decreasing_by
  have := pageRest_pos va
  have := List.length_pos_iff.2 ‹¬data = []›
  simp; omega

namespace Memory

def writePieces (root : UInt32) : List (UInt32 × Bytes) → Action Memory Bool
  | [] => pure true
  | (va, piece) :: rest => do
    match ← Action.ask (translate · root va) with
    | none => pure false
    | some pa =>
      store pa piece
      writePieces root rest

/-- Copies `data` to the user addresses from `va` on; false when some of them are not mapped. -/
def writeUser (root va : UInt32) (data : Bytes) : Action Memory Bool :=
  writePieces root (userPieces va data)

/-- Fills the pieces in order. From the first one that is not mapped on they keep their bytes. -/
def readPieces (m : Memory) (root : UInt32) :
    List (UInt32 × Bytes) → Except Fault (Bool × Bytes)
  | [] => .ok (true, [])
  | (va, piece) :: rest => do
    match ← m.translate root va with
    | none => pure (false, piece ++ (rest.map (·.2)).flatten)
    | some pa =>
      let got ← m.load pa piece.length
      let (mapped, others) ← m.readPieces root rest
      pure (mapped, got ++ others)

/-- Fills `buffer` from the user addresses from `va` on; false when some of them are not mapped. -/
def readUser (m : Memory) (root va : UInt32) (buffer : Bytes) : Except Fault (Bool × Bytes) :=
  m.readPieces root (userPieces va buffer)

/-- What ended the scan of a user string. -/
inductive StringEnd where
  | terminated
  | unmapped
  | unterminated
  deriving DecidableEq, Repr

/-- The bytes before the first zero byte, unmapped address or end of a buffer of `room` bytes. -/
def scanString (m : Memory) (root : UInt32) :
    (va : UInt32) → (room : Nat) → Except Fault (Bytes × StringEnd)
  | _, 0 => .ok ([], .unterminated)
  | va, room + 1 => do
    let (mapped, got) ← m.readUser root va [0]
    if !mapped then
      pure ([], .unmapped)
    else if got.headD 0 == 0 then
      pure ([], .terminated)
    else
      let (text, stop) ← m.scanString root (va + 1) room
      pure (got.headD 0 :: text, stop)

end Memory

end PocketKernel
