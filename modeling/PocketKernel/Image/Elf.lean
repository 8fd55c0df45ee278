import PocketKernel.Bytes
import PocketKernel.Text.Hex

/-!
# Program files

A program file begins with headers, which a reader finds: the entry address and the program headers.
What the reader refuses is refused with its words. `Segment.ofFile` checks the headers that are to
be loaded, and `flatten` lays their bytes out in one image from the lowest address on. A later
segment overwrites an earlier one, and gaps are zero. Numbers of a file have up to 64 bits, and so
must the sums of them that the tool makes.
-/
namespace PocketKernel

/-- Why a program file cannot be used. -/
inductive ElfError where
  /-- The reader refused the file. -/
  | unread (cause : String)
  | fileLargerThanMemory (vaddr fileSize memSize : Nat)
  | segmentOutside (vaddr : Nat)
  /-- A sum has no 64-bit word. -/
  | sumOverflow
  /-- A difference is below zero. -/
  | differenceOverflow
  /-- A range that ends at `stop` is not inside an image of that length. -/
  | outsideImage (stop length : Nat)
  deriving DecidableEq, Repr

namespace ElfError

def message : ElfError → String
  | unread cause => cause
  | fileLargerThanMemory vaddr fileSize memSize =>
    "segment at " ++ Hex.marked vaddr ++ " has filesz " ++ Hex.marked fileSize ++ " > memsz " ++
      Hex.marked memSize
  | segmentOutside vaddr =>
    "segment at " ++ Hex.marked vaddr ++ " runs past the end of the file"
  | sumOverflow => "attempt to add with overflow"
  | differenceOverflow => "attempt to subtract with overflow"
  | outsideImage stop length =>
    "range end index " ++ toString stop ++ " out of range for slice of length " ++ toString length

/-- The file could be read, but a segment of it cannot be loaded. -/
def isSegmentError : ElfError → Bool
  | fileLargerThanMemory _ _ _ => true
  | segmentOutside _ => true
  | _ => false

/-- The failure is not one that a user is told of: it stops the tool. -/
def isFault : ElfError → Bool
  | sumOverflow => true
  | differenceOverflow => true
  | outsideImage _ _ => true
  | _ => false

end ElfError

/-- The sum of 64-bit words. -/
def addWords (a b : Nat) : Except ElfError Nat :=
  if a + b < UInt64.size then .ok (a + b) else .error .sumOverflow

/-- The difference of 64-bit words. -/
def subWords (a b : Nat) : Except ElfError Nat :=
  if b ≤ a then .ok (a - b) else .error .differenceOverflow

/-- A program header as it is stored. -/
structure ProgramHeader where
  kind : Nat
  fileOffset : Nat
  vaddr : Nat
  fileSize : Nat
  memSize : Nat
  deriving DecidableEq, Repr

structure ProgramFile where
  entry : Nat
  headers : List ProgramHeader
  deriving DecidableEq, Repr

/-- What finds the headers of a program file, or says why it cannot. -/
abbrev ProgramReader := Bytes → Except String ProgramFile

/-- A piece of memory that a program needs. The bytes after `data` are zero. -/
structure Segment where
  vaddr : Nat
  memSize : Nat
  data : Bytes
  deriving DecidableEq, Repr

namespace Segment

def fileSize (s : Segment) : Nat := s.data.length

/-- The address after the segment. -/
def stop (s : Segment) : Nat := s.vaddr + s.memSize

/-- The kind of program headers that are loaded. -/
def loadKind : Nat := 1

/-- The segment of a header to be loaded. The end of its bytes is added up before it is compared
with the end of the file. -/
def ofHeader (file : Bytes) (h : ProgramHeader) : Except ElfError Segment :=
  if h.memSize < h.fileSize then
    .error (.fileLargerThanMemory h.vaddr h.fileSize h.memSize)
  else do
    let _ ← addWords h.fileOffset h.fileSize
    match file.slice? h.fileOffset h.fileSize with
    | none => .error (.segmentOutside h.vaddr)
    | some data => .ok ⟨h.vaddr, h.memSize, data⟩

def isLoaded (h : ProgramHeader) : Bool := h.kind == loadKind && h.memSize != 0

/-- The segments of a file in the order of its headers. -/
def ofFile (file : Bytes) (headers : List ProgramHeader) : Except ElfError (List Segment) :=
  (headers.filter isLoaded).mapM (ofHeader file)

end Segment

/-- The entry address of a program and the segments to be loaded. -/
structure LoadPlan where
  entry : Nat
  segments : List Segment
  deriving DecidableEq, Repr

namespace LoadPlan

/-- The plan of a file by the headers that the reader finds in it. -/
def ofFile (read : ProgramReader) (file : Bytes) : Except ElfError LoadPlan := do
  let p ← (read file).mapError .unread
  return ⟨p.entry, ← Segment.ofFile file p.headers⟩

/-- The lowest address of the segments. -/
def base : List Segment → Option Nat
  | [] => none
  | s :: rest => some (rest.foldl (fun low t => min low t.vaddr) s.vaddr)

/-- The address after the highest segment. -/
def stop (segments : List Segment) : Nat :=
  segments.foldl (fun high t => max high t.stop) 0

/-- The image of the segments and its base address; none when there are no segments. -/
def flatten (p : LoadPlan) : Option (Bytes × Nat) :=
  (base p.segments).map fun low =>
    (p.segments.foldl (fun image s => image.splice (s.vaddr - low) s.data)
      (Bytes.zeros (stop p.segments - low)), low)

end LoadPlan

end PocketKernel
