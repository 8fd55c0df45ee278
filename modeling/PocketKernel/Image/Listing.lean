import PocketKernel.Json.Reader

/-!
# Listings of disk images

A listing has an entry for each file of an image: its name and its size. As JSON it is an array of
objects; an entry may also be an array of its two fields. Members with other names are ignored, and
each field must be given once.
-/
namespace PocketKernel

structure ListEntry where
  name : List Char
  size : Nat
  deriving DecidableEq, Repr

namespace ListEntry

def toJson (e : ListEntry) : JsonValue :=
  .object [(some "name".toList, .ofText e.name), (some "size".toList, .ofNat e.size)]

def readName : JsonValue → Option (List Char)
  | .string s => s
  | _ => none

/-- A whole number of at most 64 bits. -/
def readSize : JsonValue → Option Nat
  | .number digits =>
    if digits.all JsonText.isDigit then
      let n := digits.foldl (fun acc c => acc * 10 + (c.toNat - 48)) 0
      if n < UInt64.size then some n else none
    else none
  | _ => none

/-- The value of the only member of that name. -/
def single (key : String) (members : List (List Char × JsonValue)) : Option JsonValue :=
  match members.filter (·.1 == key.toList) with
  | [(_, v)] => some v
  | _ => none

def ofJson : JsonValue → Option ListEntry
  | .array [name, size] => do return ⟨← readName name, ← readSize size⟩
  | .object members => do
    let members ← members.mapM fun m => m.1.map (·, m.2)
    let name ← single "name" members
    let size ← single "size" members
    return ⟨← readName name, ← readSize size⟩
  | _ => none

end ListEntry

/-- The files of an image, in the order of the image. -/
abbrev Listing := List ListEntry

namespace Listing

def toJson (l : Listing) : JsonValue := .array (l.map ListEntry.toJson)

def ofJson : JsonValue → Option Listing
  | .array items => items.mapM ListEntry.ofJson
  | _ => none

def read (text : String) : Option Listing := (JsonText.read text.toList).bind ofJson

/-- A size in six columns, two blanks and the name, a line for each file. -/
def text (l : Listing) : String :=
  if l.isEmpty then "(empty)\n"
  else
    String.join <| l.map fun e =>
      let digits := Nat.toDigits 10 e.size
      String.ofList (List.replicate (6 - digits.length) ' ' ++ digits ++ ' ' :: ' ' :: e.name) ++
        "\n"

end Listing

end PocketKernel
