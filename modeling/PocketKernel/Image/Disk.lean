import PocketKernel.Files.Mount
import PocketKernel.Image.Listing
import PocketKernel.Text.Utf8

/-!
# Building and listing disk images

An image is what the kernel's own file table writes to a blank disk, so it holds what the kernel can
hold and nothing else. A listing reads an image as the kernel would.
-/
namespace PocketKernel

/-- Why an image could not be built: the file that was refused, and the reason. -/
structure BuildError where
  name : List Char
  cause : StoreError
  deriving DecidableEq, Repr

def BuildError.message (e : BuildError) : String :=
  "cannot add " ++ String.ofList e.name ++ ": " ++ e.cause.message

namespace DiskImage

/-- A table of files with those names and contents, in order. -/
def storeOf : FileStore → List (List Char × Bytes) → Except BuildError FileStore
  | s, [] => .ok s
  | s, (name, data) :: rest =>
    match s.insert (Utf8.encode name) data with
    | .error cause => .error ⟨name, cause⟩
    | .ok s => storeOf s rest

/-- The image of a table, written to a blank disk of the table's size. -/
def ofStore (s : FileStore) : Bytes :=
  (Action.finalState s.flush (Disk.blank FileStore.sectorCount)).image

def build (files : List (List Char × Bytes)) : Except BuildError Bytes :=
  (storeOf .empty files).map ofStore

def entryOf (f : File) : ListEntry := ⟨Utf8.decodeLossy f.name, f.size⟩

/-- The files of an image. -/
def list (image : Bytes) : Except StoreError Listing :=
  let (s, result) := FileStore.empty.load image
  result.map fun _ => s.files.map entryOf

def listMessage (cause : StoreError) : String := "not a valid disk image: " ++ cause.message

end DiskImage

end PocketKernel
